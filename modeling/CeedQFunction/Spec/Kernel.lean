import CeedQFunction.Spec.NeoHookean

/-! The kernels as a backend calls them, `(ctx, Q, in, out)`: every field is a flat buffer
of `numComp * Q` scalars, component `c` of point `i` at offset `c * Q + i`
(`CEED_Q_VLA = Q`). Indexing is checked: a kernel is `none` where the C code would read
or write outside a buffer, or where its `CeedInt` index arithmetic overflows. -/

namespace Ceed

variable {α : Type*}

/-- A kernel body: from `Q` and the input and output buffers, its status and the outputs
it leaves. -/
def Kernel (α : Type*) := Nat → List (List α) → List (List α) → Option (Int × List (List α))

/-- `bufs[f][off]`. -/
def rd (bufs : List (List α)) (f off : Nat) : Option α := bufs[f]? >>= fun b => b[off]?

/-- `bufs[f][off] = v`. -/
def wr (bufs : List (List α)) (f off : Nat) (v : α) : Option (List (List α)) :=
  match bufs[f]? with
  | some b => if off < b.length then some (bufs.set f (b.set off v)) else none
  | none => none

section Comps

variable [Zero α]

/-- The writes `X[c][i] = v c`, `c < n`, to field `f`. -/
def wrComps (bufs : List (List α)) (f Q i : Nat) (v : Nat → α) : Nat → Option (List (List α))
  | 0 => some bufs
  | n + 1 => do
    let bufs ← wrComps bufs f Q i v n
    wr bufs f (n * Q + i) (v n)

end Comps

/-- A `CeedInt` (`int32_t`) computed from values `≥ 0`: past `2^31 - 1` the C arithmetic
overflows, which is undefined behaviour, and the model has no result. -/
def ceedInt (n : Nat) : Option Nat := if n < 2 ^ 31 then some n else none

/-- The index `i + Q * c` computed in `CeedInt`: the product, then the sum. -/
def ceedIndex (i Q c : Nat) : Option Nat := ceedInt (Q * c) >>= fun m => ceedInt (i + m)

/-- The quadrature point loop `for (i = 0; i < Q; i++)`. -/
def forPoints (Q : Nat) (body : Nat → List (List α) → Option (List (List α)))
    (outs : List (List α)) : Option (List (List α)) :=
  (List.range Q).foldlM (fun o i => body i o) outs

section Kernels

variable [Field α]

/-- `setup` of `t530-operator.h`: `rho = weight * det J` for a 2×2 `J`, whose index
`i + Q * c` the C code computes in `CeedInt`. -/
def setup : Kernel α := fun Q ins outs => do
  let outs ← forPoints Q (fun i o => do
    let weight ← rd ins 0 i
    let J0 ← (ceedIndex i Q 0).bind (rd ins 1)
    let J1 ← (ceedIndex i Q 1).bind (rd ins 1)
    let J2 ← (ceedIndex i Q 2).bind (rd ins 1)
    let J3 ← (ceedIndex i Q 3).bind (rd ins 1)
    wr o 0 i (weight * (J0 * J3 - J1 * J2))) outs
  return (0, outs)

/-- `mass` of `t530-operator.h`: `v = rho * u`. -/
def mass : Kernel α := fun Q ins outs => do
  let outs ← forPoints Q (fun i o => do
    let rho ← rd ins 0 i
    let u ← rd ins 1 i
    wr o 0 i (rho * u)) outs
  return (0, outs)

variable (log1p : α → α) (ctx : Physics α)

end Kernels

end Ceed

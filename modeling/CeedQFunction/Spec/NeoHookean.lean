import CeedQFunction.Spec.Tensor

/-! The helpers and the per-quadrature-point bodies of `finite-strain-neo-hookean.h`, in
exact arithmetic over a field. `log1p_series_shifted` sits behind an `#ifndef` guard in
the header, so `commonFS` and the kernels take the log1p helper as a parameter; the
header's own helper is `log1pSeriesShifted`, whose `sqrt` and `log` are those of
`math.h`. -/

namespace Ceed

open Matrix

variable {α : Type*}

/-- The context `Physics_private`. -/
structure Physics (α : Type*) where
  nu : α
  E : α

namespace Physics

variable [Field α] (p : Physics α)

/-- The four material constants every kernel derives from the context. -/
def TwoMu : α := p.E / (1 + p.nu)

def mu : α := p.TwoMu / 2

def Kbulk : α := p.E / (3 * (1 - 2 * p.nu))

def lambda : α := (3 * p.Kbulk - p.TwoMu) / 3

end Physics

section Log1p

variable [LinearOrderedField α] (sqrt log : α → α)

/-- The one-step range reduction of `log1p_series_shifted`: the initial `sum` and the
reduced `x` (the `if (1)` branch is always taken). -/
def log1pShift (x : α) : α × α :=
  let left := sqrt 2 / 2 - 1
  let right := sqrt 2 - 1
  if x < left then (0 - log 2 / 2, 1 + 2 * x)
  else if right < x then (0 + log 2 / 2, (x - 1) / 2)
  else (0, x)

/-- `log1p_series_shifted`: the reduction, then four terms of `2 atanh(x / (2 + x))`. -/
def log1pSeriesShifted (x : α) : α :=
  let r := log1pShift sqrt log x
  let y := r.2 / (2 + r.2)
  let y2 := y * y
  let y3 := y * y2
  let y5 := y3 * y2
  let y7 := y5 * y2
  2 * (r.1 + y + y3 / 3 + y5 / 5 + y7 / 7)

end Log1p

section Kernels

variable [Field α]

/-- `computeJM1`, `det(I + grad_u) - 1` expanded. -/
def computeJM1 (grad_u : Mat3 α) : α :=
  grad_u 0 0 * (grad_u 1 1 * grad_u 2 2 - grad_u 1 2 * grad_u 2 1) +
    grad_u 0 1 * (grad_u 1 2 * grad_u 2 0 - grad_u 1 0 * grad_u 2 2) +
    grad_u 0 2 * (grad_u 1 0 * grad_u 2 1 - grad_u 2 0 * grad_u 1 1) + grad_u 0 0 + grad_u 1 1 +
    grad_u 2 2 + grad_u 0 0 * grad_u 1 1 + grad_u 0 0 * grad_u 2 2 + grad_u 1 1 * grad_u 2 2 -
    grad_u 0 1 * grad_u 1 0 - grad_u 0 2 * grad_u 2 0 - grad_u 1 2 * grad_u 2 1

/-- `computeMatinvSym`: the six cofactors `B` of a symmetric `A`, each divided by `detA`. -/
def computeMatinvSym (A : Mat3 α) (detA : α) : Fin 6 → α :=
  let B : Fin 6 → α := ![A 1 1 * A 2 2 - A 1 2 * A 2 1, A 0 0 * A 2 2 - A 0 2 * A 2 0,
    A 0 0 * A 1 1 - A 0 1 * A 1 0, A 0 2 * A 1 0 - A 0 0 * A 1 2,
    A 0 1 * A 1 2 - A 0 2 * A 1 1, A 0 2 * A 2 1 - A 0 1 * A 2 2]
  fun m => B m / detA

/-- `E2work`, twice the Green-Lagrange strain packed: `grad_u + grad_uᵀ + grad_uᵀ grad_u`. -/
def E2work (grad_u : Mat3 α) : Fin 6 → α := fun m =>
  grad_u (indj m) (indk m) + grad_u (indk m) (indj m) + ∑ n, grad_u n (indj m) * grad_u n (indk m)

def E2 (grad_u : Mat3 α) : Mat3 α := unpackSym (E2work grad_u)

/-- `C = I + 2E`, the right Cauchy-Green tensor, built from the upper triangle of `E2`. -/
def cauchyGreen (E2 : Mat3 α) : Mat3 α :=
  !![1 + E2 0 0, E2 0 1, E2 0 2; E2 0 1, 1 + E2 1 1, E2 1 2; E2 0 2, E2 1 2, 1 + E2 2 2]

/-- The three outputs of `commonFS`. -/
structure CommonFS (α : Type*) where
  Swork : Fin 6 → α
  Cinvwork : Fin 6 → α
  logJ : α

/-- `commonFS`: `C⁻¹` through `computeMatinvSym` with `detC = J²`, and
`S = λ logJ C⁻¹ + μ C⁻¹ E2`, both packed. -/
def commonFS (log1p : α → α) (lambda mu : α) (grad_u : Mat3 α) : CommonFS α :=
  let Jm1 := computeJM1 grad_u
  let Cinvwork := computeMatinvSym (cauchyGreen (E2 grad_u)) ((Jm1 + 1) * (Jm1 + 1))
  let logJ := log1p Jm1
  { Swork := fun m =>
      lambda * logJ * Cinvwork m + ∑ n, mu * unpackSym Cinvwork (indj m) n * E2 grad_u n (indk m)
    Cinvwork := Cinvwork
    logJ := logJ }

/-- `dXdx` as the kernels read it from `q_data[1..9]`. -/
def qDXdx (q : Fin 10 → α) : Mat3 α := !![q 1, q 2, q 3; q 4, q 5, q 6; q 7, q 8, q 9]

/-- `du[j][m] = ug[m][j]`. -/
def duOf (ug : Mat3 α) : Mat3 α := Matrix.of fun j m => ug m j

omit [Field α] in
theorem duOf_eq (ug : Mat3 α) : duOf ug = ugᵀ := rfl

/-- `F = I3 + grad_u`. -/
def defGrad (grad_u : Mat3 α) : Mat3 α :=
  !![grad_u 0 0 + 1, grad_u 0 1, grad_u 0 2; grad_u 1 0, grad_u 1 1 + 1, grad_u 1 2;
    grad_u 2 0, grad_u 2 1, grad_u 2 2 + 1]

/-- `P = F S` of `ElasFSResidual_NH`, from the stored `grad_u`. -/
def firstPiola (log1p : α → α) (ctx : Physics α) (grad_u : Mat3 α) : Mat3 α :=
  defGrad grad_u * unpackSym (commonFS log1p ctx.lambda ctx.mu grad_u).Swork

/-- One quadrature point of `ElasFSResidual_NH`: `dvdX` and the `grad_u` it stores. -/
def elasFSResidualNHAt (log1p : α → α) (ctx : Physics α) (ug : Mat3 α) (q : Fin 10 → α) :
    Mat3 α × Mat3 α :=
  let grad_u := gradU (qDXdx q) (duOf ug)
  (pullBack (qDXdx q) (q 0) (firstPiola log1p ctx grad_u), grad_u)

/-- `deltaEwork`: `(graddeltauᵀ F + Fᵀ graddeltau) / 2` packed. -/
def deltaEwork (graddeltau F : Mat3 α) : Fin 6 → α := fun m =>
  ∑ n, (graddeltau n (indj m) * F n (indk m) + F n (indj m) * graddeltau n (indk m)) / 2

/-- `deltaS = λ (C_inv : deltaE) C_inv - 2 (λ logJ - μ) C_inv deltaE C_inv`. -/
def deltaSOf (lambda mu logJ : α) (C_inv deltaE : Mat3 α) : Mat3 α :=
  let deltaS := C_inv * (deltaE * C_inv)
  Matrix.of fun j k =>
    lambda * contract C_inv deltaE * C_inv j k - 2 * (lambda * logJ - mu) * deltaS j k

/-- `deltaP = deltaF S + F deltaS` of `ElasFSJacobian_NH`. -/
def deltaPiola (log1p : α → α) (ctx : Physics α) (grad_u graddeltau : Mat3 α) : Mat3 α :=
  let F := defGrad grad_u
  let c := commonFS log1p ctx.lambda ctx.mu grad_u
  let deltaS := deltaSOf ctx.lambda ctx.mu c.logJ (unpackSym c.Cinvwork)
    (unpackSym (deltaEwork graddeltau F))
  Matrix.of fun j k => ∑ m, (graddeltau j m * unpackSym c.Swork m k + F j m * deltaS m k)

/-- One quadrature point of `ElasFSJacobian_NH`: `deltadvdX`. -/
def elasFSJacobianNHAt (log1p : α → α) (ctx : Physics α) (deltaug : Mat3 α) (q : Fin 10 → α)
    (grad_u : Mat3 α) : Mat3 α :=
  pullBack (qDXdx q) (q 0) (deltaPiola log1p ctx grad_u (gradU (qDXdx q) (duOf deltaug)))

/-- The strain energy `Phi(E)` that `ElasFSEnergy_NH` and `ElasFSDiagnostic_NH` both write. -/
def strainEnergy (lambda mu logJ : α) (E2 : Mat3 α) : α :=
  lambda * logJ * logJ / 2 - mu * logJ + mu * (E2 0 0 + E2 1 1 + E2 2 2) / 2

/-- One quadrature point of `ElasFSEnergy_NH`. -/
def elasFSEnergyNHAt (log1p : α → α) (ctx : Physics α) (ug : Mat3 α) (q : Fin 10 → α) : α :=
  let grad_u := gradU (qDXdx q) (duOf ug)
  strainEnergy ctx.lambda ctx.mu (log1p (computeJM1 grad_u)) (E2 grad_u) * q 0

/-- One quadrature point of `ElasFSDiagnostic_NH`: displacement, pressure, the two strain
invariants, `J` and the strain energy. -/
def elasFSDiagnosticNHAt (log1p : α → α) (ctx : Physics α) (u : Fin 3 → α) (ug : Mat3 α)
    (q : Fin 10 → α) : Fin 8 → α :=
  let grad_u := gradU (qDXdx q) (duOf ug)
  let E2 := E2 grad_u
  let Jm1 := computeJM1 grad_u
  let logJ := log1p Jm1
  ![u 0, u 1, u 2, -ctx.lambda * logJ, (E2 0 0 + E2 1 1 + E2 2 2) / 2,
    ∑ j, ∑ m, E2 j m * E2 m j / 4, Jm1 + 1, strainEnergy ctx.lambda ctx.mu logJ E2]

end Kernels

end Ceed

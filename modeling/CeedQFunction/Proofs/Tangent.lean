import CeedQFunction.Proofs.Strain

/-! `ElasFSJacobian_NH` in matrix form. The kernel computes `deltaP = deltaF S + F deltaS`
with `deltaE` the symmetric part of `Fᵀ deltaF`; the `dXdx` pull-back it shares with
`ElasFSResidual_NH` is adjoint to `gradU`. Together these make `(a, b) ↦ b : Jac a` a
symmetric bilinear form, whatever the `log1p` helper returns. -/

namespace Ceed

open Matrix

variable {α : Type*} [Field α]

theorem contract_eq_trace (A B : Mat3 α) : contract A B = trace (Aᵀ * B) := by
  simp only [contract, trace, diag, mul_apply, transpose_apply]
  exact Finset.sum_comm

theorem contract_pullBack (dXdx b P : Mat3 α) (wdetJ : α) :
    contract b (pullBack dXdx wdetJ P) = wdetJ * contract P (gradU dXdx (duOf b)) := by
  rw [contract_eq_trace, contract_eq_trace, pullBack_eq, gradU_eq, duOf_eq, mul_smul_comm,
    trace_smul, smul_eq_mul, ← Matrix.mul_assoc, trace_mul_cycle, Matrix.mul_assoc]

theorem gradU_add_smul (dXdx a b : Mat3 α) (c : α) :
    gradU dXdx (duOf (a + c • b)) = gradU dXdx (duOf a) + c • gradU dXdx (duOf b) := by
  simp only [gradU_eq, duOf_eq, transpose_add, transpose_smul, add_mul, smul_mul]

theorem pullBack_add_smul (dXdx P P' : Mat3 α) (wdetJ c : α) :
    pullBack dXdx wdetJ (P + c • P') = pullBack dXdx wdetJ P + c • pullBack dXdx wdetJ P' := by
  simp only [pullBack_eq, transpose_add, transpose_smul, mul_add, Matrix.mul_smul, smul_add]
  rw [smul_comm]

theorem unpackSym_deltaEwork (graddeltau F : Mat3 α) :
    unpackSym (deltaEwork graddeltau F) = (2 : α)⁻¹ • (graddeltauᵀ * F + Fᵀ * graddeltau) := by
  have hs : ((2 : α)⁻¹ • (graddeltauᵀ * F + Fᵀ * graddeltau))ᵀ =
      (2 : α)⁻¹ • (graddeltauᵀ * F + Fᵀ * graddeltau) := by
    simp [transpose_mul, add_comm]
  rw [← unpackSym_pack hs]
  refine congrArg unpackSym (funext fun m => ?_)
  simp [deltaEwork, mul_apply, Finset.sum_add_distrib, Finset.sum_div, add_div, div_eq_inv_mul,
    Finset.mul_sum, mul_add]

theorem deltaSOf_eq (lambda mu logJ : α) (C_inv deltaE : Mat3 α) :
    deltaSOf lambda mu logJ C_inv deltaE = (lambda * contract C_inv deltaE) • C_inv -
      (2 * (lambda * logJ - mu)) • (C_inv * (deltaE * C_inv)) := by
  ext j k; simp [deltaSOf]

theorem deltaPiola_eq (log1p : α → α) (ctx : Physics α) (grad_u graddeltau : Mat3 α) :
    deltaPiola log1p ctx grad_u graddeltau =
      graddeltau * unpackSym (commonFS log1p ctx.lambda ctx.mu grad_u).Swork +
        defGrad grad_u * deltaSOf ctx.lambda ctx.mu (commonFS log1p ctx.lambda ctx.mu grad_u).logJ
          (unpackSym (commonFS log1p ctx.lambda ctx.mu grad_u).Cinvwork)
          (unpackSym (deltaEwork graddeltau (defGrad grad_u))) := by
  ext j k; simp [deltaPiola, mul_apply, Finset.sum_add_distrib]

section Linear

variable (log1p : α → α) (ctx : Physics α)

theorem deltaPiola_add_smul (grad_u d d' : Mat3 α) (c : α) :
    deltaPiola log1p ctx grad_u (d + c • d') =
      deltaPiola log1p ctx grad_u d + c • deltaPiola log1p ctx grad_u d' := by
  simp only [deltaPiola_eq, unpackSym_deltaEwork, deltaSOf_eq, contract_eq_trace, transpose_add,
    transpose_smul, add_mul, mul_add, smul_mul, Matrix.mul_smul, trace_add, trace_smul, smul_add,
    smul_eq_mul, smul_sub, sub_mul, mul_sub]
  module

theorem elasFSJacobianNHAt_add_smul (q : Fin 10 → α) (grad_u a b : Mat3 α) (c : α) :
    elasFSJacobianNHAt log1p ctx (a + c • b) q grad_u =
      elasFSJacobianNHAt log1p ctx a q grad_u + c • elasFSJacobianNHAt log1p ctx b q grad_u := by
  simp only [elasFSJacobianNHAt, gradU_add_smul, deltaPiola_add_smul, pullBack_add_smul]

end Linear

section Symmetric

variable [CharZero α]

omit [CharZero α] in
theorem trace_transpose_mul_symm {S : Mat3 α} (hS : Sᵀ = S) (a b : Mat3 α) :
    trace ((a * S)ᵀ * b) = trace ((b * S)ᵀ * a) := by
  simp only [transpose_mul, hS, Matrix.mul_assoc]
  rw [← trace_transpose (S * (bᵀ * a)), transpose_mul, transpose_mul, transpose_transpose, hS,
    trace_mul_comm]

theorem trace_mul_symmPart {Y : Mat3 α} (hY : Yᵀ = Y) (M : Mat3 α) :
    trace (Y * M) = trace (Y * ((2 : α)⁻¹ • (Mᵀ + M))) := by
  have h : trace (Y * Mᵀ) = trace (Y * M) := by
    rw [← trace_transpose, transpose_mul, transpose_transpose, hY, trace_mul_comm]
  rw [mul_smul_comm, trace_smul, mul_add, trace_add, h, smul_eq_mul, ← two_mul, ← mul_assoc,
    inv_mul_cancel₀ two_ne_zero, one_mul]

omit [CharZero α] in
theorem deltaSOf_transpose (lambda mu logJ : α) {C_inv A : Mat3 α} (hC : C_invᵀ = C_inv)
    (hA : Aᵀ = A) : (deltaSOf lambda mu logJ C_inv A)ᵀ = deltaSOf lambda mu logJ C_inv A := by
  simp only [deltaSOf_eq, transpose_sub, transpose_smul, transpose_mul, hC, hA, Matrix.mul_assoc]

omit [CharZero α] in
theorem trace_deltaSOf_mul_comm (lambda mu logJ : α) {C_inv : Mat3 α} (hC : C_invᵀ = C_inv)
    (A B : Mat3 α) :
    trace (deltaSOf lambda mu logJ C_inv A * B) = trace (deltaSOf lambda mu logJ C_inv B * A) := by
  have h : trace (C_inv * (A * C_inv) * B) = trace (C_inv * (B * C_inv) * A) := by
    simp only [← Matrix.mul_assoc]
    rw [Matrix.mul_assoc (C_inv * A), Matrix.mul_assoc (C_inv * B), trace_mul_comm]
  simp only [deltaSOf_eq, contract_eq_trace, hC, sub_mul, smul_mul, trace_sub, trace_smul,
    smul_eq_mul, h]
  ring

theorem contract_deltaPiola (log1p : α → α) (ctx : Physics α) (grad_u a b : Mat3 α) :
    contract (deltaPiola log1p ctx grad_u a) b =
      trace ((a * unpackSym (commonFS log1p ctx.lambda ctx.mu grad_u).Swork)ᵀ * b) +
        trace (deltaSOf ctx.lambda ctx.mu (commonFS log1p ctx.lambda ctx.mu grad_u).logJ
            (unpackSym (commonFS log1p ctx.lambda ctx.mu grad_u).Cinvwork)
            (unpackSym (deltaEwork a (defGrad grad_u))) *
          unpackSym (deltaEwork b (defGrad grad_u))) := by
  set c := commonFS log1p ctx.lambda ctx.mu grad_u
  set F := defGrad grad_u
  have hS := deltaSOf_transpose ctx.lambda ctx.mu c.logJ (unpackSym_transpose c.Cinvwork)
    (unpackSym_transpose (deltaEwork a F))
  rw [contract_eq_trace, deltaPiola_eq, transpose_add, add_mul, trace_add, transpose_mul F, hS,
    Matrix.mul_assoc, trace_mul_symmPart hS, transpose_mul Fᵀ b, transpose_transpose,
    unpackSym_deltaEwork b]

/-- The pointwise symmetry of the tangent, `b : Jac a = a : Jac b`. -/
theorem contract_elasFSJacobianNHAt_comm (log1p : α → α) (ctx : Physics α) (q : Fin 10 → α)
    (grad_u a b : Mat3 α) :
    contract b (elasFSJacobianNHAt log1p ctx a q grad_u) =
      contract a (elasFSJacobianNHAt log1p ctx b q grad_u) := by
  simp only [elasFSJacobianNHAt, contract_pullBack, contract_deltaPiola]
  rw [trace_transpose_mul_symm (unpackSym_transpose _),
    trace_deltaSOf_mul_comm _ _ _ (unpackSym_transpose _)]

end Symmetric

/-- `ElasFSJacobian_NH` is linear in `deltaug` and self-adjoint, `b : Jac a = a : Jac b`,
whatever the log1p helper returns. -/
theorem jacobian_self_adjoint (log1p : ℝ → ℝ) (ctx : Physics ℝ) (q : Fin 10 → ℝ)
    (grad_u a b : Mat3 ℝ) :
    (∀ c : ℝ, elasFSJacobianNHAt log1p ctx (a + c • b) q grad_u =
        elasFSJacobianNHAt log1p ctx a q grad_u + c • elasFSJacobianNHAt log1p ctx b q grad_u) ∧
      contract b (elasFSJacobianNHAt log1p ctx a q grad_u) =
        contract a (elasFSJacobianNHAt log1p ctx b q grad_u) :=
  ⟨elasFSJacobianNHAt_add_smul log1p ctx q grad_u a b,
    contract_elasFSJacobianNHAt_comm log1p ctx q grad_u a b⟩

end Ceed

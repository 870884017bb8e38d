import CeedQFunction.Proofs.Tangent
import CeedQFunction.Proofs.Energy

/-! What the kernels write at the undeformed state and at rigid placements.
`log1p_series_shifted` is exactly `0` at `0`, so at `ug = 0` the stored `grad_u` is `0`,
`C_inv = I` and `S = 0`, and `ElasFSJacobian_NH` there is the small-strain law
`λ tr(ε) I + 2μ ε` of `ε = (Δ + Δᵀ)/2`. The diagnostic's strain invariants and pressure are
read off `E2` and `logJ`. -/

namespace Ceed

open Matrix

section Rest

variable {α : Type*} [Field α] (log1p : α → α) (lambda mu : α)

theorem gradU_duOf_zero (dXdx : Mat3 α) : gradU dXdx (duOf 0) = 0 := by
  rw [gradU_eq, duOf_eq, transpose_zero, Matrix.zero_mul]

theorem computeJM1_zero : computeJM1 (0 : Mat3 α) = 0 := by
  rw [computeJM1_eq, add_zero, det_one, sub_self]

theorem E2_zero : E2 (0 : Mat3 α) = 0 := by
  rw [E2_eq_sub, add_zero, transpose_one, Matrix.one_mul, sub_self]

theorem Cinv_of_rigid {G : Mat3 α} (hR : (1 + G)ᵀ * (1 + G) = 1) (hdet : (1 + G).det = 1) :
    unpackSym (commonFS log1p lambda mu G).Cinvwork = 1 := by
  have h := cauchyGreen_mul_Cinv log1p lambda mu (G := G) (by rw [hdet]; exact one_ne_zero)
  rwa [cauchyGreen_E2, hR, Matrix.one_mul] at h

theorem rigid_zero : (1 + (0 : Mat3 α))ᵀ * (1 + 0) = 1 ∧ (1 + (0 : Mat3 α)).det = 1 := by simp

theorem Cinv_zero : unpackSym (commonFS log1p lambda mu 0).Cinvwork = 1 :=
  Cinv_of_rigid log1p lambda mu rigid_zero.1 rigid_zero.2

theorem contract_mul_left (F X B : Mat3 α) : contract (F * X) B = contract X (Fᵀ * B) := by
  rw [contract_eq_trace, contract_eq_trace, transpose_mul, Matrix.mul_assoc]

variable {log1p} (h0 : log1p 0 = 0) {G : Mat3 α} (hR : (1 + G)ᵀ * (1 + G) = 1)
  (hdet : (1 + G).det = 1)
include h0 hR hdet

theorem Swork_of_rigid : unpackSym (commonFS log1p lambda mu G).Swork = 0 := by
  rw [Swork_eq log1p lambda mu (by rw [hdet]; exact one_ne_zero), Cinv_of_rigid log1p lambda mu hR hdet,
    commonFS_logJ, (E2_computeJM1_eq_zero_of_rigid hR hdet).2, h0]
  module

/-- At a rotation `deltaS` is the small-strain law of `deltaE = (Fᵀ Δ + Δᵀ F) / 2`, so
`deltaP = F (λ tr(deltaE) I + 2μ deltaE)`. -/
theorem deltaPiola_of_rigid (ctx : Physics α) (Δ : Mat3 α) :
    deltaPiola log1p ctx G Δ = (1 + G) * ((ctx.lambda * ((2 : α)⁻¹ • ((1 + G)ᵀ * Δ + Δᵀ * (1 + G))).trace) • 1 +
      (2 * ctx.mu) • ((2 : α)⁻¹ • ((1 + G)ᵀ * Δ + Δᵀ * (1 + G)))) := by
  rw [deltaPiola_eq, Swork_of_rigid _ _ h0 hR hdet, Cinv_of_rigid _ _ _ hR hdet, commonFS_logJ,
    (E2_computeJM1_eq_zero_of_rigid hR hdet).2, h0, deltaSOf_eq, unpackSym_deltaEwork, defGrad_eq,
    contract_eq_trace, add_comm (Δᵀ * _)]
  simp only [Matrix.mul_zero, zero_add, transpose_one, Matrix.one_mul, Matrix.mul_one]
  congr 1
  module

omit hR hdet in
theorem Swork_zero : unpackSym (commonFS log1p lambda mu 0).Swork = 0 :=
  Swork_of_rigid lambda mu h0 rigid_zero.1 rigid_zero.2

end Rest

section Invariants

theorem contract_self_nonneg (A : Mat3 ℝ) : 0 ≤ contract A A :=
  Finset.sum_nonneg fun _ _ => Finset.sum_nonneg fun _ _ => mul_self_nonneg _

variable (log1p : ℝ → ℝ) (ctx : Physics ℝ) (u : Fin 3 → ℝ) (ug : Mat3 ℝ) (q : Fin 10 → ℝ)

end Invariants

section Series

open Real

variable (ctx : Physics ℝ) (q : Fin 10 → ℝ)

theorem deltaPiola_at_rest (g : Mat3 ℝ) :
    deltaPiola (log1pSeriesShifted sqrt log) ctx 0 g =
      (ctx.lambda * ((2 : ℝ)⁻¹ • (g + gᵀ)).trace) • 1 + (2 * ctx.mu) • ((2 : ℝ)⁻¹ • (g + gᵀ)) := by
  rw [deltaPiola_eq, Swork_zero _ _ log1pSeriesShifted_zero, Cinv_zero, commonFS_logJ,
    computeJM1_zero, log1pSeriesShifted_zero, deltaSOf_eq, unpackSym_deltaEwork, defGrad_eq,
    add_zero, contract_eq_trace]
  simp only [transpose_one, Matrix.one_mul, Matrix.mul_one, Matrix.mul_zero, zero_add, mul_zero]
  rw [add_comm gᵀ]
  module

/-- At `grad_u = 0` the tangent is the small-strain law `λ tr(ε) I + 2μ ε` of
`ε = (Δ + Δᵀ)/2`, pulled back like the residual. -/
theorem jacobian_at_rest (δ : Mat3 ℝ) :
    elasFSJacobianNHAt (log1pSeriesShifted sqrt log) ctx δ q 0 =
      pullBack (qDXdx q) (q 0)
        ((ctx.lambda * ((2 : ℝ)⁻¹ • (gradU (qDXdx q) (duOf δ) + (gradU (qDXdx q) (duOf δ))ᵀ)).trace) • 1 +
          (2 * ctx.mu) • ((2 : ℝ)⁻¹ • (gradU (qDXdx q) (duOf δ) + (gradU (qDXdx q) (duOf δ))ᵀ))) := by
  rw [elasFSJacobianNHAt, deltaPiola_at_rest]

theorem contract_smallStrain_eq (g : Mat3 ℝ) :
    contract ((ctx.lambda * ((2 : ℝ)⁻¹ • (g + gᵀ)).trace) • 1 + (2 * ctx.mu) • ((2 : ℝ)⁻¹ • (g + gᵀ))) g =
      ctx.lambda * ((2 : ℝ)⁻¹ • (g + gᵀ)).trace ^ 2 +
        2 * ctx.mu * contract ((2 : ℝ)⁻¹ • (g + gᵀ)) ((2 : ℝ)⁻¹ • (g + gᵀ)) := by
  have hε : ((2 : ℝ)⁻¹ • (g + gᵀ))ᵀ = (2 : ℝ)⁻¹ • (g + gᵀ) := by
    rw [transpose_smul, transpose_add, transpose_transpose, add_comm]
  have hg := trace_mul_symmPart hε g
  rw [add_comm gᵀ] at hg
  have htr : ((2 : ℝ)⁻¹ • (g + gᵀ)).trace = g.trace := by
    rw [trace_smul, trace_add, trace_transpose, smul_eq_mul]; ring
  generalize (2 : ℝ)⁻¹ • (g + gᵀ) = ε at hε hg htr ⊢
  rw [contract_eq_trace, contract_eq_trace, transpose_add, transpose_smul, transpose_smul, hε,
    transpose_one, Matrix.add_mul, trace_add, smul_mul_assoc, smul_mul_assoc, trace_smul,
    trace_smul, Matrix.one_mul, hg, htr, smul_eq_mul, smul_eq_mul]
  ring

/-- At a rotation `I + grad_u` the diagnostic writes the displacement, zero pressure, zero
strain invariants, `J = 1` and zero strain energy. -/
theorem diagnostic_rigid (u : Fin 3 → ℝ) (ug : Mat3 ℝ)
    (hR : (1 + gradU (qDXdx q) (duOf ug))ᵀ * (1 + gradU (qDXdx q) (duOf ug)) = 1)
    (hdet : (1 + gradU (qDXdx q) (duOf ug)).det = 1) :
    elasFSDiagnosticNHAt (log1pSeriesShifted sqrt log) ctx u ug q = ![u 0, u 1, u 2, 0, 0, 0, 1, 0] := by
  obtain ⟨hE2, hx⟩ := E2_computeJM1_eq_zero_of_rigid hR hdet
  simp [elasFSDiagnosticNHAt, strainEnergy, hE2, hx, log1pSeriesShifted_zero]

theorem diagnostic_rigid_at_rest :
    (1 + gradU (qDXdx 1) (duOf (0 : Mat3 ℝ)))ᵀ * (1 + gradU (qDXdx 1) (duOf 0)) = 1 ∧
      (1 + gradU (qDXdx 1) (duOf (0 : Mat3 ℝ))).det = 1 ∧
      elasFSDiagnosticNHAt (log1pSeriesShifted sqrt log) ⟨0, 1⟩ 0 0 1 = ![0, 0, 0, 0, 0, 0, 1, 0] :=
  have h : 1 + gradU (qDXdx 1) (duOf (0 : Mat3 ℝ)) = 1 := by rw [gradU_duOf_zero, add_zero]
  have hR : (1 + gradU (qDXdx 1) (duOf (0 : Mat3 ℝ)))ᵀ * (1 + gradU (qDXdx 1) (duOf 0)) = 1 := by
    rw [h, transpose_one, Matrix.one_mul]
  have hdet : (1 + gradU (qDXdx 1) (duOf (0 : Mat3 ℝ))).det = 1 := by rw [h, det_one]
  ⟨hR, hdet, diagnostic_rigid ⟨0, 1⟩ 1 0 0 hR hdet⟩

/-- At a rotation `F = I + grad_u`: `dvdX = 0`, and the tangent is the small-strain law of
`ε = (Fᵀ Δ + Δᵀ F) / 2`, `δ : Jac δ = wdetJ (λ tr(ε)² + 2μ ε : ε)`. -/
theorem residual_jacobian_rigid (ug : Mat3 ℝ)
    (hR : (1 + gradU (qDXdx q) (duOf ug))ᵀ * (1 + gradU (qDXdx q) (duOf ug)) = 1)
    (hdet : (1 + gradU (qDXdx q) (duOf ug)).det = 1) :
    (elasFSResidualNHAt (log1pSeriesShifted sqrt log) ctx ug q).1 = 0 ∧
      ∀ δ : Mat3 ℝ, contract δ (elasFSJacobianNHAt (log1pSeriesShifted sqrt log) ctx δ q
          (elasFSResidualNHAt (log1pSeriesShifted sqrt log) ctx ug q).2) =
        q 0 * (ctx.lambda * ((2 : ℝ)⁻¹ • ((1 + gradU (qDXdx q) (duOf ug))ᵀ * gradU (qDXdx q) (duOf δ) +
            (gradU (qDXdx q) (duOf δ))ᵀ * (1 + gradU (qDXdx q) (duOf ug)))).trace ^ 2 +
          2 * ctx.mu * contract
            ((2 : ℝ)⁻¹ • ((1 + gradU (qDXdx q) (duOf ug))ᵀ * gradU (qDXdx q) (duOf δ) +
              (gradU (qDXdx q) (duOf δ))ᵀ * (1 + gradU (qDXdx q) (duOf ug))))
            ((2 : ℝ)⁻¹ • ((1 + gradU (qDXdx q) (duOf ug))ᵀ * gradU (qDXdx q) (duOf δ) +
              (gradU (qDXdx q) (duOf δ))ᵀ * (1 + gradU (qDXdx q) (duOf ug))))) := by
  refine ⟨?_, fun δ => ?_⟩
  · simp only [elasFSResidualNHAt, firstPiola, Swork_of_rigid _ _ log1pSeriesShifted_zero hR hdet,
      Matrix.mul_zero, pullBack_eq, transpose_zero, smul_zero]
  show contract δ (elasFSJacobianNHAt _ ctx δ q (gradU (qDXdx q) (duOf ug))) = _
  have h := contract_smallStrain_eq ctx ((1 + gradU (qDXdx q) (duOf ug))ᵀ * gradU (qDXdx q) (duOf δ))
  rw [transpose_mul, transpose_transpose] at h
  rw [elasFSJacobianNHAt, contract_pullBack, deltaPiola_of_rigid log1pSeriesShifted_zero hR hdet,
    contract_mul_left, h]

/-- A quarter turn about the third axis, `λ = μ = 2/5`, `dXdx = I`. -/
theorem residual_jacobian_rigid_quarter_turn :
    (1 + gradU (qDXdx ![1, 1, 0, 0, 0, 1, 0, 0, 0, 1]) (duOf !![(-1 : ℝ), 1, 0; -1, -1, 0; 0, 0, 0]))ᵀ *
        (1 + gradU (qDXdx ![1, 1, 0, 0, 0, 1, 0, 0, 0, 1]) (duOf !![(-1 : ℝ), 1, 0; -1, -1, 0; 0, 0, 0])) = 1 ∧
      (1 + gradU (qDXdx ![1, 1, 0, 0, 0, 1, 0, 0, 0, 1]) (duOf !![(-1 : ℝ), 1, 0; -1, -1, 0; 0, 0, 0])).det = 1 ∧
      (elasFSResidualNHAt (log1pSeriesShifted sqrt log) ⟨1 / 4, 1⟩ !![-1, 1, 0; -1, -1, 0; 0, 0, 0]
        ![1, 1, 0, 0, 0, 1, 0, 0, 0, 1]).1 = 0 :=
  ⟨quarter_turn_rigid.1, quarter_turn_rigid.2,
    (residual_jacobian_rigid ⟨1 / 4, 1⟩ _ _ quarter_turn_rigid.1 quarter_turn_rigid.2).1⟩

/-- For `λ > 0` the pressure `-λ logJ` in slot 3 is positive exactly under compression,
`J < 1`, and negative exactly under expansion. -/
theorem diagnostic_pressure_sign (u : Fin 3 → ℝ) (ug : Mat3 ℝ) (hl : 0 < ctx.lambda)
    (hJ : 0 < (1 + gradU (qDXdx q) (duOf ug)).det) :
    (0 < elasFSDiagnosticNHAt (log1pSeriesShifted sqrt log) ctx u ug q 3 ↔
        (1 + gradU (qDXdx q) (duOf ug)).det < 1) ∧
      (elasFSDiagnosticNHAt (log1pSeriesShifted sqrt log) ctx u ug q 3 < 0 ↔
        1 < (1 + gradU (qDXdx q) (duOf ug)).det) := by
  have h3 : elasFSDiagnosticNHAt (log1pSeriesShifted sqrt log) ctx u ug q 3 =
      -ctx.lambda * log1pSeriesShifted sqrt log (computeJM1 (gradU (qDXdx q) (duOf ug))) := rfl
  have hx : -1 < computeJM1 (gradU (qDXdx q) (duOf ug)) := by rw [computeJM1_eq]; linarith only [hJ]
  obtain ⟨hp, hn⟩ := log1pSeriesShifted_sign hx
  rw [computeJM1_eq, sub_pos] at hp
  rw [computeJM1_eq, sub_neg] at hn
  rw [h3, computeJM1_eq, ← hp, ← hn, neg_mul, neg_pos, neg_lt_zero, mul_pos_iff_of_pos_left hl]
  exact ⟨⟨fun h => neg_of_mul_neg_right h hl.le, mul_neg_of_pos_of_neg hl⟩, Iff.rfl⟩

/-- The stretch `diag(1/10, 0, 0)`, an expansion, with `λ = 2/5` and `dXdx = I`. -/
theorem diagnostic_pressure_sign_stretch :
    0 < (⟨1 / 4, 1⟩ : Physics ℝ).lambda ∧
      0 < (1 + gradU (qDXdx ![1, 1, 0, 0, 0, 1, 0, 0, 0, 1]) (duOf !![(1 : ℝ) / 10, 0, 0; 0, 0, 0; 0, 0, 0])).det ∧
      (elasFSDiagnosticNHAt (log1pSeriesShifted sqrt log) ⟨1 / 4, 1⟩ 0 !![1 / 10, 0, 0; 0, 0, 0; 0, 0, 0]
          ![1, 1, 0, 0, 0, 1, 0, 0, 0, 1] 3 < 0 ↔
        1 < (1 + gradU (qDXdx ![1, 1, 0, 0, 0, 1, 0, 0, 0, 1]) (duOf !![(1 : ℝ) / 10, 0, 0; 0, 0, 0; 0, 0, 0])).det) :=
  have hl : 0 < (⟨1 / 4, 1⟩ : Physics ℝ).lambda := by
    norm_num [Physics.lambda, Physics.Kbulk, Physics.TwoMu]
  ⟨hl, det_stretch_pos, (diagnostic_pressure_sign ⟨1 / 4, 1⟩ _ 0 _ hl det_stretch_pos).2⟩

/-- At `grad_u = 0` the tangent is positive semidefinite for `wdetJ ≥ 0`, `E ≥ 0` and
`0 ≤ ν < 1/2`. -/
theorem jacobian_at_rest_nonneg (δ : Mat3 ℝ) (hw : 0 ≤ q 0) (hE : 0 ≤ ctx.E) (hnu : 0 ≤ ctx.nu)
    (hnu' : ctx.nu < 1 / 2) :
    0 ≤ contract δ (elasFSJacobianNHAt (log1pSeriesShifted sqrt log) ctx δ q 0) := by
  rw [elasFSJacobianNHAt, deltaPiola_at_rest, contract_pullBack, contract_smallStrain_eq]
  exact mul_nonneg hw (add_nonneg (mul_nonneg (ctx.lambda_nonneg hE hnu hnu') (sq_nonneg _))
    (mul_nonneg (mul_nonneg two_pos.le (ctx.mu_nonneg hE (by linarith))) (contract_self_nonneg _)))

theorem jacobian_at_rest_nonneg_unit :
    0 ≤ contract (1 : Mat3 ℝ) (elasFSJacobianNHAt (log1pSeriesShifted sqrt log) ⟨0, 1⟩ 1 1 0) :=
  jacobian_at_rest_nonneg ⟨0, 1⟩ 1 1 (by norm_num) (by norm_num) le_rfl (by norm_num)

end Series

end Ceed

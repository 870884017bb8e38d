import CeedQFunction.Proofs.Strain
import CeedQFunction.Proofs.Log1p

/-! The energy `ElasFSEnergy_NH` writes, with `log1p_series_shifted` as written, is never
negative for `wdetJ ≥ 0`, `E ≥ 0`, `0 ≤ ν < 1/2` and `J > 0`, and vanishes on rotations.
Hadamard's inequality and the AM-GM inequality give `J² ≤ (tr C / 3)³`; the series gives
`(1 + (2/3) logJ)³ ≤ J²`; so `logJ ≤ tr(E2) / 2` and both terms of the energy are `≥ 0`.
For `λ, μ > 0` it vanishes only on rotations: a zero energy forces `J = 1` and `tr C = 3`,
and a `C = Fᵀ F` with these is the identity. -/

namespace Ceed

open Matrix Real

namespace Physics

variable (p : Physics ℝ)

theorem lambda_eq (h1 : 1 + p.nu ≠ 0) (h2 : 1 - 2 * p.nu ≠ 0) :
    p.lambda = p.E * p.nu / ((1 + p.nu) * (1 - 2 * p.nu)) := by
  simp only [lambda, Kbulk, TwoMu]
  field_simp
  ring

theorem mu_nonneg (hE : 0 ≤ p.E) (hnu : -1 < p.nu) : 0 ≤ p.mu :=
  div_nonneg (div_nonneg hE (by linarith)) two_pos.le

theorem lambda_nonneg (hE : 0 ≤ p.E) (hnu : 0 ≤ p.nu) (hnu' : p.nu < 1 / 2) : 0 ≤ p.lambda := by
  rw [p.lambda_eq (by linarith) (by linarith)]
  exact div_nonneg (mul_nonneg hE hnu) (mul_pos (by linarith) (by linarith)).le

end Physics

section Hadamard

theorem dot_self_nonneg (v : Fin 3 → ℝ) : 0 ≤ v ⬝ᵥ v :=
  Finset.sum_nonneg fun i _ => mul_self_nonneg (v i)

theorem sq_dotProduct_le (u v : Fin 3 → ℝ) : (u ⬝ᵥ v) ^ 2 ≤ (u ⬝ᵥ u) * (v ⬝ᵥ v) := by
  have h := cross_dot_cross u v u v
  rw [dotProduct_comm v u] at h
  nlinarith [dot_self_nonneg (u ×₃ v)]

theorem det_sq_le_prod_cols (F : Mat3 ℝ) :
    F.det ^ 2 ≤ (Fᵀ 0 ⬝ᵥ Fᵀ 0) * (Fᵀ 1 ⬝ᵥ Fᵀ 1) * (Fᵀ 2 ⬝ᵥ Fᵀ 2) := by
  have hdet : F.det = Fᵀ 0 ⬝ᵥ (Fᵀ 1 ×₃ Fᵀ 2) := by
    rw [triple_product_eq_det, ← det_transpose]; congr 1; ext i j; fin_cases i <;> rfl
  have hvw := cross_dot_cross (Fᵀ 1) (Fᵀ 2) (Fᵀ 1) (Fᵀ 2)
  rw [dotProduct_comm (Fᵀ 2) (Fᵀ 1)] at hvw
  rw [hdet, mul_assoc]
  exact (sq_dotProduct_le _ _).trans (mul_le_mul_of_nonneg_left
    (by nlinarith [sq_nonneg (Fᵀ 1 ⬝ᵥ Fᵀ 2)]) (dot_self_nonneg _))

theorem mul_le_cube_mean {a b c : ℝ} (ha : 0 ≤ a) (hb : 0 ≤ b) (hc : 0 ≤ c) :
    a * b * c ≤ ((a + b + c) / 3) ^ 3 := by
  nlinarith [mul_nonneg ha (sq_nonneg (b - c)), mul_nonneg hb (sq_nonneg (a - c)),
    mul_nonneg hc (sq_nonneg (a - b)), mul_nonneg (add_nonneg (add_nonneg ha hb) hc)
      (add_nonneg (add_nonneg (sq_nonneg (a - b)) (sq_nonneg (b - c))) (sq_nonneg (a - c)))]

theorem trace_transpose_mul_self (F : Mat3 ℝ) :
    (Fᵀ * F).trace = Fᵀ 0 ⬝ᵥ Fᵀ 0 + Fᵀ 1 ⬝ᵥ Fᵀ 1 + Fᵀ 2 ⬝ᵥ Fᵀ 2 := by
  simp [Matrix.trace_fin_three, mul_apply, dotProduct]

/-- `J² = det C ≤ (tr C / 3)³` for `C = Fᵀ F`. -/
theorem det_sq_le_trace_cube (F : Mat3 ℝ) : F.det ^ 2 ≤ ((Fᵀ * F).trace / 3) ^ 3 := by
  rw [trace_transpose_mul_self]
  exact (det_sq_le_prod_cols F).trans
    (mul_le_cube_mean (dot_self_nonneg _) (dot_self_nonneg _) (dot_self_nonneg _))

end Hadamard

/-- `log1p_series_shifted(J - 1) ≤ tr(E2) / 2` for every `grad_u` with `J > 0`. -/
theorem log1pSeriesShifted_le_trace_E2 (G : Mat3 ℝ) (hJ : 0 < (1 + G).det) :
    log1pSeriesShifted sqrt log (computeJM1 G) ≤ (E2 G).trace / 2 := by
  have hJ' : 1 + computeJM1 G = (1 + G).det := by rw [computeJM1_eq]; ring
  have h1 := cube_log1pSeriesShifted_le (show -1 < computeJM1 G by linarith)
  rw [hJ'] at h1
  have h2 := le_of_pow_three_le (h1.trans (det_sq_le_trace_cube (1 + G)))
  have h3 : (E2 G).trace = ((1 + G)ᵀ * (1 + G)).trace - 3 := by
    rw [E2_eq_sub, trace_sub, trace_one, Fintype.card_fin, Nat.cast_ofNat]
  linarith

theorem strainEnergy_nonneg {lambda mu : ℝ} (hl : 0 ≤ lambda) (hm : 0 ≤ mu) (G : Mat3 ℝ)
    (hJ : 0 < (1 + G).det) :
    0 ≤ strainEnergy lambda mu (log1pSeriesShifted sqrt log (computeJM1 G)) (E2 G) := by
  have hL := log1pSeriesShifted_le_trace_E2 G hJ
  rw [strainEnergy_eq]
  nlinarith [mul_nonneg hl (sq_nonneg (log1pSeriesShifted sqrt log (computeJM1 G))),
    mul_nonneg hm (sub_nonneg.2 hL)]

/-- The energy is `≥ 0` for `wdetJ ≥ 0`, `E ≥ 0`, `0 ≤ ν < 1/2` and `J > 0`, and `0` wherever
`I + grad_u` is a rotation. -/
theorem energy_nonneg (ctx : Physics ℝ) (q : Fin 10 → ℝ) (ug : Mat3 ℝ) :
    (0 ≤ q 0 → 0 ≤ ctx.E → 0 ≤ ctx.nu → ctx.nu < 1 / 2 →
      0 < (1 + gradU (qDXdx q) (duOf ug)).det →
        0 ≤ elasFSEnergyNHAt (log1pSeriesShifted sqrt log) ctx ug q) ∧
      ((1 + gradU (qDXdx q) (duOf ug))ᵀ * (1 + gradU (qDXdx q) (duOf ug)) = 1 →
        (1 + gradU (qDXdx q) (duOf ug)).det = 1 →
          elasFSEnergyNHAt (log1pSeriesShifted sqrt log) ctx ug q = 0) := by
  refine ⟨fun hw hE hnu hnu' hJ => ?_, fun hR hdet => ?_⟩
  · exact mul_nonneg (strainEnergy_nonneg (ctx.lambda_nonneg hE hnu hnu')
      (ctx.mu_nonneg hE (by linarith)) _ hJ) hw
  · obtain ⟨hE2, hx⟩ := E2_computeJM1_eq_zero_of_rigid hR hdet
    simp [elasFSEnergyNHAt, strainEnergy, hE2, hx, log1pSeriesShifted_zero]

/-- `λ = μ = 2/5`, `dXdx = I`: the bound at a stretch, and no energy at a quarter turn. -/
theorem energy_nonneg_stretch_quarter_turn :
    0 ≤ elasFSEnergyNHAt (log1pSeriesShifted sqrt log) ⟨1 / 4, 1⟩ !![1 / 10, 0, 0; 0, 0, 0; 0, 0, 0]
        ![1, 1, 0, 0, 0, 1, 0, 0, 0, 1] ∧
      elasFSEnergyNHAt (log1pSeriesShifted sqrt log) ⟨1 / 4, 1⟩ !![-1, 1, 0; -1, -1, 0; 0, 0, 0]
        ![1, 1, 0, 0, 0, 1, 0, 0, 0, 1] = 0 :=
  ⟨(energy_nonneg ⟨1 / 4, 1⟩ _ _).1 (by norm_num) (by norm_num) (by norm_num) (by norm_num)
      det_stretch_pos,
    (energy_nonneg ⟨1 / 4, 1⟩ _ _).2 quarter_turn_rigid.1 quarter_turn_rigid.2⟩

theorem sym3_eq_one {a b c d e f : ℝ} (h01 : d ^ 2 ≤ a * b) (h02 : e ^ 2 ≤ a * c)
    (h12 : f ^ 2 ≤ b * c) (htr : a + b + c = 3)
    (hdet : a * b * c - a * f * f - d * d * c + d * f * e + e * d * f - e * b * e = 1) :
    a = 1 ∧ b = 1 ∧ c = 1 ∧ d = 0 ∧ e = 0 ∧ f = 0 := by
  have hnn : 0 ≤ a * b + b * c + a * c - d ^ 2 - e ^ 2 - f ^ 2 := by linarith only [h01, h02, h12]
  have h9 : 3 ^ 2 ≤ (a * b + b * c + a * c - d ^ 2 - e ^ 2 - f ^ 2) ^ 2 := by
    rw [← sub_nonneg, show (a * b + b * c + a * c - d ^ 2 - e ^ 2 - f ^ 2) ^ 2 - 3 ^ 2 =
        ((b * c - f ^ 2 - (a * c - e ^ 2)) ^ 2 + (a * c - e ^ 2 - (a * b - d ^ 2)) ^ 2 +
          (a * b - d ^ 2 - (b * c - f ^ 2)) ^ 2) / 2 +
          3 * ((e * f - c * d) ^ 2 + (d * f - b * e) ^ 2 + (d * e - a * f) ^ 2) by
      linear_combination 3 * (a + b + c) * hdet + 3 * htr]
    positivity
  have he2 := le_of_sq_le_sq h9 hnn
  have hsq : (a - b) ^ 2 + (b - c) ^ 2 + (a - c) ^ 2 + 6 * (d ^ 2 + e ^ 2 + f ^ 2) ≤ 0 := by
    have h : (a - b) ^ 2 + (b - c) ^ 2 + (a - c) ^ 2 + 6 * (d ^ 2 + e ^ 2 + f ^ 2) =
        2 * (a + b + c) ^ 2 - 6 * (a * b + b * c + a * c - d ^ 2 - e ^ 2 - f ^ 2) := by ring
    rw [h, htr]
    linarith only [he2]
  obtain ⟨h1, h2, h3, h4, h5⟩ :
      (a - b) ^ 2 = 0 ∧ (b - c) ^ 2 = 0 ∧ d ^ 2 = 0 ∧ e ^ 2 = 0 ∧ f ^ 2 = 0 := by
    refine ⟨?_, ?_, ?_, ?_, ?_⟩ <;> linarith only [hsq, sq_nonneg (a - b), sq_nonneg (b - c),
      sq_nonneg (a - c), sq_nonneg d, sq_nonneg e, sq_nonneg f]
  simp only [pow_eq_zero_iff two_ne_zero, sub_eq_zero] at h1 h2 h3 h4 h5
  subst h1 h2
  obtain rfl : a = 1 := by linarith only [htr]
  exact ⟨rfl, rfl, rfl, h3, h4, h5⟩

/-- `C = Fᵀ F` with `tr C = 3` and `det F = ±1` is the identity: `F` is a rotation or a
reflection. -/
theorem cauchyGreen_eq_one {F : Mat3 ℝ} (htr : (Fᵀ * F).trace = 3) (hdet : F.det ^ 2 = 1) :
    Fᵀ * F = 1 := by
  have hC : ∀ i j, (Fᵀ * F) i j = Fᵀ i ⬝ᵥ Fᵀ j := fun _ _ => rfl
  have hd : (Fᵀ * F).det = 1 := by rw [det_mul, det_transpose, ← sq, hdet]
  rw [trace_fin_three] at htr
  rw [det_fin_three] at hd
  simp only [hC, dotProduct_comm (Fᵀ 1) (Fᵀ 0), dotProduct_comm (Fᵀ 2) (Fᵀ 0),
    dotProduct_comm (Fᵀ 2) (Fᵀ 1)] at htr hd
  obtain ⟨h0, h1, h2, h3, h4, h5⟩ := sym3_eq_one (sq_dotProduct_le _ _) (sq_dotProduct_le _ _)
    (sq_dotProduct_le _ _) htr hd
  ext i j
  fin_cases i <;> fin_cases j <;> simp [hC, dotProduct_comm (Fᵀ 1) (Fᵀ 0),
    dotProduct_comm (Fᵀ 2) (Fᵀ 0), dotProduct_comm (Fᵀ 2) (Fᵀ 1), h0, h1, h2, h3, h4, h5]

/-- For `wdetJ, λ, μ, J > 0` the energy is zero exactly where `I + grad_u` is a rotation. -/
theorem energy_eq_zero_iff_rigid (ctx : Physics ℝ) (q : Fin 10 → ℝ) (ug : Mat3 ℝ) (hw : 0 < q 0)
    (hl : 0 < ctx.lambda) (hm : 0 < ctx.mu) (hJ : 0 < (1 + gradU (qDXdx q) (duOf ug)).det) :
    elasFSEnergyNHAt (log1pSeriesShifted sqrt log) ctx ug q = 0 ↔
      (1 + gradU (qDXdx q) (duOf ug))ᵀ * (1 + gradU (qDXdx q) (duOf ug)) = 1 := by
  set G := gradU (qDXdx q) (duOf ug)
  have hJ' : (1 + G).det = 1 + computeJM1 G := by rw [computeJM1_eq]; ring
  constructor
  · intro h0
    have hL := log1pSeriesShifted_le_trace_E2 G hJ
    have hs := log1pSeriesShifted_sign (show -1 < computeJM1 G by linarith)
    set L := log1pSeriesShifted sqrt log (computeJM1 G)
    have hΦ : strainEnergy ctx.lambda ctx.mu L (E2 G) = 0 :=
      (mul_eq_zero.1 (show strainEnergy ctx.lambda ctx.mu L (E2 G) * q 0 = 0 from h0)).resolve_right
        hw.ne'
    rw [strainEnergy_eq] at hΦ
    have h1 : ctx.lambda * L ^ 2 = 0 := by
      linarith only [hΦ, mul_nonneg hl.le (sq_nonneg L), mul_nonneg hm.le (sub_nonneg.2 hL)]
    have hL0 : L = 0 := (pow_eq_zero_iff two_ne_zero).1 ((mul_eq_zero.1 h1).resolve_left hl.ne')
    have htr : (E2 G).trace = 0 := by
      rw [hL0] at hΦ
      exact (mul_eq_zero.1 (by linarith only [hΦ] : ctx.mu * (E2 G).trace = 0)).resolve_left hm.ne'
    have hx : computeJM1 G = 0 := by
      simp only [hL0, lt_self_iff_false, false_iff, not_lt] at hs
      exact le_antisymm hs.1 hs.2
    rw [E2_eq_sub, trace_sub, trace_one, Fintype.card_fin, Nat.cast_ofNat] at htr
    exact cauchyGreen_eq_one (sub_eq_zero.1 htr) (by rw [hJ', hx]; norm_num)
  · intro hR
    have hdet : (1 + G).det = 1 := by
      have h := congrArg Matrix.det hR
      rw [det_mul, det_transpose, det_one] at h
      exact (mul_self_eq_one_iff.1 h).resolve_right fun h' => by linarith only [h', hJ]
    obtain ⟨hE2, hx⟩ := E2_computeJM1_eq_zero_of_rigid hR hdet
    simp [elasFSEnergyNHAt, strainEnergy, hE2, hx, log1pSeriesShifted_zero]

/-- The stretch `diag(1/10, 0, 0)` with `λ = μ = 2/5` and `dXdx = I`. -/
theorem energy_eq_zero_iff_rigid_stretch :
    0 < (⟨1 / 4, 1⟩ : Physics ℝ).lambda ∧ 0 < (⟨1 / 4, 1⟩ : Physics ℝ).mu ∧
      0 < (1 + gradU (qDXdx ![1, 1, 0, 0, 0, 1, 0, 0, 0, 1]) (duOf !![(1 : ℝ) / 10, 0, 0; 0, 0, 0; 0, 0, 0])).det ∧
      (elasFSEnergyNHAt (log1pSeriesShifted sqrt log) ⟨1 / 4, 1⟩ !![1 / 10, 0, 0; 0, 0, 0; 0, 0, 0]
          ![1, 1, 0, 0, 0, 1, 0, 0, 0, 1] = 0 ↔
        (1 + gradU (qDXdx ![1, 1, 0, 0, 0, 1, 0, 0, 0, 1]) (duOf !![(1 : ℝ) / 10, 0, 0; 0, 0, 0; 0, 0, 0]))ᵀ *
          (1 + gradU (qDXdx ![1, 1, 0, 0, 0, 1, 0, 0, 0, 1]) (duOf !![(1 : ℝ) / 10, 0, 0; 0, 0, 0; 0, 0, 0])) = 1) :=
  have hl : 0 < (⟨1 / 4, 1⟩ : Physics ℝ).lambda := by
    norm_num [Physics.lambda, Physics.Kbulk, Physics.TwoMu]
  have hm : 0 < (⟨1 / 4, 1⟩ : Physics ℝ).mu := by norm_num [Physics.mu, Physics.TwoMu]
  ⟨hl, hm, det_stretch_pos,
    energy_eq_zero_iff_rigid ⟨1 / 4, 1⟩ _ _ (by norm_num) hl hm det_stretch_pos⟩

end Ceed

import CeedQFunction.Spec.NeoHookean

/-! What `commonFS` computes, in exact arithmetic: `computeJM1` is `det F - 1`, the
assembled `C` is `Fᵀ F`, the packed cofactors over `detC = J²` are `C⁻¹` when `J ≠ 0`, and
the packed `S` is `μ I + (λ logJ - μ) C⁻¹`. Where `J = 0` the model's division by
`detC = 0` leaves `C_inv = 0` and `S = 0`; the C code computes infinities and `NaN` there. -/

namespace Ceed

open Matrix

variable {α : Type*} [Field α]

theorem computeJM1_eq (G : Mat3 α) : computeJM1 G = (1 + G).det - 1 := by
  simp only [computeJM1, det_fin_three, add_apply, one_apply_eq, one_apply_ne, ne_eq,
    Fin.reduceEq, not_false_eq_true]
  ring

theorem defGrad_eq (G : Mat3 α) : defGrad G = 1 + G := by
  ext a b; fin_cases a <;> fin_cases b <;> simp [defGrad, add_comm]

theorem E2_eq (G : Mat3 α) : E2 G = G + Gᵀ + Gᵀ * G := by
  have hs : (G + Gᵀ + Gᵀ * G)ᵀ = G + Gᵀ + Gᵀ * G := by simp [transpose_mul, add_comm]
  rw [E2, ← unpackSym_pack hs]
  rfl

theorem E2_transpose (G : Mat3 α) : (E2 G)ᵀ = E2 G := unpackSym_transpose _

omit [Field α] in
theorem symm_entries {A : Mat3 α} (hA : Aᵀ = A) : A 1 0 = A 0 1 ∧ A 2 0 = A 0 2 ∧ A 2 1 = A 1 2 := by
  refine ⟨?_, ?_, ?_⟩ <;> exact (congrFun (congrFun hA _) _).symm

theorem cauchyGreen_eq {A : Mat3 α} (hA : Aᵀ = A) : cauchyGreen A = 1 + A := by
  obtain ⟨h10, h20, h21⟩ := symm_entries hA
  ext a b; fin_cases a <;> fin_cases b <;> simp [cauchyGreen, h10, h20, h21, add_comm]

theorem cauchyGreen_E2 (G : Mat3 α) : cauchyGreen (E2 G) = (1 + G)ᵀ * (1 + G) := by
  rw [cauchyGreen_eq (E2_transpose G), E2_eq]
  simp only [transpose_add, transpose_one, add_mul, mul_add, one_mul, mul_one]
  abel

theorem computeMatinvSym_eq {A : Mat3 α} (hA : Aᵀ = A) (d : α) :
    unpackSym (computeMatinvSym A d) = d⁻¹ • adjugate A := by
  obtain ⟨h10, h20, h21⟩ := symm_entries hA
  have hs : (d⁻¹ • adjugate A)ᵀ = d⁻¹ • adjugate A := by
    rw [transpose_smul, adjugate_transpose, hA]
  rw [← unpackSym_pack hs]
  refine congrArg unpackSym (funext fun m => ?_)
  fin_cases m <;>
    simp [computeMatinvSym, adjugate_fin_three, indj, indk, div_eq_inv_mul, h10, h20, h21,
      -mul_eq_mul_left_iff] <;> ring

theorem E2_eq_sub (G : Mat3 α) : E2 G = (1 + G)ᵀ * (1 + G) - 1 := by
  rw [← cauchyGreen_E2, cauchyGreen_eq (E2_transpose G), add_sub_cancel_left]

theorem E2_computeJM1_eq_zero_of_rigid {G : Mat3 α} (hR : (1 + G)ᵀ * (1 + G) = 1)
    (hdet : (1 + G).det = 1) : E2 G = 0 ∧ computeJM1 G = 0 :=
  ⟨by rw [E2_eq_sub, hR, sub_self], by rw [computeJM1_eq, hdet, sub_self]⟩

theorem strainEnergy_eq (lambda mu logJ : α) (E2 : Mat3 α) :
    strainEnergy lambda mu logJ E2 = lambda * logJ * logJ / 2 - mu * logJ + mu * E2.trace / 2 := by
  rw [strainEnergy, Matrix.trace_fin_three]

theorem det_cauchyGreen (G : Mat3 α) :
    (cauchyGreen (E2 G)).det = (computeJM1 G + 1) * (computeJM1 G + 1) := by
  rw [cauchyGreen_E2, det_mul, det_transpose, computeJM1_eq, sub_add_cancel]

theorem gradU_qDXdx_unit (w : α) (ug : Mat3 α) :
    gradU (qDXdx ![w, 1, 0, 0, 0, 1, 0, 0, 0, 1]) (duOf ug) = duOf ug := by
  rw [gradU_eq, show qDXdx ![w, 1, 0, 0, 0, 1, 0, 0, 0, 1] = 1 by
    ext i j; fin_cases i <;> fin_cases j <;> rfl, Matrix.mul_one]

section CommonFS

variable (log1p : α → α) (lambda mu : α) (G : Mat3 α)

theorem Cinv_eq : unpackSym (commonFS log1p lambda mu G).Cinvwork =
    ((cauchyGreen (E2 G)).det)⁻¹ • adjugate (cauchyGreen (E2 G)) := by
  rw [det_cauchyGreen]
  exact computeMatinvSym_eq (by rw [cauchyGreen_E2]; simp) _

@[simp] theorem commonFS_logJ : (commonFS log1p lambda mu G).logJ = log1p (computeJM1 G) := rfl

theorem Swork_pack : (commonFS log1p lambda mu G).Swork = fun m =>
    ((lambda * (commonFS log1p lambda mu G).logJ) • unpackSym (commonFS log1p lambda mu G).Cinvwork +
      mu • (unpackSym (commonFS log1p lambda mu G).Cinvwork * E2 G)) (indj m) (indk m) := by
  funext m
  simp [commonFS, mul_apply, Finset.mul_sum, mul_assoc]

variable {G}

theorem cauchyGreen_mul_Cinv (hJ : (1 + G).det ≠ 0) :
    cauchyGreen (E2 G) * unpackSym (commonFS log1p lambda mu G).Cinvwork = 1 := by
  have hC : (cauchyGreen (E2 G)).det ≠ 0 := by
    rw [cauchyGreen_E2, det_mul, det_transpose]; exact mul_ne_zero hJ hJ
  rw [Cinv_eq, mul_smul_comm, mul_adjugate, smul_smul, inv_mul_cancel₀ hC, one_smul]

theorem Cinv_mul_cauchyGreen (hJ : (1 + G).det ≠ 0) :
    unpackSym (commonFS log1p lambda mu G).Cinvwork * cauchyGreen (E2 G) = 1 :=
  mul_eq_one_comm.1 (cauchyGreen_mul_Cinv log1p lambda mu hJ)

theorem Cinv_mul_E2 (hJ : (1 + G).det ≠ 0) :
    unpackSym (commonFS log1p lambda mu G).Cinvwork * E2 G =
      1 - unpackSym (commonFS log1p lambda mu G).Cinvwork := by
  have h := Cinv_mul_cauchyGreen log1p lambda mu hJ
  rw [cauchyGreen_eq (E2_transpose G), mul_add, mul_one] at h
  rw [← h, add_sub_cancel_left]

theorem Cinv_mul_transpose (hJ : (1 + G).det ≠ 0) :
    unpackSym (commonFS log1p lambda mu G).Cinvwork * (1 + G)ᵀ = ((1 + G).det)⁻¹ • adjugate (1 + G) := by
  have hF : (1 + G) * (((1 + G).det)⁻¹ • adjugate (1 + G)) = 1 := by
    rw [mul_smul_comm, mul_adjugate, smul_smul, inv_mul_cancel₀ hJ, one_smul]
  calc unpackSym (commonFS log1p lambda mu G).Cinvwork * (1 + G)ᵀ
      = unpackSym (commonFS log1p lambda mu G).Cinvwork * ((1 + G)ᵀ * (1 + G)) *
          (((1 + G).det)⁻¹ • adjugate (1 + G)) := by
        rw [Matrix.mul_assoc, Matrix.mul_assoc, hF, Matrix.mul_one]
    _ = ((1 + G).det)⁻¹ • adjugate (1 + G) := by
        rw [← cauchyGreen_E2, Cinv_mul_cauchyGreen log1p lambda mu hJ, Matrix.one_mul]

/-- `S = μ I + (λ logJ - μ) C⁻¹`: the `μ C⁻¹ E2` term of `commonFS` is `μ (I - C⁻¹)`. -/
theorem Swork_eq (hJ : (1 + G).det ≠ 0) :
    unpackSym (commonFS log1p lambda mu G).Swork =
      mu • 1 + (lambda * (commonFS log1p lambda mu G).logJ - mu) •
        unpackSym (commonFS log1p lambda mu G).Cinvwork := by
  set X := unpackSym (commonFS log1p lambda mu G).Cinvwork
  have hsym : (mu • 1 + (lambda * (commonFS log1p lambda mu G).logJ - mu) • X)ᵀ =
      mu • 1 + (lambda * (commonFS log1p lambda mu G).logJ - mu) • X := by
    simp [X, unpackSym_transpose]
  have hM : (lambda * (commonFS log1p lambda mu G).logJ) • X + mu • (1 - X) =
      mu • 1 + (lambda * (commonFS log1p lambda mu G).logJ - mu) • X := by
    rw [smul_sub, sub_smul]; abel
  rw [Swork_pack, Cinv_mul_E2 log1p lambda mu hJ, hM, unpackSym_pack hsym]

/-- Where `J = 0`, `detC = 0` and the model's division by it gives `C_inv = 0`, hence `S = 0`. -/
theorem Cinv_Swork_eq_zero (hJ : (1 + G).det = 0) :
    unpackSym (commonFS log1p lambda mu G).Cinvwork = 0 ∧
      unpackSym (commonFS log1p lambda mu G).Swork = 0 := by
  have hC : unpackSym (commonFS log1p lambda mu G).Cinvwork = 0 := by
    rw [Cinv_eq, det_cauchyGreen, computeJM1_eq, hJ, zero_sub, neg_add_cancel, mul_zero]
    simp
  refine ⟨hC, ?_⟩
  rw [Swork_pack, hC, smul_zero, Matrix.zero_mul, smul_zero, add_zero]
  exact unpackSym_pack (transpose_zero)

end CommonFS

/-- `commonFS` in exact arithmetic: `J - 1`, `C = Fᵀ F` and `logJ` for every `G`, and
`C C⁻¹ = I`, `S = μ I + (λ logJ - μ) C⁻¹` where `J ≠ 0`. -/
theorem commonFS_exact (lambda mu : ℝ) (G : Mat3 ℝ) :
    let c := commonFS (log1pSeriesShifted Real.sqrt Real.log) lambda mu G
    computeJM1 G = (1 + G).det - 1 ∧ cauchyGreen (E2 G) = (1 + G)ᵀ * (1 + G) ∧
      c.logJ = log1pSeriesShifted Real.sqrt Real.log ((1 + G).det - 1) ∧
      ((1 + G).det ≠ 0 → cauchyGreen (E2 G) * unpackSym c.Cinvwork = 1 ∧
        unpackSym c.Swork = mu • 1 + (lambda * c.logJ - mu) • unpackSym c.Cinvwork) :=
  ⟨computeJM1_eq G, cauchyGreen_E2 G, by rw [← computeJM1_eq]; rfl,
    fun hJ => ⟨cauchyGreen_mul_Cinv _ _ _ hJ, Swork_eq _ _ _ hJ⟩⟩

theorem commonFS_exact_at_rest :
    cauchyGreen (E2 (0 : Mat3 ℝ)) *
      unpackSym (commonFS (log1pSeriesShifted Real.sqrt Real.log) 1 1 0).Cinvwork = 1 :=
  ((commonFS_exact 1 1 0).2.2.2 (by simp)).1

/-- At `grad_u = diag(-1, 0, 0)`, `λ = μ = 1`, `J = 0`: the model's `S` is `0`, not
`μ I + (λ logJ - μ) C_inv`; the C code divides by `detC = 0` there, giving `NaN`. -/
theorem commonFS_Swork_singular :
    let c := commonFS (log1pSeriesShifted Real.sqrt Real.log) 1 1 !![-1, 0, 0; 0, 0, 0; 0, 0, 0]
    (1 + !![-1, 0, 0; 0, 0, 0; 0, 0, 0] : Mat3 ℝ).det = 0 ∧ unpackSym c.Swork = 0 ∧
      unpackSym c.Swork ≠ (1 : ℝ) • 1 + (1 * c.logJ - 1) • unpackSym c.Cinvwork := by
  have hJ : (1 + !![-1, 0, 0; 0, 0, 0; 0, 0, 0] : Mat3 ℝ).det = 0 := by
    simp [det_fin_three, Matrix.one_apply]
  obtain ⟨hC, hS⟩ := Cinv_Swork_eq_zero (log1pSeriesShifted Real.sqrt Real.log) (1 : ℝ) 1 hJ
  refine ⟨hJ, hS, ?_⟩
  rw [hS, hC, smul_zero, add_zero, one_smul]
  exact zero_ne_one

/-! Two deformations of a point with `wdetJ = 1` and `dXdx = I`: a stretch by `1/10` along
the first axis, and a quarter turn about the third. -/

theorem det_stretch_pos :
    0 < (1 + gradU (qDXdx ![1, 1, 0, 0, 0, 1, 0, 0, 0, 1])
      (duOf !![(1 : ℝ) / 10, 0, 0; 0, 0, 0; 0, 0, 0])).det := by
  rw [gradU_qDXdx_unit, det_fin_three]
  norm_num [duOf, one_fin_three, vecHead, vecTail]

theorem quarter_turn_rigid :
    (1 + gradU (qDXdx ![1, 1, 0, 0, 0, 1, 0, 0, 0, 1]) (duOf !![(-1 : ℝ), 1, 0; -1, -1, 0; 0, 0, 0]))ᵀ *
        (1 + gradU (qDXdx ![1, 1, 0, 0, 0, 1, 0, 0, 0, 1]) (duOf !![(-1 : ℝ), 1, 0; -1, -1, 0; 0, 0, 0])) = 1 ∧
      (1 + gradU (qDXdx ![1, 1, 0, 0, 0, 1, 0, 0, 0, 1]) (duOf !![(-1 : ℝ), 1, 0; -1, -1, 0; 0, 0, 0])).det = 1 := by
  have hF : 1 + gradU (qDXdx ![1, 1, 0, 0, 0, 1, 0, 0, 0, 1]) (duOf !![(-1 : ℝ), 1, 0; -1, -1, 0; 0, 0, 0]) =
      !![0, -1, 0; 1, 0, 0; 0, 0, 1] := by
    rw [gradU_qDXdx_unit, one_fin_three, show duOf !![(-1 : ℝ), 1, 0; -1, -1, 0; 0, 0, 0] =
      !![-1, -1, 0; 1, -1, 0; 0, 0, 0] by ext i j; fin_cases i <;> fin_cases j <;> rfl, of_add_of]
    norm_num
  rw [hF, show (!![0, -1, 0; 1, 0, 0; 0, 0, 1] : Mat3 ℝ)ᵀ = !![0, 1, 0; -1, 0, 0; 0, 0, 1] by
    ext i j; fin_cases i <;> fin_cases j <;> rfl, mul_fin_three, one_fin_three, det_fin_three]
  norm_num

end Ceed

import CeedQFunction.Proofs.Tangent

/-! Frame indifference of the neo-Hookean kernels. `commonFS` reads `grad_u` only through
`J - 1` and `E2`, and both are unchanged when `F = I + grad_u` is turned by a rotation `Q`;
so `C_inv`, `S` and `logJ` are unchanged, `P = F S` turns with `Q`, and so does the
`deltaP` of a direction turned with it. This holds whatever the log1p helper returns. -/

namespace Ceed

open Matrix

variable {α : Type*} [Field α]

/-- `commonFS` reads `grad_u` only through `computeJM1` and `E2`. -/
theorem commonFS_congr (log1p : α → α) (lambda mu : α) {G G' : Mat3 α}
    (hJ : computeJM1 G = computeJM1 G') (hE : E2 G = E2 G') :
    commonFS log1p lambda mu G = commonFS log1p lambda mu G' := by
  simp only [commonFS, hJ, hE]

section Rotation

variable {Q : Mat3 α} (hQ : Qᵀ * Q = 1) (hdet : Q.det = 1) (G : Mat3 α)

include hdet in
theorem computeJM1_rotate : computeJM1 (Q * (1 + G) - 1) = computeJM1 G := by
  rw [computeJM1_eq, computeJM1_eq, add_sub_cancel, det_mul, hdet, one_mul]

include hQ in
theorem E2_rotate : E2 (Q * (1 + G) - 1) = E2 G := by
  rw [E2_eq_sub, E2_eq_sub, add_sub_cancel, transpose_mul, Matrix.mul_assoc,
    ← Matrix.mul_assoc Qᵀ, hQ, Matrix.one_mul]

include hQ in
theorem deltaEwork_rotate (graddeltau F : Mat3 α) :
    unpackSym (deltaEwork (Q * graddeltau) (Q * F)) = unpackSym (deltaEwork graddeltau F) := by
  simp only [unpackSym_deltaEwork, transpose_mul, Matrix.mul_assoc, ← Matrix.mul_assoc Qᵀ, hQ,
    Matrix.one_mul]

include hQ hdet in
/-- Turning `I + grad_u` by a rotation `Q` leaves `C_inv`, `S`, `logJ` and the energy unchanged
and turns `P` and the `deltaP` of `Q Δ` by `Q`. -/
theorem kernels_frame_indifferent (log1p : α → α) (ctx : Physics α) (Δ : Mat3 α) :
    commonFS log1p ctx.lambda ctx.mu (Q * (1 + G) - 1) = commonFS log1p ctx.lambda ctx.mu G ∧
      strainEnergy ctx.lambda ctx.mu (log1p (computeJM1 (Q * (1 + G) - 1))) (E2 (Q * (1 + G) - 1)) =
        strainEnergy ctx.lambda ctx.mu (log1p (computeJM1 G)) (E2 G) ∧
      firstPiola log1p ctx (Q * (1 + G) - 1) = Q * firstPiola log1p ctx G ∧
      deltaPiola log1p ctx (Q * (1 + G) - 1) (Q * Δ) = Q * deltaPiola log1p ctx G Δ := by
  have hc := commonFS_congr log1p ctx.lambda ctx.mu (computeJM1_rotate hdet G) (E2_rotate hQ G)
  have hF : defGrad (Q * (1 + G) - 1) = Q * defGrad G := by
    rw [defGrad_eq, defGrad_eq, add_sub_cancel]
  refine ⟨hc, by rw [computeJM1_rotate hdet, E2_rotate hQ], ?_, ?_⟩
  · rw [firstPiola, firstPiola, hc, hF, Matrix.mul_assoc]
  · rw [deltaPiola_eq, deltaPiola_eq, hc, hF, deltaEwork_rotate hQ, Matrix.mul_assoc,
      Matrix.mul_assoc, ← Matrix.mul_add]

end Rotation

/-- The Kirchhoff stress `P Fᵀ` of `ElasFSResidual_NH` is symmetric, and so is its
linearisation `deltaP Fᵀ + P deltaFᵀ`, for any log1p helper. -/
theorem kirchhoff_stress_symm (log1p : α → α) (ctx : Physics α) (G Δ : Mat3 α) :
    (firstPiola log1p ctx G * (defGrad G)ᵀ)ᵀ = firstPiola log1p ctx G * (defGrad G)ᵀ ∧
      (deltaPiola log1p ctx G Δ * (defGrad G)ᵀ + firstPiola log1p ctx G * Δᵀ)ᵀ =
        deltaPiola log1p ctx G Δ * (defGrad G)ᵀ + firstPiola log1p ctx G * Δᵀ := by
  have hdS := deltaSOf_transpose ctx.lambda ctx.mu (commonFS log1p ctx.lambda ctx.mu G).logJ
    (unpackSym_transpose (commonFS log1p ctx.lambda ctx.mu G).Cinvwork)
    (unpackSym_transpose (deltaEwork Δ (defGrad G)))
  refine ⟨by simp only [firstPiola, transpose_mul, transpose_transpose, unpackSym_transpose,
    Matrix.mul_assoc], ?_⟩
  simp only [deltaPiola_eq, firstPiola, transpose_add, transpose_mul, transpose_transpose,
    unpackSym_transpose, hdS, Matrix.add_mul, Matrix.mul_assoc]
  abel

/-- A quarter turn about the third axis, in exact rational arithmetic. -/
theorem kernels_frame_indifferent_quarter_turn :
    (!![0, -1, 0; 1, 0, 0; 0, 0, 1] : Mat3 ℚ)ᵀ * !![0, -1, 0; 1, 0, 0; 0, 0, 1] = 1 ∧
      (!![0, -1, 0; 1, 0, 0; 0, 0, 1] : Mat3 ℚ).det = 1 ∧
      firstPiola (fun x => x) ⟨0, 1⟩ (!![0, -1, 0; 1, 0, 0; 0, 0, 1] * (1 + 1) - 1) =
        !![0, -1, 0; 1, 0, 0; 0, 0, 1] * firstPiola (fun x => x) ⟨0, 1⟩ (1 : Mat3 ℚ) :=
  have hQ : (!![0, -1, 0; 1, 0, 0; 0, 0, 1] : Mat3 ℚ)ᵀ * !![0, -1, 0; 1, 0, 0; 0, 0, 1] = 1 := by
    rw [show (!![0, -1, 0; 1, 0, 0; 0, 0, 1] : Mat3 ℚ)ᵀ = !![0, 1, 0; -1, 0, 0; 0, 0, 1] by
      ext i j; fin_cases i <;> fin_cases j <;> rfl, mul_fin_three, one_fin_three]
    norm_num
  have hdet : (!![0, -1, 0; 1, 0, 0; 0, 0, 1] : Mat3 ℚ).det = 1 := by simp [det_fin_three]
  ⟨hQ, hdet, (kernels_frame_indifferent hQ hdet 1 (fun x => x) ⟨0, 1⟩ 0).2.2.1⟩

end Ceed

import CeedQFunction.Proofs.Tangent
import CeedQFunction.Proofs.MatDeriv

/-! With the exact `log (1 + x)` as its log1p helper, the `dvdX` that `ElasFSResidual_NH`
writes is the gradient of the energy that `ElasFSEnergy_NH` writes, and the `deltadvdX`
of `ElasFSJacobian_NH` is the directional derivative of that `dvdX`, wherever
`J = det(I + grad_u) > 0`. `gradU` maps the line `ug + s δ` to the line `grad_u + s Δ`, so
the derivatives are taken along that line. -/

namespace Ceed

open Matrix Filter Topology

theorem contract_stdBasisMatrix (k j : Fin 3) (M : Mat3 ℝ) : contract (stdBasisMatrix k j 1) M = M k j := by
  simp [contract, stdBasisMatrix, ite_and]

section Line

variable (G Δ : Mat3 ℝ)

theorem hasMatDerivAt_defGrad : HasMatDerivAt (fun s => defGrad (G + s • Δ)) Δ 0 := by
  simpa only [defGrad_eq, ← add_assoc] using HasMatDerivAt.line (1 + G) Δ 0

theorem hasMatDerivAt_E2 : HasMatDerivAt (fun s => E2 (G + s • Δ)) (Δᵀ * (1 + G) + (1 + G)ᵀ * Δ) 0 := by
  have hF := HasMatDerivAt.line (1 + G) Δ 0
  simp only [E2_eq_sub, ← add_assoc]
  exact ((hF.transpose.mul hF).sub (HasMatDerivAt.const 1 0)).congr_deriv (by simp)

theorem hasMatDerivAt_cauchyGreen :
    HasMatDerivAt (fun s => cauchyGreen (E2 (G + s • Δ))) (Δᵀ * (1 + G) + (1 + G)ᵀ * Δ) 0 := by
  simpa only [cauchyGreen_eq (E2_transpose _), zero_add] using
    (HasMatDerivAt.const 1 0).add (hasMatDerivAt_E2 G Δ)

theorem hasDerivAt_det :
    HasDerivAt (fun s : ℝ => (1 + (G + s • Δ)).det) (adjugate (1 + G) * Δ).trace 0 := by
  simpa only [← add_assoc, zero_smul, add_zero] using (HasMatDerivAt.line (1 + G) Δ 0).det

theorem hasDerivAt_logJ (hJ : 0 < (1 + G).det) :
    HasDerivAt (fun s : ℝ => Real.log (1 + computeJM1 (G + s • Δ)))
      ((adjugate (1 + G) * Δ).trace / (1 + G).det) 0 := by
  simp only [computeJM1_eq, add_sub_cancel]
  simpa using (hasDerivAt_det G Δ).log (by simpa using hJ.ne')

theorem hasMatDerivAt_Cinv (log1p : ℝ → ℝ) (lambda mu : ℝ) (hJ : 0 < (1 + G).det) :
    HasMatDerivAt (fun s => unpackSym (commonFS log1p lambda mu (G + s • Δ)).Cinvwork)
      (-(unpackSym (commonFS log1p lambda mu G).Cinvwork * (Δᵀ * (1 + G) + (1 + G)ᵀ * Δ) *
        unpackSym (commonFS log1p lambda mu G).Cinvwork)) 0 := by
  have hC := hasMatDerivAt_cauchyGreen G Δ
  have hd := hasDerivAt_det G Δ
  obtain ⟨X', hX⟩ : ∃ X', HasMatDerivAt
      (fun s => unpackSym (commonFS log1p lambda mu (G + s • Δ)).Cinvwork) X' 0 := by
    simp only [commonFS, computeJM1_eq, sub_add_cancel]
    exact exists_hasMatDerivAt_computeMatinvSym hC (hd.mul hd) (by simpa using (mul_pos hJ hJ).ne')
  have hev : ∀ᶠ s in 𝓝 (0 : ℝ),
      unpackSym (commonFS log1p lambda mu (G + s • Δ)).Cinvwork * cauchyGreen (E2 (G + s • Δ)) = 1 :=
    (hd.continuousAt.eventually (lt_mem_nhds (by simpa using hJ))).mono fun s hs =>
      Cinv_mul_cauchyGreen log1p lambda mu hs.ne'
  have h0 := (hX.mul hC).eq_zero_of_eventuallyEq hev
  simp only [zero_smul, add_zero] at h0
  refine hX.congr_deriv ?_
  calc X' = X' * (cauchyGreen (E2 G) * unpackSym (commonFS log1p lambda mu G).Cinvwork) := by
        rw [cauchyGreen_mul_Cinv log1p lambda mu hJ.ne', Matrix.mul_one]
    _ = _ := by rw [← Matrix.mul_assoc, eq_neg_of_add_eq_zero_left h0, neg_mul]

theorem hasMatDerivAt_Swork (ctx : Physics ℝ) (hJ : 0 < (1 + G).det) :
    HasMatDerivAt
      (fun s => unpackSym (commonFS (fun x => Real.log (1 + x)) ctx.lambda ctx.mu (G + s • Δ)).Swork)
      (deltaSOf ctx.lambda ctx.mu (commonFS (fun x => Real.log (1 + x)) ctx.lambda ctx.mu G).logJ
        (unpackSym (commonFS (fun x => Real.log (1 + x)) ctx.lambda ctx.mu G).Cinvwork)
        (unpackSym (deltaEwork Δ (defGrad G)))) 0 := by
  have hX := hasMatDerivAt_Cinv G Δ (fun x => Real.log (1 + x)) ctx.lambda ctx.mu hJ
  have hM := (HasMatDerivAt.smul ((hasDerivAt_logJ G Δ hJ).const_mul ctx.lambda) hX).add
    ((hX.mul (hasMatDerivAt_E2 G Δ)).const_smul ctx.mu)
  have hsym := deltaSOf_transpose ctx.lambda ctx.mu
    (commonFS (fun x => Real.log (1 + x)) ctx.lambda ctx.mu G).logJ
    (unpackSym_transpose (commonFS (fun x => Real.log (1 + x)) ctx.lambda ctx.mu G).Cinvwork)
    (unpackSym_transpose (deltaEwork Δ (defGrad G)))
  simp only [Swork_pack]
  refine (hasMatDerivAt_unpackSym fun m => hM _ _).congr_deriv ?_
  rw [← unpackSym_pack hsym]
  refine congrArg (fun M : Mat3 ℝ => unpackSym fun m => M (indj m) (indk m)) ?_
  simp only [zero_smul, add_zero, commonFS_logJ]
  set X := unpackSym (commonFS (fun x => Real.log (1 + x)) ctx.lambda ctx.mu G).Cinvwork
  set C' := Δᵀ * (1 + G) + (1 + G)ᵀ * Δ
  have hdE : unpackSym (deltaEwork Δ (defGrad G)) = (2 : ℝ)⁻¹ • C' := by
    rw [unpackSym_deltaEwork, defGrad_eq]
  have hL' : (adjugate (1 + G) * Δ).trace / (1 + G).det = contract X ((2 : ℝ)⁻¹ • C') := by
    rw [contract_eq_trace, unpackSym_transpose, show C' = ((1 + G)ᵀ * Δ)ᵀ + (1 + G)ᵀ * Δ by
      rw [transpose_mul, transpose_transpose], ← trace_mul_symmPart (unpackSym_transpose _),
      ← Matrix.mul_assoc, Cinv_mul_transpose _ _ _ hJ.ne', smul_mul, trace_smul, smul_eq_mul,
      div_eq_inv_mul]
  have hXE : -(X * C' * X) * E2 G = -(X * C') + X * C' * X := by
    rw [neg_mul, Matrix.mul_assoc _ X, Cinv_mul_E2 _ _ _ hJ.ne', mul_sub, Matrix.mul_one]; abel
  rw [deltaSOf_eq, hdE, ← hL', hXE]
  simp only [smul_mul, Matrix.mul_smul, smul_add, smul_neg, Matrix.mul_assoc]
  module

theorem hasMatDerivAt_firstPiola (ctx : Physics ℝ) (hJ : 0 < (1 + G).det) :
    HasMatDerivAt (fun s => firstPiola (fun x => Real.log (1 + x)) ctx (G + s • Δ))
      (deltaPiola (fun x => Real.log (1 + x)) ctx G Δ) 0 :=
  ((hasMatDerivAt_defGrad G Δ).mul (hasMatDerivAt_Swork G Δ ctx hJ)).congr_deriv
    (by simp [deltaPiola_eq])

theorem contract_firstPiola (log1p : ℝ → ℝ) (ctx : Physics ℝ) (hJ : (1 + G).det ≠ 0) :
    contract (firstPiola log1p ctx G) Δ =
      (ctx.lambda * log1p (computeJM1 G) - ctx.mu) * ((adjugate (1 + G) * Δ).trace / (1 + G).det) +
        ctx.mu * ((1 + G)ᵀ * Δ).trace := by
  rw [contract_eq_trace, firstPiola, defGrad_eq, transpose_mul, unpackSym_transpose,
    Swork_eq _ _ _ hJ, Matrix.mul_assoc, add_mul, trace_add, smul_mul, smul_mul, trace_smul,
    trace_smul, Matrix.one_mul, ← Matrix.mul_assoc, Cinv_mul_transpose _ _ _ hJ, smul_mul,
    trace_smul, commonFS_logJ]
  simp only [smul_eq_mul]
  ring

end Line

section Kernels

variable (ctx : Physics ℝ) (q : Fin 10 → ℝ)

/-- The directional derivative of the energy along `δ` is `δ : dvdX`. -/
theorem hasDerivAt_elasFSEnergyNHAt (ug δ : Mat3 ℝ) (hJ : 0 < (1 + gradU (qDXdx q) (duOf ug)).det) :
    HasDerivAt (fun s : ℝ => elasFSEnergyNHAt (fun x => Real.log (1 + x)) ctx (ug + s • δ) q)
      (contract δ (elasFSResidualNHAt (fun x => Real.log (1 + x)) ctx ug q).1) 0 := by
  set G := gradU (qDXdx q) (duOf ug)
  set Δ := gradU (qDXdx q) (duOf δ)
  have hL := hasDerivAt_logJ G Δ hJ
  have hT := (hasMatDerivAt_E2 G Δ).trace
  simp only [elasFSEnergyNHAt, gradU_add_smul, strainEnergy_eq]
  refine (((((hL.const_mul ctx.lambda).mul hL).div_const 2).sub (hL.const_mul ctx.mu)).add
    ((hT.const_mul ctx.mu).div_const 2)).mul_const (q 0) |>.congr_deriv ?_
  have htr : (Δᵀ * (1 + G)).trace = ((1 + G)ᵀ * Δ).trace := by
    rw [← trace_transpose, transpose_mul, transpose_transpose]
  rw [elasFSResidualNHAt, contract_pullBack, contract_firstPiola G Δ _ ctx hJ.ne', trace_add, htr]
  simp only [zero_smul, add_zero]
  ring

/-- `dvdX[k][j]` is the partial derivative in `ug[k][j]` of the energy `ElasFSEnergy_NH`
writes, for the exact `log (1 + x)` and `J > 0`. -/
theorem residual_eq_energy_gradient (ug : Mat3 ℝ) (hJ : 0 < (1 + gradU (qDXdx q) (duOf ug)).det)
    (k j : Fin 3) :
    HasDerivAt
      (fun s : ℝ => elasFSEnergyNHAt (fun x => Real.log (1 + x)) ctx (ug + s • stdBasisMatrix k j 1) q)
      ((elasFSResidualNHAt (fun x => Real.log (1 + x)) ctx ug q).1 k j) 0 := by
  simpa only [contract_stdBasisMatrix] using
    hasDerivAt_elasFSEnergyNHAt ctx q ug (stdBasisMatrix k j 1) hJ

/-- A stretch `diag(1/10, 0, 0)` of a material with `λ = μ = 2/5`, `dXdx = I`. -/
theorem residual_eq_energy_gradient_stretch :
    0 < (1 + gradU (qDXdx ![1, 1, 0, 0, 0, 1, 0, 0, 0, 1]) (duOf !![(1 : ℝ) / 10, 0, 0; 0, 0, 0; 0, 0, 0])).det ∧
      HasDerivAt (fun s : ℝ => elasFSEnergyNHAt (fun x => Real.log (1 + x)) ⟨1 / 4, 1⟩
          (!![1 / 10, 0, 0; 0, 0, 0; 0, 0, 0] + s • stdBasisMatrix 0 0 1) ![1, 1, 0, 0, 0, 1, 0, 0, 0, 1])
        ((elasFSResidualNHAt (fun x => Real.log (1 + x)) ⟨1 / 4, 1⟩ !![1 / 10, 0, 0; 0, 0, 0; 0, 0, 0]
          ![1, 1, 0, 0, 0, 1, 0, 0, 0, 1]).1 0 0) 0 :=
  ⟨det_stretch_pos, residual_eq_energy_gradient ⟨1 / 4, 1⟩ _ _ det_stretch_pos 0 0⟩

/-- The residual's `dvdX` moves with `ε` along `ug + ε δ` as the tangent on its stored
`grad_u`, for the exact `log (1 + x)` and `J > 0`. -/
theorem hasMatDerivAt_elasFSResidualNHAt (ug δ : Mat3 ℝ)
    (hJ : 0 < (1 + gradU (qDXdx q) (duOf ug)).det) :
    HasMatDerivAt (fun ε : ℝ => (elasFSResidualNHAt (fun x => Real.log (1 + x)) ctx (ug + ε • δ) q).1)
      (elasFSJacobianNHAt (fun x => Real.log (1 + x)) ctx δ q
        (elasFSResidualNHAt (fun x => Real.log (1 + x)) ctx ug q).2) 0 := by
  have hP := hasMatDerivAt_firstPiola (gradU (qDXdx q) (duOf ug)) (gradU (qDXdx q) (duOf δ)) ctx hJ
  have h := ((HasMatDerivAt.const (qDXdx q) 0).mul hP.transpose).const_smul (q 0)
  simp only [elasFSResidualNHAt, elasFSJacobianNHAt, gradU_add_smul, pullBack_eq]
  exact h.congr_deriv (by simp)

/-- `deltadvdX[k][j]`, run on the stored `grad_u`, is the derivative of `dvdX[k][j]` along
`ug + ε δ` at `ε = 0`, for the exact `log (1 + x)` and `J > 0`. -/
theorem jacobian_eq_residual_deriv (ug δ : Mat3 ℝ) (hJ : 0 < (1 + gradU (qDXdx q) (duOf ug)).det)
    (k j : Fin 3) :
    HasDerivAt (fun ε : ℝ => (elasFSResidualNHAt (fun x => Real.log (1 + x)) ctx (ug + ε • δ) q).1 k j)
      (elasFSJacobianNHAt (fun x => Real.log (1 + x)) ctx δ q
        (elasFSResidualNHAt (fun x => Real.log (1 + x)) ctx ug q).2 k j) 0 :=
  hasMatDerivAt_elasFSResidualNHAt ctx q ug δ hJ k j

/-- The stretch `diag(1/10, 0, 0)`, `λ = μ = 2/5`, `dXdx = I`, along a shear. -/
theorem jacobian_eq_residual_deriv_stretch :
    0 < (1 + gradU (qDXdx ![1, 1, 0, 0, 0, 1, 0, 0, 0, 1]) (duOf !![(1 : ℝ) / 10, 0, 0; 0, 0, 0; 0, 0, 0])).det ∧
      HasDerivAt (fun ε : ℝ => (elasFSResidualNHAt (fun x => Real.log (1 + x)) ⟨1 / 4, 1⟩
          (!![1 / 10, 0, 0; 0, 0, 0; 0, 0, 0] + ε • !![0, 1, 0; 0, 0, 0; 0, 0, 0])
          ![1, 1, 0, 0, 0, 1, 0, 0, 0, 1]).1 0 1)
        (elasFSJacobianNHAt (fun x => Real.log (1 + x)) ⟨1 / 4, 1⟩ !![0, 1, 0; 0, 0, 0; 0, 0, 0]
          ![1, 1, 0, 0, 0, 1, 0, 0, 0, 1]
          (elasFSResidualNHAt (fun x => Real.log (1 + x)) ⟨1 / 4, 1⟩ !![1 / 10, 0, 0; 0, 0, 0; 0, 0, 0]
            ![1, 1, 0, 0, 0, 1, 0, 0, 0, 1]).2 0 1) 0 :=
  ⟨det_stretch_pos, jacobian_eq_residual_deriv ⟨1 / 4, 1⟩ _ _ _ det_stretch_pos 0 1⟩

end Kernels

end Ceed

import CeedQFunction.Proofs.Contract

/-! The two kernels of `t530-operator.h` as one operator: `setup` stores
`rho = weight det J` at every point, and `mass` applied to `rho` scales each point's value
by it. For every `Q` with `4 Q ≤ 2^31`, where `setup`'s `CeedInt` index fits, the pointwise
operator `u ↦ rho u` they build is symmetric, and positive semidefinite wherever the weights
and the Jacobian determinants are non-negative. -/

namespace Ceed

variable {α : Type*}

section Pipeline

variable [Field α] {Q : Nat}

/-- `setup` followed by `mass` on the `rho` it stores: at every point `i`,
`v[i] = weight[i] (J[i] J[i + 3Q] - J[i + Q] J[i + 2Q]) u[i]`. -/
theorem mass_after_setup {w J u o : List α} (hQ : 4 * Q ≤ 2 ^ 31) (hw : w.length = Q)
    (hJ : J.length = 4 * Q) (hu : u.length = Q) (ho : o.length = Q) :
    ∃ rho v, setup Q [w, J] [o] = some (0, [rho]) ∧ mass Q [rho, u] [o] = some (0, [v]) ∧
      ∀ i < Q, rho.getD i 0 = w.getD i 0 *
        (J.getD (i + Q * 0) 0 * J.getD (i + Q * 3) 0 - J.getD (i + Q * 1) 0 * J.getD (i + Q * 2) 0) ∧
        v.getD i 0 = rho.getD i 0 * u.getD i 0 := by
  have hs : setup Q [w, J] [o] = _ := setup_eq hQ (by simp [Shaped, hw, hJ]) (by simp [Shaped, ho])
  rw [fillOut_singleton] at hs
  set rho := (fillOut [1] Q fun i => setupPointFn (pointView [w, J] Q i)).getD 0 []
  have hm : mass Q [rho, u] [o] = _ :=
    mass_eq (by simp [Shaped, rho, fillOut, hu]) (by simp [Shaped, ho])
  rw [fillOut_singleton] at hm
  refine ⟨rho, _, hs, hm, fun i hi => ⟨?_, ?_⟩⟩
  · rw [getD_fillOut_one _ hi]
    simp only [setupPointFn, pointView, List.getD_cons_zero, List.getD_cons_succ]
    ring_nf
  · rw [getD_fillOut_one _ hi]
    simp [massPointFn, pointView]

end Pipeline

/-- `setup` then `mass` build `u ↦ v`, `v[i] = weight[i] det J[i] u[i]`, where `4 Q ≤ 2^31`; it is
symmetric, and positive semidefinite when the weights and determinants are `≥ 0`. -/
theorem mass_operator_symm_nonneg [LinearOrderedField α] {Q : Nat} (w J u u' o : List α)
    (hQ : 4 * Q ≤ 2 ^ 31) (hw : w.length = Q) (hJ : J.length = 4 * Q) (hu : u.length = Q)
    (hu' : u'.length = Q) (ho : o.length = Q) :
    ∃ rho v v', setup Q [w, J] [o] = some (0, [rho]) ∧ mass Q [rho, u] [o] = some (0, [v]) ∧
      mass Q [rho, u'] [o] = some (0, [v']) ∧
      (∀ i < Q, rho.getD i 0 = w.getD i 0 *
          (J.getD (i + Q * 0) 0 * J.getD (i + Q * 3) 0 - J.getD (i + Q * 1) 0 * J.getD (i + Q * 2) 0) ∧
        v.getD i 0 = rho.getD i 0 * u.getD i 0 ∧ v'.getD i 0 = rho.getD i 0 * u'.getD i 0) ∧
      ∑ i ∈ Finset.range Q, u'.getD i 0 * v.getD i 0 = ∑ i ∈ Finset.range Q, u.getD i 0 * v'.getD i 0 ∧
      ((∀ i < Q, 0 ≤ w.getD i 0 ∧
          0 ≤ J.getD (i + Q * 0) 0 * J.getD (i + Q * 3) 0 - J.getD (i + Q * 1) 0 * J.getD (i + Q * 2) 0) →
        0 ≤ ∑ i ∈ Finset.range Q, u.getD i 0 * v.getD i 0) := by
  obtain ⟨rho, v, hs, hm, hv⟩ := mass_after_setup hQ hw hJ hu ho
  obtain ⟨rho', v', hs', hm', hv'⟩ := mass_after_setup hQ hw hJ hu' ho
  obtain rfl : rho = rho' := by rw [hs] at hs'; simpa using hs'
  refine ⟨rho, v, v', hs, hm, hm', fun i hi => ⟨(hv i hi).1, (hv i hi).2, (hv' i hi).2⟩,
    Finset.sum_congr rfl fun i hi => ?_, fun hpos => ?_⟩
  · have hi := Finset.mem_range.1 hi
    rw [(hv i hi).2, (hv' i hi).2]
    ring
  · refine Finset.sum_nonneg fun i hi => ?_
    have hi := Finset.mem_range.1 hi
    obtain ⟨hw0, hd0⟩ := hpos i hi
    rw [(hv i hi).2, (hv i hi).1, mul_left_comm]
    exact mul_nonneg (mul_nonneg hw0 hd0) (mul_self_nonneg _)

/-- Two points, weights `1/2` and `2`, Jacobians `[[2, 1], [1, 3]]` and `[[1, 0], [2, 1]]`. -/
theorem mass_operator_symm_nonneg_two_points :
    4 * 2 ≤ 2 ^ 31 ∧ ∃ rho v v' : List ℚ,
      setup 2 [[1 / 2, 2], [2, 1, 1, 0, 1, 2, 3, 1]] [[0, 0]] = some (0, [rho]) ∧
      mass 2 [rho, [3, -1]] [[0, 0]] = some (0, [v]) ∧ mass 2 [rho, [5, 4]] [[0, 0]] = some (0, [v']) ∧
      (∀ i < 2, rho.getD i 0 = ([1 / 2, 2] : List ℚ).getD i 0 *
          (([2, 1, 1, 0, 1, 2, 3, 1] : List ℚ).getD (i + 2 * 0) 0 *
              ([2, 1, 1, 0, 1, 2, 3, 1] : List ℚ).getD (i + 2 * 3) 0 -
            ([2, 1, 1, 0, 1, 2, 3, 1] : List ℚ).getD (i + 2 * 1) 0 *
              ([2, 1, 1, 0, 1, 2, 3, 1] : List ℚ).getD (i + 2 * 2) 0) ∧
        v.getD i 0 = rho.getD i 0 * ([3, -1] : List ℚ).getD i 0 ∧
        v'.getD i 0 = rho.getD i 0 * ([5, 4] : List ℚ).getD i 0) ∧
      ∑ i ∈ Finset.range 2, ([5, 4] : List ℚ).getD i 0 * v.getD i 0 =
        ∑ i ∈ Finset.range 2, ([3, -1] : List ℚ).getD i 0 * v'.getD i 0 ∧
      ((∀ i < 2, (0 : ℚ) ≤ ([1 / 2, 2] : List ℚ).getD i 0 ∧
          (0 : ℚ) ≤ ([2, 1, 1, 0, 1, 2, 3, 1] : List ℚ).getD (i + 2 * 0) 0 *
              ([2, 1, 1, 0, 1, 2, 3, 1] : List ℚ).getD (i + 2 * 3) 0 -
            ([2, 1, 1, 0, 1, 2, 3, 1] : List ℚ).getD (i + 2 * 1) 0 *
              ([2, 1, 1, 0, 1, 2, 3, 1] : List ℚ).getD (i + 2 * 2) 0) →
        0 ≤ ∑ i ∈ Finset.range 2, ([3, -1] : List ℚ).getD i 0 * v.getD i 0) :=
  ⟨by norm_num, mass_operator_symm_nonneg _ _ _ _ _ (by norm_num) rfl rfl rfl rfl rfl⟩

end Ceed

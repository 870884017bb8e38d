import CeedQFunction.Spec.NeoHookean

/-! Derivatives of 3×3-matrix-valued functions of one real variable, entry by entry: the
rules the tangent proofs chain together (sums, scalings, products, transposes, packed
storage), Jacobi's formula for the determinant, and that a function constant near a point
has derivative zero there. -/

namespace Ceed

open Matrix Filter Topology

/-- `X` has derivative `X'` at `t`, entry by entry. -/
def HasMatDerivAt (X : ℝ → Mat3 ℝ) (X' : Mat3 ℝ) (t : ℝ) : Prop :=
  ∀ i j, HasDerivAt (fun s => X s i j) (X' i j) t

namespace HasMatDerivAt

variable {X Y : ℝ → Mat3 ℝ} {X' Y' : Mat3 ℝ} {t : ℝ}

theorem congr_deriv (h : HasMatDerivAt X X' t) (e : X' = Y') : HasMatDerivAt X Y' t := e ▸ h

theorem const (A : Mat3 ℝ) (t : ℝ) : HasMatDerivAt (fun _ => A) 0 t :=
  fun i j => hasDerivAt_const t (A i j)

theorem line (A B : Mat3 ℝ) (t : ℝ) : HasMatDerivAt (fun s => A + s • B) B t := fun i j => by
  simpa using ((hasDerivAt_id t).mul_const (B i j)).const_add (A i j)

theorem add (hX : HasMatDerivAt X X' t) (hY : HasMatDerivAt Y Y' t) :
    HasMatDerivAt (fun s => X s + Y s) (X' + Y') t := fun i j => (hX i j).add (hY i j)

theorem sub (hX : HasMatDerivAt X X' t) (hY : HasMatDerivAt Y Y' t) :
    HasMatDerivAt (fun s => X s - Y s) (X' - Y') t := fun i j => (hX i j).sub (hY i j)

theorem smul {f : ℝ → ℝ} {f' : ℝ} (hf : HasDerivAt f f' t) (hX : HasMatDerivAt X X' t) :
    HasMatDerivAt (fun s => f s • X s) (f' • X t + f t • X') t := fun i j => hf.mul (hX i j)

theorem const_smul (c : ℝ) (hX : HasMatDerivAt X X' t) :
    HasMatDerivAt (fun s => c • X s) (c • X') t := fun i j => (hX i j).const_mul c

theorem mul (hX : HasMatDerivAt X X' t) (hY : HasMatDerivAt Y Y' t) :
    HasMatDerivAt (fun s => X s * Y s) (X' * Y t + X t * Y') t := fun i j => by
  simp only [mul_apply, add_apply, ← Finset.sum_add_distrib]
  exact HasDerivAt.sum fun k _ => (hX i k).mul (hY k j)

theorem transpose (hX : HasMatDerivAt X X' t) : HasMatDerivAt (fun s => (X s)ᵀ) X'ᵀ t :=
  fun i j => hX j i

theorem trace (hX : HasMatDerivAt X X' t) : HasDerivAt (fun s => (X s).trace) X'.trace t :=
  HasDerivAt.sum fun i _ => hX i i

/-- Jacobi's formula: `(det X)' = tr(adj X · X')`. -/
theorem det (hX : HasMatDerivAt X X' t) :
    HasDerivAt (fun s => (X s).det) ((adjugate (X t) * X').trace) t := by
  have h3 : ∀ a b c d e f, HasDerivAt (fun s => X s a b * X s c d * X s e f)
      (X' a b * X t c d * X t e f + X t a b * X' c d * X t e f + X t a b * X t c d * X' e f) t :=
    fun a b c d e f => (((hX a b).mul (hX c d)).mul (hX e f)).congr_deriv (by ring)
  simp only [det_fin_three]
  refine (((((h3 0 0 1 1 2 2).sub (h3 0 0 1 2 2 1)).sub (h3 0 1 1 0 2 2)).add
    (h3 0 1 1 2 2 0)).add (h3 0 2 1 0 2 1)).sub (h3 0 2 1 1 2 0) |>.congr_deriv ?_
  simp [Matrix.trace_fin_three, adjugate_fin_three, vecMul, dotProduct, Fin.sum_univ_three]
  ring

theorem eq_zero_of_eventuallyEq (hX : HasMatDerivAt X X' t) {A : Mat3 ℝ}
    (he : ∀ᶠ s in 𝓝 t, X s = A) : X' = 0 := by
  ext i j
  exact (hX i j).unique ((hasDerivAt_const t (A i j)).congr_of_eventuallyEq
    (he.mono fun s hs => congrFun (congrFun hs i) j))

end HasMatDerivAt

theorem hasMatDerivAt_unpackSym {w : ℝ → Fin 6 → ℝ} {w' : Fin 6 → ℝ} {t : ℝ}
    (h : ∀ m, HasDerivAt (fun s => w s m) (w' m) t) :
    HasMatDerivAt (fun s => unpackSym (w s)) (unpackSym w') t := by
  intro a b; fin_cases a <;> fin_cases b <;> exact h _

theorem exists_hasMatDerivAt_computeMatinvSym {A : ℝ → Mat3 ℝ} {A' : Mat3 ℝ} {d : ℝ → ℝ}
    {d' t : ℝ} (hA : HasMatDerivAt A A' t) (hd : HasDerivAt d d' t) (hd0 : d t ≠ 0) :
    ∃ X', HasMatDerivAt (fun s => unpackSym (computeMatinvSym (A s) (d s))) X' t := by
  have h : ∀ m, ∃ v, HasDerivAt (fun s => computeMatinvSym (A s) (d s) m) v t := by
    intro m
    fin_cases m <;>
      exact ⟨_, (((hA _ _).mul (hA _ _)).sub ((hA _ _).mul (hA _ _))).div hd hd0⟩
  choose w' hw' using h
  exact ⟨_, hasMatDerivAt_unpackSym hw'⟩

end Ceed

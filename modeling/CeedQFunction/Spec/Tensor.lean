import Mathlib

/-! The storage the neo-Hookean kernels share: a 3×3 array `A[a][b]` is a matrix, and a
symmetric tensor is packed into six slots through the tables `indj`, `indk` and read
back by `unpackSym`. The loops that apply `dXdx` to a gradient are here too. -/

namespace Ceed

open Matrix

variable {α : Type*}

abbrev Mat3 (α : Type*) := Matrix (Fin 3) (Fin 3) α

/-- Slot `m` of a packed tensor holds entry `(indj m, indk m)`. -/
def indj : Fin 6 → Fin 3 := ![0, 1, 2, 1, 0, 0]

def indk : Fin 6 → Fin 3 := ![0, 1, 2, 2, 2, 1]

@[simp] theorem vec6_three (a b c d e f : α) : ![a, b, c, d, e, f] 3 = d := rfl

@[simp] theorem vec6_four (a b c d e f : α) : ![a, b, c, d, e, f] 4 = e := rfl

@[simp] theorem vec6_five (a b c d e f : α) : ![a, b, c, d, e, f] 5 = f := rfl

/-- `{{w[0], w[5], w[4]}, {w[5], w[1], w[3]}, {w[4], w[3], w[2]}}`. -/
def unpackSym (w : Fin 6 → α) : Mat3 α := !![w 0, w 5, w 4; w 5, w 1, w 3; w 4, w 3, w 2]

theorem unpackSym_transpose (w : Fin 6 → α) : (unpackSym w)ᵀ = unpackSym w := by
  ext a b; fin_cases a <;> fin_cases b <;> rfl

@[simp] theorem unpackSym_ind (w : Fin 6 → α) (m : Fin 6) : unpackSym w (indj m) (indk m) = w m := by
  fin_cases m <;> rfl

theorem unpackSym_symm (w : Fin 6 → α) (a b : Fin 3) : unpackSym w b a = unpackSym w a b := by
  fin_cases a <;> fin_cases b <;> rfl

/-- Packing a symmetric matrix and reading it back gives the matrix. -/
theorem unpackSym_pack {A : Mat3 α} (hA : Aᵀ = A) : unpackSym (fun m => A (indj m) (indk m)) = A := by
  have h : ∀ a b, A b a = A a b := fun a b => by simpa using congrFun (congrFun hA a) b
  ext a b; fin_cases a <;> fin_cases b <;> first | rfl | exact h _ _

section Ring

variable [CommRing α]

/-- `grad[j][k] = Σ_m dXdx[m][k] * du[j][m]`: "Apply dXdx to du". -/
def gradU (dXdx du : Mat3 α) : Mat3 α := Matrix.of fun j k => ∑ m, dXdx m k * du j m

/-- `out[k][j] = Σ_m dXdx[k][m] * P[j][m] * wdetJ`: "Apply dXdx^T and weight". -/
def pullBack (dXdx : Mat3 α) (wdetJ : α) (P : Mat3 α) : Mat3 α :=
  Matrix.of fun k j => ∑ m, dXdx k m * P j m * wdetJ

theorem gradU_eq (dXdx du : Mat3 α) : gradU dXdx du = du * dXdx := by
  ext j k; simp [gradU, Matrix.mul_apply, mul_comm]

theorem pullBack_eq (dXdx : Mat3 α) (wdetJ : α) (P : Mat3 α) :
    pullBack dXdx wdetJ P = wdetJ • (dXdx * Pᵀ) := by
  ext k j; simp [pullBack, Matrix.mul_apply, Finset.mul_sum, mul_comm, mul_left_comm]

/-- The contraction `A : B = Σ_j Σ_k A[j][k] * B[j][k]`. -/
def contract (A B : Mat3 α) : α := ∑ j, ∑ k, A j k * B j k

end Ring

end Ceed

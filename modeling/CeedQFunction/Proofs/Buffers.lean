import CeedQFunction.Spec.Kernel

/-! Checked reads and writes of component `c` at point `i` (offset `c * Q + i`), and the
point loop. On buffers of exactly `n * Q` scalars the reads and writes of one point succeed,
and the loop over all `Q` points fills every output cell with its point's value. -/

namespace Ceed

variable {α : Type*}

/-- Field `f` of `B` holds exactly `ns[f] * Q` scalars. -/
def Shaped (ns : List Nat) (Q : Nat) (B : List (List α)) : Prop :=
  B.map List.length = ns.map (· * Q)

/-- The cells of point `i` of every field `f` set to `v f c`. -/
def setPoint (Q i : Nat) (v : Nat → Nat → α) (B : List (List α)) : List (List α) :=
  B.mapIdx fun f b => b.mapIdx fun off x => if off % Q = i then v f (off / Q) else x

/-- Output buffers whose field `f` holds `w i f c` at offset `c * Q + i`. -/
def fillOut (ms : List Nat) (Q : Nat) (w : Nat → Nat → Nat → α) : List (List α) :=
  ms.mapIdx fun f m => (List.range (m * Q)).map fun off => w (off % Q) f (off / Q)

theorem offset_eq_iff {Q i c x : Nat} (hi : i < Q) :
    c * Q + i = x ↔ x % Q = i ∧ x / Q = c := by
  constructor
  · rintro rfl
    rw [Nat.add_comm, Nat.add_mul_mod_self_right, Nat.add_mul_div_right _ _ (by omega),
      Nat.mod_eq_of_lt hi, Nat.div_eq_of_lt hi]
    simp
  · rintro ⟨h1, h2⟩
    have := Nat.div_add_mod x Q
    rw [h1, h2, Nat.mul_comm] at this
    exact this

theorem mapIdx_snd {β : Type*} (l : List β) : l.mapIdx (fun _ x => x) = l :=
  List.ext_getElem (by simp) (by simp)

theorem offset_lt {c n Q i : Nat} (hc : c < n) (hi : i < Q) : c * Q + i < n * Q := by
  have : c * Q + Q ≤ n * Q := by rw [← Nat.succ_mul]; exact Nat.mul_le_mul_right _ hc
  omega

theorem div_lt_of_offset_lt {off n Q : Nat} (h : off < n * Q) : off / Q < n :=
  Nat.div_lt_of_lt_mul (by rwa [Nat.mul_comm] at h)

section Comps

variable {B : List (List α)} {b : List α} {f Q i : Nat}

theorem set_self_of_getElem? (hb : B[f]? = some b) : B.set f b = B := by
  obtain ⟨hf, rfl⟩ := List.getElem?_eq_some_iff.1 hb
  apply List.ext_getElem (by simp)
  intro j _ _
  by_cases h : f = j
  · subst h; simp
  · simp [List.getElem_set, h]

theorem wr_eq (hb : B[f]? = some b) {off : Nat} (h : off < b.length) (x : α) :
    wr B f off x = some (B.set f (b.set off x)) := by
  simp [wr, hb, h]

theorem wrComps_eq (hb : B[f]? = some b) (hi : i < Q) (v : Nat → α) :
    ∀ n, n * Q ≤ b.length → wrComps B f Q i v n =
      some (B.set f (b.mapIdx fun off x => if off % Q = i ∧ off / Q < n then v (off / Q) else x))
  | 0, _ => by
    simp [wrComps, mapIdx_snd, set_self_of_getElem? hb]
  | n + 1, hn => by
    have hlt : n * Q + i < b.length := by rw [Nat.succ_mul] at hn; omega
    have hf : f < B.length := (List.getElem?_eq_some_iff.1 hb).1
    rw [wrComps, wrComps_eq hb hi v n (le_trans (Nat.mul_le_mul_right _ (by omega)) hn)]
    simp only [Option.bind_eq_bind, Option.some_bind]
    rw [wr_eq (List.getElem?_set_self (by simpa using hf)) (by simpa using hlt), List.set_set]
    congr 2
    apply List.ext_getElem (by simp)
    intro off h1 _
    simp only [List.getElem_set, List.getElem_mapIdx, offset_eq_iff hi]
    by_cases h : off % Q = i ∧ off / Q = n
    · simp [h]
    · have : (off % Q = i ∧ off / Q < n + 1) ↔ (off % Q = i ∧ off / Q < n) :=
        ⟨fun ⟨h3, h4⟩ => ⟨h3, by have := fun h5 => h ⟨h3, h5⟩; omega⟩, fun ⟨h3, h4⟩ => ⟨h3, by omega⟩⟩
      simp only [h, if_false, this]

theorem wrComps_eq_of_length (hb : B[f]? = some b) (hi : i < Q) (v : Nat → α) {n : Nat}
    (hn : b.length = n * Q) : wrComps B f Q i v n =
      some (B.set f (b.mapIdx fun off x => if off % Q = i then v (off / Q) else x)) := by
  rw [wrComps_eq hb hi v n hn.ge, List.mapIdx_eq_mapIdx_iff.2]
  intro off h
  simp only [div_lt_of_offset_lt (hn ▸ h), and_true]

/-- The `CeedInt` index `i + Q * c` overflows exactly when the sum does. -/
theorem ceedIndex_eq (i Q c : Nat) :
    ceedIndex i Q c = if i + Q * c < 2 ^ 31 then some (c * Q + i) else none := by
  simp only [ceedIndex, ceedInt]
  split_ifs with h1 h2 h2
  · rw [Option.bind_eq_bind, Option.some_bind, if_pos h2, Nat.mul_comm, Nat.add_comm]
  · rw [Option.bind_eq_bind, Option.some_bind, if_neg h2]
  · omega
  · rfl

variable [Zero α]

theorem rd_eq (hb : B[f]? = some b) {off : Nat} (h : off < b.length) :
    rd B f off = some (b.getD off 0) := by
  simp [rd, hb, List.getD_eq_getElem _ _ h, h]

end Comps

theorem Shaped.length_eq {ms : List Nat} {Q : Nat} {o : List (List α)} (h : Shaped ms Q o) :
    o.length = ms.length := by
  simpa using congrArg List.length h

theorem Shaped.getElem_length {ms : List Nat} {Q : Nat} {o : List (List α)} (h : Shaped ms Q o)
    {f : Nat} (hf : f < o.length) (hf' : f < ms.length) : o[f].length = ms[f] * Q := by
  have := congrArg (·[f]?) h
  simp [hf, hf'] at this
  exact this

/-- After the points `j < k` of the loop, point `j` holds `w j`. -/
def filledUpTo (Q k : Nat) (w : Nat → Nat → Nat → α) (B : List (List α)) : List (List α) :=
  B.mapIdx fun f b => b.mapIdx fun off x => if off % Q < k then w (off % Q) f (off / Q) else x

theorem shaped_filledUpTo {ms : List Nat} {Q k : Nat} {w : Nat → Nat → Nat → α}
    {o : List (List α)} (h : Shaped ms Q o) : Shaped ms Q (filledUpTo Q k w o) := by
  rw [Shaped, ← h]
  apply List.ext_getElem (by simp [filledUpTo])
  intro f _ _
  simp [filledUpTo]

theorem setPoint_filledUpTo (Q k : Nat) (w : Nat → Nat → Nat → α) (o : List (List α)) :
    setPoint Q k (w k) (filledUpTo Q k w o) = filledUpTo Q (k + 1) w o := by
  apply List.ext_getElem (by simp [setPoint, filledUpTo])
  intro f _ _
  simp only [setPoint, filledUpTo, List.getElem_mapIdx]
  apply List.ext_getElem (by simp)
  intro off _ _
  simp only [List.getElem_mapIdx]
  by_cases h : off % Q = k
  · simp [h]
  · simp only [h, if_false]
    split_ifs <;> first | rfl | omega

/-- The point loop: if the body at every point `i < Q` sets exactly the cells of point `i`
to `w i`, the loop fills every output cell. -/
theorem forPoints_eq {ms : List Nat} {Q : Nat} {w : Nat → Nat → Nat → α}
    {body : Nat → List (List α) → Option (List (List α))}
    (hbody : ∀ i < Q, ∀ o, Shaped ms Q o → body i o = some (setPoint Q i (w i) o))
    {o : List (List α)} (ho : Shaped ms Q o) : forPoints Q body o = some (fillOut ms Q w) := by
  have run : ∀ k ≤ Q, (List.range k).foldlM (fun o i => body i o) o = some (filledUpTo Q k w o) := by
    intro k
    induction k with
    | zero => intro _; simp [filledUpTo, mapIdx_snd]
    | succ k ih =>
      intro hk
      rw [List.range_succ, List.foldlM_append, ih (by omega)]
      simp [hbody k (by omega) _ (shaped_filledUpTo ho), setPoint_filledUpTo]
  rw [forPoints, run Q le_rfl]
  congr 1
  apply List.ext_getElem (by simp [filledUpTo, fillOut, ho.length_eq])
  intro f h1 h2
  simp only [filledUpTo, fillOut, List.getElem_mapIdx]
  apply List.ext_getElem (by simp [ho.getElem_length (by simpa [filledUpTo] using h1) (by simpa [fillOut] using h2)])
  intro off h3 h4
  have hQ : off % Q < Q := Nat.mod_lt _ (by
    rcases Nat.eq_zero_or_pos Q with h | h
    · simp [h] at h4
    · exact h)
  simp [hQ]

section Contract

variable [Zero α]

/-- The inputs at point `i`: component `c` of field `f` is `in[f][c * Q + i]`. -/
def pointView (ins : List (List α)) (Q i f c : Nat) : α := (ins.getD f []).getD (c * Q + i) 0

theorem getD_fillOut {ms : List Nat} {Q : Nat} (w : Nat → Nat → Nat → α) {f : Nat}
    (hf : f < ms.length) {off : Nat} (hoff : off < ms[f] * Q) :
    ((fillOut ms Q w).getD f []).getD off 0 = w (off % Q) f (off / Q) := by
  simp [fillOut, List.getD_eq_getElem?_getD, hf, hoff]

omit [Zero α] in
theorem fillOut_singleton {m Q : Nat} (w : Nat → Nat → Nat → α) :
    fillOut [m] Q w = [(fillOut [m] Q w).getD 0 []] := by
  simp [fillOut]

theorem getD_fillOut_one {Q : Nat} (w : Nat → Nat → Nat → α) {i : Nat} (hi : i < Q) :
    ((fillOut [1] Q w).getD 0 []).getD i 0 = w i 0 0 := by
  rw [getD_fillOut w (by simp) (by simpa using hi), Nat.mod_eq_of_lt hi, Nat.div_eq_of_lt hi]

section Join

variable {ns : List Nat} {Q1 Q2 : Nat} {b1 b2 : List (List α)}

end Join

end Contract

end Ceed

import CeedQFunction.Spec.NeoHookean

/-! `log1p_series_shifted` against the real logarithm. The range reduction keeps the
argument above `-1` on every branch, and for `√2/4 < 1 + x < 2√2` it lands in
`[√2/2 - 1, √2 - 1]`, where `y = x / (2 + x)` has `|y| < 0.172` and the four-term `atanh`
series is within `3.1e-8` of `log (1 + x)`. -/

namespace Ceed

open Finset

section Reduction

variable {α : Type*} [LinearOrderedField α] (sqrt log : α → α) {x : α}

/-- The series part of `log1p_series_shifted`: `y + y³/3 + y⁵/5 + y⁷/7`. -/
def atanhSeries (y : α) : α := y + y ^ 3 / 3 + y ^ 5 / 5 + y ^ 7 / 7

theorem log1pSeriesShifted_eq (x : α) :
    log1pSeriesShifted sqrt log x =
      2 * (log1pShift sqrt log x).1 +
        2 * atanhSeries ((log1pShift sqrt log x).2 / (2 + (log1pShift sqrt log x).2)) := by
  simp only [log1pSeriesShifted, atanhSeries]; ring

theorem log1pShift_cases (x : α) :
    (x < sqrt 2 / 2 - 1 ∧ log1pShift sqrt log x = (0 - log 2 / 2, 1 + 2 * x)) ∨
      (sqrt 2 / 2 - 1 ≤ x ∧ sqrt 2 - 1 < x ∧ log1pShift sqrt log x = (0 + log 2 / 2, (x - 1) / 2)) ∨
      (sqrt 2 / 2 - 1 ≤ x ∧ x ≤ sqrt 2 - 1 ∧ log1pShift sqrt log x = (0, x)) := by
  simp only [log1pShift]
  split_ifs with h1 h2
  · exact .inl ⟨h1, rfl⟩
  · exact .inr (.inl ⟨not_lt.1 h1, h2, rfl⟩)
  · exact .inr (.inr ⟨not_lt.1 h1, not_lt.1 h2, rfl⟩)

theorem neg_one_lt_log1pShift (hx : -1 < x) : -1 < (log1pShift sqrt log x).2 := by
  rcases log1pShift_cases sqrt log x with ⟨-, h⟩ | ⟨-, -, h⟩ | ⟨-, -, h⟩ <;> rw [h] <;> dsimp only
  · linarith only [hx]
  · linarith only [hx]
  · exact hx

end Reduction

section Real

open Real

theorem sqrt_two_gt : (1414 / 1000 : ℝ) < √2 := by
  rw [lt_sqrt (by norm_num)]; norm_num

theorem sqrt_two_lt : √2 < (14143 / 10000 : ℝ) := by
  rw [sqrt_lt' (by norm_num)]; norm_num

theorem log_one_add_eq_shift {x : ℝ} (hx : -1 < x) :
    log (1 + x) = 2 * (log1pShift sqrt log x).1 + log (1 + (log1pShift sqrt log x).2) := by
  rcases log1pShift_cases sqrt log x with ⟨-, e⟩ | ⟨-, -, e⟩ | ⟨-, -, e⟩ <;> rw [e] <;> dsimp only
  · rw [show 1 + (1 + 2 * x) = 2 * (1 + x) by ring, log_mul two_ne_zero (by linarith)]; ring
  · rw [show 1 + (x - 1) / 2 = (1 + x) / 2 by ring, log_div (by linarith) two_ne_zero]; ring
  · ring

theorem log1pShift_range {x : ℝ} (hlo : √2 / 4 < 1 + x) (hhi : 1 + x < 2 * √2) :
    √2 / 2 - 1 ≤ (log1pShift sqrt log x).2 ∧ (log1pShift sqrt log x).2 ≤ √2 - 1 := by
  have h2 := sqrt_two_gt
  rcases log1pShift_cases sqrt log x with ⟨h, e⟩ | ⟨-, h, e⟩ | ⟨h, h', e⟩ <;> rw [e] <;> dsimp only
  · constructor <;> linarith only [hlo, h, h2]
  · constructor <;> linarith only [hhi, h, h2]
  · exact ⟨h, h'⟩

theorem log_sub_log_reduced {r : ℝ} (hr : -1 < r) :
    log (1 + r / (2 + r)) - log (1 - r / (2 + r)) = log (1 + r) := by
  have hpos : 0 < 2 + r := by linarith
  rw [show 1 + r / (2 + r) = (1 + r) * (2 / (2 + r)) by field_simp; ring,
    show 1 - r / (2 + r) = 2 / (2 + r) by field_simp,
    log_mul (by linarith) (div_pos two_pos hpos).ne', add_sub_cancel_right]

theorem sum_range_four_atanh (y : ℝ) :
    ∑ i ∈ range 4, (2 : ℝ) * (1 / (2 * (i : ℝ) + 1)) * y ^ (2 * i + 1) = 2 * atanhSeries y := by
  simp [sum_range_succ, atanhSeries]; ring

theorem atanhSeries_error {y : ℝ} (hy : |y| < 1) :
    |(log (1 + y) - log (1 - y)) - 2 * atanhSeries y| ≤ 2 / 9 * |y| ^ 9 * (1 - y ^ 2)⁻¹ := by
  set f := fun k : ℕ => (2 : ℝ) * (1 / (2 * k + 1)) * y ^ (2 * k + 1)
  have htail := (hasSum_nat_add_iff' 4).2 (hasSum_log_sub_log_of_abs_lt_one hy)
  rw [sum_range_four_atanh y] at htail
  have hy2 : y ^ 2 < 1 := (sq_lt_one_iff_abs_lt_one y).2 hy
  have hg := (hasSum_geometric_of_lt_one (sq_nonneg y) hy2).mul_left (2 / 9 * |y| ^ 9)
  have hterm : ∀ n, |f (n + 4)| ≤ 2 / 9 * |y| ^ 9 * (y ^ 2) ^ n := fun n => by
    have hpow : |y ^ (2 * (n + 4) + 1)| = |y| ^ 9 * (y ^ 2) ^ n := by
      rw [abs_pow, ← sq_abs y, ← pow_mul, ← pow_add]; ring_nf
    have hd : (9 : ℝ) ≤ 2 * ((n + 4 : ℕ) : ℝ) + 1 := by push_cast; linarith [n.cast_nonneg (α := ℝ)]
    simp only [f, abs_mul, hpow, abs_of_pos (show (0 : ℝ) < 2 by norm_num), one_div,
      abs_inv, abs_of_pos (show (0 : ℝ) < 2 * ((n + 4 : ℕ) : ℝ) + 1 by linarith)]
    have hp : 0 ≤ |y| ^ 9 * (y ^ 2) ^ n := by positivity
    calc 2 * (2 * ((n + 4 : ℕ) : ℝ) + 1)⁻¹ * (|y| ^ 9 * (y ^ 2) ^ n)
        ≤ 2 * 9⁻¹ * (|y| ^ 9 * (y ^ 2) ^ n) := by gcongr
      _ = 2 / 9 * |y| ^ 9 * (y ^ 2) ^ n := by ring
  rw [abs_le]
  exact ⟨by linarith only [hasSum_le (fun n => neg_le_of_abs_le (hterm n)) hg.neg htail],
    hasSum_le (fun n => le_of_abs_le (hterm n)) htail hg⟩

theorem abs_reduced_le {x : ℝ} (h1 : √2 / 2 - 1 ≤ x) (h2 : x ≤ √2 - 1) :
    |x / (2 + x)| ≤ 172 / 1000 := by
  have hs := sqrt_two_gt
  have hs' := sqrt_two_lt
  have hpos : 0 < 2 + x := by linarith only [h1, hs]
  rw [abs_le, le_div_iff₀ hpos, div_le_iff₀ hpos]
  constructor <;> linarith only [h1, h2, hs, hs']

/-- `log1p_series_shifted` is within `10⁻⁷` of `log (1 + x)` for `√2/4 < 1 + x < 2√2`. -/
theorem log1pSeriesShifted_error {x : ℝ} (hlo : √2 / 4 < 1 + x) (hhi : 1 + x < 2 * √2) :
    |log1pSeriesShifted sqrt log x - log (1 + x)| ≤ 1 / 10 ^ 7 := by
  have hx : -1 < x := by linarith only [hlo, sqrt_nonneg 2]
  obtain ⟨h1, h2⟩ := log1pShift_range hlo hhi
  have hlog := log_one_add_eq_shift hx
  have hr := neg_one_lt_log1pShift sqrt log hx
  set r := log1pShift sqrt log x
  have hy := abs_reduced_le h1 h2
  rw [← log_sub_log_reduced hr] at hlog
  set y := r.2 / (2 + r.2)
  have hy1 : |y| < 1 := by linarith only [hy]
  have hy2 : y ^ 2 ≤ (172 / 1000) ^ 2 := by
    rw [← sq_abs]; exact pow_le_pow_left₀ (abs_nonneg y) hy 2
  rw [log1pSeriesShifted_eq, hlog]
  calc |2 * r.1 + 2 * atanhSeries y - (2 * r.1 + (log (1 + y) - log (1 - y)))|
      = |(log (1 + y) - log (1 - y)) - 2 * atanhSeries y| := by rw [abs_sub_comm]; congr 1; ring
    _ ≤ 2 / 9 * |y| ^ 9 * (1 - y ^ 2)⁻¹ := atanhSeries_error hy1
    _ ≤ 2 / 9 * (172 / 1000) ^ 9 * (1 - (172 / 1000) ^ 2)⁻¹ := by
      have h9 := pow_le_pow_left₀ (abs_nonneg y) hy 9
      have hinv : (1 - y ^ 2)⁻¹ ≤ (1 - (172 / 1000) ^ 2)⁻¹ :=
        inv_anti₀ (by norm_num) (by linarith only [hy2])
      have : 0 ≤ (1 - y ^ 2)⁻¹ := inv_nonneg.2 (by linarith only [hy2])
      exact mul_le_mul (by linarith only [h9]) hinv this (by norm_num)
    _ ≤ 1 / 10 ^ 7 := by norm_num

theorem log1pSeriesShifted_error_at_zero :
    √2 / 4 < 1 + (0 : ℝ) ∧ 1 + (0 : ℝ) < 2 * √2 ∧
      |log1pSeriesShifted sqrt log 0 - log (1 + 0)| ≤ 1 / 10 ^ 7 :=
  have h1 : √2 / 4 < 1 + (0 : ℝ) := by linarith [sqrt_two_lt]
  have h2 : 1 + (0 : ℝ) < 2 * √2 := by linarith [sqrt_two_gt]
  ⟨h1, h2, log1pSeriesShifted_error h1 h2⟩

/-- For `J > 0` and `-1 < ν < 1/2` the kernels never divide by zero: `1 + ν`, `3 (1 - 2ν)`,
`detC = J²` and the `2 + x` of the series, whose reduced `x` stays above `-1`. -/
theorem divisors_ne_zero (ctx : Physics ℝ) (G : Mat3 ℝ) (hJ : 0 < 1 + computeJM1 G)
    (hnu : -1 < ctx.nu) (hnu' : ctx.nu < 1 / 2) :
    1 + ctx.nu ≠ 0 ∧ 3 * (1 - 2 * ctx.nu) ≠ 0 ∧ (computeJM1 G + 1) * (computeJM1 G + 1) ≠ 0 ∧
      -1 < (log1pShift sqrt log (computeJM1 G)).2 ∧ 1 < 2 + (log1pShift sqrt log (computeJM1 G)).2 := by
  have hx := neg_one_lt_log1pShift sqrt log (show -1 < computeJM1 G by linarith only [hJ])
  have hJ' : computeJM1 G + 1 ≠ 0 := by linarith only [hJ]
  exact ⟨by linarith only [hnu], mul_ne_zero three_ne_zero (by linarith only [hnu']),
    mul_ne_zero hJ' hJ', hx, by linarith only [hx]⟩

/-- `ν = 1/4` and the stretch `diag(1/10, 0, 0)`, where `J = 11/10`. -/
theorem divisors_ne_zero_stretch :
    (0 : ℝ) < 1 + computeJM1 !![(1 : ℝ) / 10, 0, 0; 0, 0, 0; 0, 0, 0] ∧
      -1 < (1 / 4 : ℝ) ∧ (1 / 4 : ℝ) < 1 / 2 ∧
      1 + (1 / 4 : ℝ) ≠ 0 ∧ 3 * (1 - 2 * (1 / 4 : ℝ)) ≠ 0 ∧
      (computeJM1 !![(1 : ℝ) / 10, 0, 0; 0, 0, 0; 0, 0, 0] + 1) *
        (computeJM1 !![(1 : ℝ) / 10, 0, 0; 0, 0, 0; 0, 0, 0] + 1) ≠ 0 ∧
      -1 < (log1pShift sqrt log (computeJM1 !![(1 : ℝ) / 10, 0, 0; 0, 0, 0; 0, 0, 0])).2 ∧
      1 < 2 + (log1pShift sqrt log (computeJM1 !![(1 : ℝ) / 10, 0, 0; 0, 0, 0; 0, 0, 0])).2 :=
  have h0 : (0 : ℝ) < 1 + computeJM1 !![(1 : ℝ) / 10, 0, 0; 0, 0, 0; 0, 0, 0] := by
    norm_num [computeJM1, Matrix.vecHead, Matrix.vecTail]
  ⟨h0, by norm_num, by norm_num, divisors_ne_zero ⟨1 / 4, 1⟩ _ h0 (by norm_num) (by norm_num)⟩

/-! The series against `J^(2/3)`: on every branch `1 + (2/3) log1p_series_shifted(x)` stays
below `(1 + x)^(2/3)`, stated cubed. Where the reduced `y` is `≥ 0` the truncated series is
below `log (1 + x)`, and `1 + (2/3) log J ≤ J^(2/3)`; where `y < 0` the series is below `y`
and a cubic in `y` does the rest, branch by branch. -/

theorem pow_three_le {a b : ℝ} (h : a ≤ b) : a ^ 3 ≤ b ^ 3 :=
  (Odd.strictMono_pow (by decide : Odd 3)).monotone h

theorem le_of_pow_three_le {a b : ℝ} (h : a ^ 3 ≤ b ^ 3) : a ≤ b :=
  not_lt.1 fun hba => (Odd.strictMono_pow (by decide : Odd 3) hba).not_le h

theorem two_atanhSeries_le {y : ℝ} (h0 : 0 ≤ y) (h1 : y < 1) :
    2 * atanhSeries y ≤ log (1 + y) - log (1 - y) := by
  rw [← sum_range_four_atanh]
  exact sum_le_hasSum _ (fun i _ => by positivity)
    (hasSum_log_sub_log_of_abs_lt_one (abs_lt.2 ⟨by linarith, h1⟩))

theorem atanhSeries_le_self {y : ℝ} (hy : y ≤ 0) : atanhSeries y ≤ y := by
  have h3 := Odd.pow_nonpos (by decide : Odd 3) hy
  have h5 := Odd.pow_nonpos (by decide : Odd 5) hy
  have h7 := Odd.pow_nonpos (by decide : Odd 7) hy
  simp only [atanhSeries]; linarith

theorem cube_one_add_log_le {J : ℝ} (hJ : 0 < J) : (1 + 2 / 3 * log J) ^ 3 ≤ J ^ 2 :=
  calc (1 + 2 / 3 * log J) ^ 3 ≤ exp (2 / 3 * log J) ^ 3 :=
        pow_three_le (by linarith [add_one_le_exp (2 / 3 * log J)])
    _ = J ^ 2 := by
        rw [← exp_nat_mul, show ((3 : ℕ) : ℝ) * (2 / 3 * log J) = (2 : ℕ) * log J by push_cast; ring,
          exp_nat_mul, exp_log hJ]

theorem one_add_mul_one_sub_reduced {r : ℝ} (h : 2 + r ≠ 0) :
    (1 + r) * (1 - r / (2 + r)) = 1 + r / (2 + r) := by
  field_simp; ring

theorem cube_le_sq_of_reduced {s J c y : ℝ} (hy : y < 1) (hJ : J * (1 - y) = c * (1 + y))
    (hp : s ^ 3 * (1 - y) ^ 2 ≤ (c * (1 + y)) ^ 2) : s ^ 3 ≤ J ^ 2 := by
  rw [← hJ, mul_pow] at hp
  exact le_of_mul_le_mul_right hp (pow_pos (by linarith) 2)

theorem cube_reduced_mid {s y : ℝ} (hs : s ≤ 1 + 4 / 3 * y) (h1 : -(172 / 1000) ≤ y) (h2 : y ≤ 0) :
    s ^ 3 * (1 - y) ^ 2 ≤ (1 * (1 + y)) ^ 2 := by
  have hg : 0 ≤ 8 / 3 + 116 / 27 * y - 16 / 27 * y ^ 2 - 64 / 27 * y ^ 3 := by
    linear_combination 16 / 27 * mul_nonneg (sub_nonneg.2 h1) (neg_nonneg.2 h2) +
      64 / 27 * mul_nonneg (mul_nonneg (neg_nonneg.2 h2) (neg_nonneg.2 h2)) (neg_nonneg.2 h2) +
      118752 / 27000 * h1
  have hb : (1 + 4 / 3 * y) ^ 3 * (1 - y) ^ 2 ≤ (1 * (1 + y)) ^ 2 := by
    linear_combination mul_nonneg (sq_nonneg y) hg
  exact (mul_le_mul_of_nonneg_right (pow_three_le hs) (sq_nonneg _)).trans hb

theorem cube_reduced_right {s y : ℝ} (hs : s ≤ 1 + 2 / 3 * (7 / 10 + 2 * y))
    (h1 : -(172 / 1000) ≤ y) (h2 : y ≤ 0) : s ^ 3 * (1 - y) ^ 2 ≤ (2 * (1 + y)) ^ 2 := by
  have hb : (1 + 2 / 3 * (7 / 10 + 2 * y)) ^ 3 * (1 - y) ^ 2 ≤ (2 * (1 + y)) ^ 2 := by
    nlinarith only [h1, h2, mul_nonneg (sub_nonneg.2 h1) (neg_nonneg.2 h2),
      mul_nonneg (mul_nonneg (sub_nonneg.2 h1) (neg_nonneg.2 h2)) (neg_nonneg.2 h2),
      mul_nonneg (mul_nonneg (sub_nonneg.2 h1) (sub_nonneg.2 h1)) (neg_nonneg.2 h2)]
  exact (mul_le_mul_of_nonneg_right (pow_three_le hs) (sq_nonneg _)).trans hb

theorem cube_reduced_left {s y : ℝ} (hs : s ≤ 1 + 2 / 3 * (-(69 / 100) + 2 * y)) (h2 : y ≤ 0) :
    s ^ 3 * (1 - y) ^ 2 ≤ (1 / 2 * (1 + y)) ^ 2 := by
  refine (mul_le_mul_of_nonneg_right (pow_three_le hs) (sq_nonneg _)).trans ?_
  generalize hb : 1 + 2 / 3 * (-(69 / 100) + 2 * y) = b
  rcases le_total b 0 with h0 | h0
  · exact (mul_nonpos_of_nonpos_of_nonneg (Odd.pow_nonpos (by decide) h0) (sq_nonneg _)).trans
      (sq_nonneg _)
  · have hb1 : b ≤ 54 / 100 := by linarith only [hb, h2]
    have hb2 : b * b ≤ (54 / 100) ^ 2 := by
      rw [sq]; exact mul_le_mul hb1 hb1 h0 (by norm_num)
    calc b ^ 3 * (1 - y) ^ 2 ≤ (54 / 100) ^ 2 * b * (1 - y) ^ 2 := by
          refine mul_le_mul_of_nonneg_right ?_ (sq_nonneg _)
          linarith only [mul_le_mul_of_nonneg_left hb2 h0]
      _ ≤ (1 / 2 * (1 + y)) ^ 2 := by
          subst hb
          linarith only [h2, sq_nonneg (y + 49 / 200),
            mul_nonneg (mul_nonneg (neg_nonneg.2 h2) (neg_nonneg.2 h2)) (neg_nonneg.2 h2)]

theorem log1pSeriesShifted_zero : log1pSeriesShifted sqrt log (0 : ℝ) = 0 := by
  rw [log1pSeriesShifted_eq]
  rcases log1pShift_cases sqrt log (0 : ℝ) with ⟨h, -⟩ | ⟨-, h, -⟩ | ⟨-, -, e⟩
  · linarith only [h, sqrt_two_lt]
  · linarith only [h, sqrt_two_gt]
  · rw [e]; simp [atanhSeries]

theorem atanhSeries_strictMono : StrictMono (atanhSeries (α := ℝ)) := fun a b h => by
  have h3 : a ^ 3 < b ^ 3 := Odd.strictMono_pow (by decide) h
  have h5 : a ^ 5 < b ^ 5 := Odd.strictMono_pow (by decide) h
  have h7 : a ^ 7 < b ^ 7 := Odd.strictMono_pow (by decide) h
  simp only [atanhSeries]; linarith only [h, h3, h5, h7]

theorem atanhSeries_lt_three_tenths {y : ℝ} (hy : y < 1 / 5) : atanhSeries y < 3 / 10 :=
  (atanhSeries_strictMono hy).trans (by norm_num [atanhSeries])

/-- For every `x > -1`, `log1p_series_shifted(x)` has the sign of `x`, also outside the
range where it is accurate. -/
theorem log1pSeriesShifted_sign {x : ℝ} (hx : -1 < x) :
    (0 < log1pSeriesShifted sqrt log x ↔ 0 < x) ∧ (log1pSeriesShifted sqrt log x < 0 ↔ x < 0) := by
  have hl : (69 / 100 : ℝ) < log 2 := by linarith only [log_two_gt_d9]
  rw [log1pSeriesShifted_eq]
  rcases log1pShift_cases sqrt log x with ⟨h, e⟩ | ⟨-, h, e⟩ | ⟨h1, h2, e⟩ <;> rw [e] <;> dsimp only
  · have hx0 : x < 0 := by linarith only [h, sqrt_two_lt]
    have hy : (1 + 2 * x) / (2 + (1 + 2 * x)) < 1 / 5 := by
      rw [div_lt_iff₀ (by linarith only [hx])]; linarith only [h, sqrt_two_lt]
    have hv : 2 * (0 - log 2 / 2) + 2 * atanhSeries ((1 + 2 * x) / (2 + (1 + 2 * x))) < 0 := by
      linarith only [hl, atanhSeries_lt_three_tenths hy]
    exact ⟨iff_of_false hv.le.not_lt hx0.not_lt, iff_of_true hv hx0⟩
  · have hx0 : 0 < x := by linarith only [h, sqrt_two_gt]
    have hy : -((x - 1) / 2 / (2 + (x - 1) / 2)) < 1 / 5 := by
      rw [← neg_div, div_lt_iff₀ (by linarith only [hx])]; linarith only [h, sqrt_two_gt]
    have hodd : atanhSeries (-((x - 1) / 2 / (2 + (x - 1) / 2))) =
        -atanhSeries ((x - 1) / 2 / (2 + (x - 1) / 2)) := by simp only [atanhSeries]; ring
    have hv : 0 < 2 * (0 + log 2 / 2) + 2 * atanhSeries ((x - 1) / 2 / (2 + (x - 1) / 2)) := by
      linarith only [hl, atanhSeries_lt_three_tenths hy, hodd]
    exact ⟨iff_of_true hv hx0, iff_of_false hv.le.not_lt hx0.not_lt⟩
  · have h0 : atanhSeries (0 : ℝ) = 0 := by simp [atanhSeries]
    have hpos : 0 < 2 + x := by linarith only [hx]
    have hm := atanhSeries_strictMono.lt_iff_lt (a := 0) (b := x / (2 + x))
    have hm' := atanhSeries_strictMono.lt_iff_lt (a := x / (2 + x)) (b := 0)
    rw [h0, lt_div_iff₀ hpos, zero_mul] at hm
    rw [h0, div_lt_iff₀ hpos, zero_mul] at hm'
    rw [mul_zero, zero_add, mul_pos_iff_of_pos_left two_pos, hm]
    exact ⟨Iff.rfl, fun h => hm'.1 (neg_of_mul_neg_right h two_pos.le),
      fun h => mul_neg_of_pos_of_neg two_pos (hm'.2 h)⟩

/-- For every `x > -1`, `(1 + (2/3) log1p_series_shifted(x))³ ≤ (1 + x)²`: the series never
exceeds `(3/2)((1 + x)^(2/3) - 1)`. -/
theorem cube_log1pSeriesShifted_le {x : ℝ} (hx : -1 < x) :
    (1 + 2 / 3 * log1pSeriesShifted sqrt log x) ^ 3 ≤ (1 + x) ^ 2 := by
  have hr := neg_one_lt_log1pShift sqrt log hx
  have hpos : 0 < 2 + (log1pShift sqrt log x).2 := by linarith only [hr]
  have hy1 : (log1pShift sqrt log x).2 / (2 + (log1pShift sqrt log x).2) < 1 := by
    rw [div_lt_one hpos]; linarith only
  rcases le_or_lt 0 ((log1pShift sqrt log x).2 / (2 + (log1pShift sqrt log x).2)) with hy | hy
  · have h := two_atanhSeries_le hy hy1
    rw [log_sub_log_reduced hr] at h
    refine (pow_three_le ?_).trans (cube_one_add_log_le (by linarith only [hx]))
    rw [log1pSeriesShifted_eq, log_one_add_eq_shift hx]
    linarith only [h]
  · have hA := atanhSeries_le_self hy.le
    have hJ := one_add_mul_one_sub_reduced hpos.ne'
    have hl : (69 / 100 : ℝ) < log 2 ∧ log 2 < 7 / 10 :=
      ⟨by linarith only [log_two_gt_d9], by linarith only [log_two_lt_d9]⟩
    rw [log1pSeriesShifted_eq]
    rcases log1pShift_cases sqrt log x with ⟨-, e⟩ | ⟨-, h, e⟩ | ⟨h1, h2, e⟩ <;>
      rw [e] at hy hy1 hA hJ hpos ⊢ <;> dsimp only at hy hy1 hA hJ hpos ⊢
    · exact cube_le_sq_of_reduced hy1 (by linear_combination hJ / 2)
        (cube_reduced_left (by linarith only [hA, hl.1]) hy.le)
    · have hy' : -(172 / 1000) ≤ (x - 1) / 2 / (2 + (x - 1) / 2) := by
        rw [le_div_iff₀ hpos]; linarith only [h, sqrt_two_gt]
      exact cube_le_sq_of_reduced hy1 (by linear_combination 2 * hJ)
        (cube_reduced_right (by linarith only [hA, hl.2]) hy' hy.le)
    · exact cube_le_sq_of_reduced hy1 (by linear_combination hJ)
        (cube_reduced_mid (by linarith only [hA]) (abs_le.1 (abs_reduced_le h1 h2)).1 hy.le)

end Real

end Ceed

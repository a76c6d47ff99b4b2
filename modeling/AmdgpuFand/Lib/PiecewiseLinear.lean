import AmdgpuFand.Lib.Rounding
import Mathlib.Order.Interval.Finset.Nat
import Mathlib.Data.Nat.Count
import Mathlib.Tactic.GCongr

/-!
# Rounded piecewise-linear curves

A table of knots with values, read as a function of the integers: constant below
the first knot and above the last, linearly interpolated and rounded to an
integer in between. The table's order is carried by the structure `Curve`, so
everything below holds of every curve that can be built.

The position of an argument among the knots is its `rank`, the number of knots
strictly below it; on an ordered table the knots below `t` are exactly the first
`rank t` ones (`lt_rank_iff`). All bounds then come from two facts, that a curve
dominates the value of a knot it has passed (`Curve.value_le_eval`) and is dominated
by the value of a knot it has not (`Curve.eval_le_value`).
-/

namespace PiecewiseLinear

open Rounding

/-! ## The rank of an argument among the knots -/

/-- How many of the first `n` knots lie strictly below `t`. -/
def rank (knot : ℕ → ℤ) (n : ℕ) (t : ℤ) : ℕ := Nat.count (fun i => knot i < t) n

theorem rank_le (knot : ℕ → ℤ) (n : ℕ) (t : ℤ) : rank knot n t ≤ n := Nat.count_le _

/-- On an ordered table, the knots below `t` are the first `rank` ones. -/
theorem lt_rank_iff {knot : ℕ → ℤ} {t : ℤ} :
    ∀ {n : ℕ}, (∀ i j, i ≤ j → j < n → knot i ≤ knot j) →
      ∀ {i : ℕ}, i < n → (i < rank knot n t ↔ knot i < t) := by
  intro n
  induction n with
  | zero => intro _ i hi; omega
  | succ n ih =>
    intro hmono i hi
    have ih' := @ih (fun i j hij hj => hmono i j hij (by omega))
    have hle : rank knot n t ≤ n := rank_le knot n t
    have hsucc : rank knot (n + 1) t = rank knot n t + if knot n < t then 1 else 0 :=
      Nat.count_succ ..
    by_cases hn : knot n < t
    · -- the last knot is below, hence all of them are
      have hall : n ≤ rank knot n t := by
        by_contra hlt
        have := hmono (rank knot n t) n (by omega) (by omega)
        exact absurd ((ih' (by omega)).mpr (by omega)) (lt_irrefl _)
      rw [hsucc, if_pos hn]
      have := hmono i n (by omega) (by omega)
      constructor <;> intro _ <;> omega
    · rw [hsucc, if_neg hn, Nat.add_zero]
      rcases Nat.lt_succ_iff_lt_or_eq.mp hi with hlt | rfl
      · exact ih' hlt
      · constructor <;> intro _ <;> omega

/-! ## Curves -/

/-- An ordered, non-empty table: knots and values both non-decreasing, and a
value below the first knot that does not exceed the first value. -/
structure Curve where
  /-- number of knots -/
  rows : ℕ
  /-- position of the `i`-th knot -/
  knot : ℕ → ℤ
  /-- value at the `i`-th knot -/
  value : ℕ → ℤ
  /-- value at and below the first knot -/
  low : ℤ
  /-- there is a knot -/
  rows_pos : 0 < rows
  /-- knots are ordered -/
  knot_mono : ∀ i j, i ≤ j → j < rows → knot i ≤ knot j
  /-- values are ordered -/
  value_mono : ∀ i j, i ≤ j → j < rows → value i ≤ value j
  /-- the curve starts low -/
  low_le : low ≤ value 0

namespace Curve

variable (C : Curve)

/-- The line through knots `i` and `i + 1`. -/
def line (i : ℕ) (t : ℤ) : ℚ :=
  C.value i + (C.value (i + 1) - C.value i) * (t - C.knot i) / (C.knot (i + 1) - C.knot i)

/-- The curve: `low` up to the first knot, the last value beyond the last knot,
the rounded line through the surrounding knots in between. -/
def eval (t : ℤ) : ℤ :=
  match rank C.knot C.rows t with
  | 0 => C.low
  | i + 1 => if i + 1 = C.rows then C.value i else halfAway (C.line i t)

variable {C} {i : ℕ} {t u : ℤ}

theorem lt_rank (hi : i < C.rows) : i < rank C.knot C.rows t ↔ C.knot i < t :=
  lt_rank_iff C.knot_mono hi

theorem eval_of_le (h : t ≤ C.knot 0) : C.eval t = C.low := by
  have : ¬ 0 < rank C.knot C.rows t := by
    rw [lt_rank C.rows_pos]
    omega
  rw [eval, Nat.eq_zero_of_not_pos this]

theorem eval_of_gt (h : C.knot (C.rows - 1) < t) : C.eval t = C.value (C.rows - 1) := by
  have hpos := C.rows_pos
  have hlast := (lt_rank (by omega)).mpr h
  have hle := rank_le C.knot C.rows t
  have hrank : rank C.knot C.rows t = (C.rows - 1) + 1 := by omega
  rw [eval, hrank]
  exact if_pos (by omega)

theorem eval_of_mem (hi : i + 1 < C.rows) (hlo : C.knot i < t) (hhi : t ≤ C.knot (i + 1)) :
    C.eval t = halfAway (C.line i t) := by
  have h₁ := (lt_rank (by omega)).mpr hlo
  have h₂ : ¬ i + 1 < rank C.knot C.rows t := by
    rw [lt_rank hi]
    omega
  have hrank : rank C.knot C.rows t = i + 1 := by omega
  rw [eval, hrank]
  exact if_neg (by omega)

/-- Every argument falls in one of the three regions. -/
theorem regions (C : Curve) (t : ℤ) :
    t ≤ C.knot 0 ∨ (∃ i, i + 1 < C.rows ∧ C.knot i < t ∧ t ≤ C.knot (i + 1)) ∨
      C.knot (C.rows - 1) < t := by
  have hpos := C.rows_pos
  have hle := rank_le C.knot C.rows t
  rcases hr : rank C.knot C.rows t with _ | i
  · left
    have := (lt_rank (C := C) (t := t) hpos).not.mp (by omega)
    omega
  · right
    have hlo := (lt_rank (C := C) (i := i) (t := t) (by omega)).mp (by omega)
    by_cases hlast : i + 1 = C.rows
    · right
      rwa [← hlast, Nat.add_sub_cancel]
    · left
      have := (lt_rank (C := C) (i := i + 1) (t := t) (by omega)).not.mp (by omega)
      exact ⟨i, by omega, hlo, by omega⟩

theorem line_mono (hi : i + 1 < C.rows) (htu : t ≤ u) : C.line i t ≤ C.line i u := by
  have hv : (C.value i : ℚ) ≤ C.value (i + 1) := by
    exact_mod_cast C.value_mono i (i + 1) (by omega) hi
  have hk : (C.knot i : ℚ) ≤ C.knot (i + 1) := by
    exact_mod_cast C.knot_mono i (i + 1) (by omega) hi
  have htu' : (t : ℚ) ≤ u := by exact_mod_cast htu
  unfold line
  have h₁ : (0 : ℚ) ≤ C.value (i + 1) - C.value i := by linarith
  have h₂ : (0 : ℚ) ≤ C.knot (i + 1) - C.knot i := by linarith
  gcongr

theorem line_left : C.line i (C.knot i) = C.value i := by
  simp [line]

theorem line_right (h : C.knot i < C.knot (i + 1)) :
    C.line i (C.knot (i + 1)) = C.value (i + 1) := by
  have : (C.knot (i + 1) : ℚ) - C.knot i ≠ 0 := by
    have : (C.knot i : ℚ) < C.knot (i + 1) := by exact_mod_cast h
    linarith
  rw [line, mul_div_assoc, div_self this]
  ring

theorem value_le_halfAway_line (hi : i + 1 < C.rows) (h : C.knot i ≤ t) :
    C.value i ≤ halfAway (C.line i t) := by
  apply le_halfAway
  rw [← line_left]
  exact line_mono hi h

theorem halfAway_line_le_value (hi : i + 1 < C.rows) (hlo : C.knot i < t)
    (hhi : t ≤ C.knot (i + 1)) : halfAway (C.line i t) ≤ C.value (i + 1) := by
  apply halfAway_le
  rw [← line_right (lt_of_lt_of_le hlo hhi)]
  exact line_mono hi hhi

/-- A curve dominates the value of every knot it has passed. -/
theorem value_le_eval (hi : i < C.rows) (h : C.knot i < t) : C.value i ≤ C.eval t := by
  rcases C.regions t with hle | ⟨j, hj, hlo, hhi⟩ | hgt
  · have := C.knot_mono 0 i (by omega) hi
    omega
  · rw [eval_of_mem hj hlo hhi]
    have hij : i ≤ j := by
      by_contra hlt
      have := C.knot_mono (j + 1) i (by omega) hi
      omega
    exact le_trans (C.value_mono i j hij (by omega)) (value_le_halfAway_line hj hlo.le)
  · rw [eval_of_gt hgt]
    exact C.value_mono i _ (by omega) (by omega)

/-- A curve is dominated by the value of every knot it has not passed. -/
theorem eval_le_value (hi : i < C.rows) (h : t ≤ C.knot i) : C.eval t ≤ C.value i := by
  rcases C.regions t with hle | ⟨j, hj, hlo, hhi⟩ | hgt
  · rw [eval_of_le hle]
    exact le_trans C.low_le (C.value_mono 0 i (by omega) hi)
  · rw [eval_of_mem hj hlo hhi]
    have hij : j + 1 ≤ i := by
      by_contra hlt
      have := C.knot_mono i j (by omega) (by omega)
      omega
    exact le_trans (halfAway_line_le_value hj hlo hhi) (C.value_mono _ _ hij hi)
  · have := C.knot_mono i (C.rows - 1) (by omega) (by omega)
    omega

theorem low_le_eval (C : Curve) (t : ℤ) : C.low ≤ C.eval t := by
  rcases lt_or_ge (C.knot 0) t with h | h
  · exact le_trans C.low_le (value_le_eval C.rows_pos h)
  · rw [eval_of_le h]

theorem eval_le_last (C : Curve) (t : ℤ) : C.eval t ≤ C.value (C.rows - 1) := by
  have hpos := C.rows_pos
  rcases lt_or_ge (C.knot (C.rows - 1)) t with h | h
  · rw [eval_of_gt h]
  · exact eval_le_value (by omega) h

/-- Curves are monotone, across the joints included. -/
theorem eval_mono (htu : t ≤ u) : C.eval t ≤ C.eval u := by
  have hpos := C.rows_pos
  rcases C.regions t with hle | ⟨j, hj, hlo, hhi⟩ | hgt
  · rw [eval_of_le hle]
    rcases lt_or_ge (C.knot 0) u with hu | hu
    · exact le_trans C.low_le (value_le_eval hpos hu)
    · rw [eval_of_le hu]
  · rcases lt_or_ge (C.knot (j + 1)) u with hu | hu
    · exact le_trans (eval_le_value hj hhi) (value_le_eval hj hu)
    · rw [eval_of_mem hj hlo hhi, eval_of_mem hj (by omega) hu]
      exact halfAway_mono (line_mono hj htu)
  · rw [eval_of_gt hgt, eval_of_gt (lt_of_lt_of_le hgt htu)]

end Curve

end PiecewiseLinear

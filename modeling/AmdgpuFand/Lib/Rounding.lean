import Mathlib.Data.Rat.Floor
import Mathlib.Data.Int.ConditionallyCompleteOrder
import Mathlib.Data.Int.Log
import Mathlib.Tactic.Linarith
import Mathlib.Tactic.Ring
import Mathlib.Tactic.Positivity
import Mathlib.Tactic.NormNum
import Mathlib.Tactic.FieldSimp

/-!
# Rounding: from exact arithmetic to a machine format

Two roundings meet in a program that interpolates in floating point and stores
the result in an integer:

* `halfAway` — C's `round`: to the nearest integer, ties away from zero;
* `FloatFormat.fl` — what one floating-point operation does to its exact result.

Of the second, almost every argument needs only two facts, and these are the
fields of `FloatFormat`: rounding is **monotone**, and **small integers are
exact**. So a bound proved for an arbitrary `FloatFormat` holds of exact rational
arithmetic (`exactArith`) and of IEEE single precision (`binary32`) at once.
-/

namespace Rounding

/-! ## To the nearest integer, ties away from zero -/

/-- C's `round`. -/
def halfAway (q : ℚ) : ℤ :=
  if 0 ≤ q then ⌊q + 1 / 2⌋ else -⌊-q + 1 / 2⌋

theorem halfAway_of_nonneg {q : ℚ} (h : 0 ≤ q) : halfAway q = ⌊q + 1 / 2⌋ :=
  if_pos h

theorem halfAway_neg_le_zero {q : ℚ} (h : q < 0) : halfAway q ≤ 0 := by
  rw [halfAway, if_neg (not_le.mpr h), neg_nonpos]
  apply Int.floor_nonneg.mpr
  linarith

theorem halfAway_nonneg {q : ℚ} (h : 0 ≤ q) : 0 ≤ halfAway q := by
  rw [halfAway_of_nonneg h]
  apply Int.floor_nonneg.mpr
  linarith

theorem halfAway_mono : Monotone halfAway := by
  intro p q hpq
  rcases lt_or_ge p 0 with hp | hp
  · rcases lt_or_ge q 0 with hq | hq
    · rw [halfAway, halfAway, if_neg (not_le.mpr hp), if_neg (not_le.mpr hq)]
      have : ⌊-q + 1 / 2⌋ ≤ ⌊-p + 1 / 2⌋ := Int.floor_le_floor (by linarith)
      omega
    · exact le_trans (halfAway_neg_le_zero hp) (halfAway_nonneg hq)
  · have hq : 0 ≤ q := le_trans hp hpq
    rw [halfAway_of_nonneg hp, halfAway_of_nonneg hq]
    exact Int.floor_le_floor (by linarith)

@[simp] theorem halfAway_intCast (n : ℤ) : halfAway n = n := by
  have hhalf : ∀ m : ℤ, ⌊(m : ℚ) + 1 / 2⌋ = m := by
    intro m
    rw [Int.floor_eq_iff]
    constructor <;> linarith
  rcases lt_or_ge n 0 with hn | hn
  · have hn' : ¬ (0 : ℚ) ≤ n := by
      rw [not_le]
      exact_mod_cast hn
    rw [halfAway, if_neg hn']
    have := hhalf (-n)
    push_cast at this
    rw [this, neg_neg]
  · rw [halfAway_of_nonneg (by exact_mod_cast hn), hhalf]

theorem le_halfAway {n : ℤ} {q : ℚ} (h : (n : ℚ) ≤ q) : n ≤ halfAway q := by
  have := halfAway_mono h
  rwa [halfAway_intCast] at this

theorem halfAway_le {n : ℤ} {q : ℚ} (h : q ≤ n) : halfAway q ≤ n := by
  have := halfAway_mono h
  rwa [halfAway_intCast] at this

/-! ## Floating-point formats, abstractly -/

/-- What a floating-point operation does to its exact result: it rounds
monotonically, and it leaves every integer of at most 24 bits alone. -/
structure FloatFormat where
  /-- the value delivered for an exact result -/
  fl : ℚ → ℚ
  /-- rounding keeps the order -/
  mono : Monotone fl
  /-- integers up to `2 ^ 24` are representable -/
  exact_int : ∀ n : ℤ, |n| ≤ 2 ^ 24 → fl n = n

namespace FloatFormat

variable (F : FloatFormat)

theorem fl_nat {n : ℕ} (h : n ≤ 2 ^ 24) : F.fl n = n := by
  have := F.exact_int n (by rw [Nat.abs_cast]; exact_mod_cast h)
  simpa using this

theorem fl_zero : F.fl 0 = 0 := by
  simpa using F.fl_nat (n := 0) (by norm_num)

theorem fl_nonneg {q : ℚ} (h : 0 ≤ q) : 0 ≤ F.fl q := by
  have := F.mono h
  rwa [F.fl_zero] at this

theorem fl_le_nat {q : ℚ} {n : ℕ} (hn : n ≤ 2 ^ 24) (h : q ≤ n) : F.fl q ≤ n := by
  have := F.mono h
  rwa [F.fl_nat hn] at this

theorem nat_le_fl {q : ℚ} {n : ℕ} (hn : n ≤ 2 ^ 24) (h : (n : ℚ) ≤ q) : n ≤ F.fl q := by
  have := F.mono h
  rwa [F.fl_nat hn] at this

end FloatFormat

/-- Exact rational arithmetic: no rounding at all. -/
def exactArith : FloatFormat where
  fl := id
  mono := monotone_id
  exact_int := fun _ _ => rfl

@[simp] theorem exactArith_fl (q : ℚ) : exactArith.fl q = q := rfl

/-! ## IEEE single precision

Round to nearest, ties to even, on a 24-bit significand. The exponent is left
unbounded: overflow and gradual underflow are outside the range the clients
compute in. -/

/-- To the nearest integer, ties to even. -/
def halfEven (q : ℚ) : ℤ :=
  if q - ⌊q⌋ < 1 / 2 then ⌊q⌋
  else if 1 / 2 < q - ⌊q⌋ then ⌊q⌋ + 1
  else if ⌊q⌋ % 2 = 0 then ⌊q⌋ else ⌊q⌋ + 1

theorem floor_le_halfEven (q : ℚ) : ⌊q⌋ ≤ halfEven q := by
  unfold halfEven
  split_ifs <;> omega

theorem halfEven_le_floor_add_one (q : ℚ) : halfEven q ≤ ⌊q⌋ + 1 := by
  unfold halfEven
  split_ifs <;> omega

theorem halfEven_mono : Monotone halfEven := by
  intro p q hpq
  rcases lt_or_ge ⌊p⌋ ⌊q⌋ with hf | hf
  · exact le_trans (halfEven_le_floor_add_one p) (le_trans hf (floor_le_halfEven q))
  · -- same integer part: the fractional parts are ordered, and so are the three cases
    have hfl : ⌊p⌋ = ⌊q⌋ := le_antisymm (Int.floor_le_floor hpq) hf
    unfold halfEven
    rw [hfl]
    split_ifs <;> first | omega | (exfalso; linarith)

theorem halfEven_intCast (n : ℤ) : halfEven n = n := by
  simp [halfEven]

/-- The weight of the last of 24 significand bits of a positive `q`. -/
def ulp (q : ℚ) : ℚ := (2 : ℚ) ^ (Int.log 2 q - 23)

theorem ulp_pos (q : ℚ) : 0 < ulp q := zpow_pos (by norm_num) _

/-- Rounding of a positive number to 24 significand bits. -/
def roundPos (q : ℚ) : ℚ := halfEven (q / ulp q) * ulp q

theorem two_zpow_le_roundPos {q : ℚ} (hq : 0 < q) :
    (2 : ℚ) ^ Int.log 2 q ≤ roundPos q := by
  have hlog : ((2 : ℕ) : ℚ) ^ Int.log 2 q ≤ q := Int.zpow_log_le_self (by norm_num) hq
  have hsplit : (2 : ℚ) ^ Int.log 2 q = ((2 ^ 23 : ℤ) : ℚ) * ulp q := by
    rw [ulp, zpow_sub₀ (by norm_num)]
    norm_num
    ring
  have hle : ((2 ^ 23 : ℤ) : ℚ) ≤ q / ulp q := by
    rw [le_div_iff₀ (ulp_pos q), ← hsplit]
    exact_mod_cast hlog
  have hround : (2 ^ 23 : ℤ) ≤ halfEven (q / ulp q) := by
    have := halfEven_mono hle
    rwa [halfEven_intCast] at this
  rw [hsplit, roundPos]
  exact mul_le_mul_of_nonneg_right (by exact_mod_cast hround) (ulp_pos q).le

theorem roundPos_le_two_zpow (q : ℚ) : roundPos q ≤ (2 : ℚ) ^ (Int.log 2 q + 1) := by
  have hlog : q < ((2 : ℕ) : ℚ) ^ (Int.log 2 q + 1) := Int.lt_zpow_succ_log_self (by norm_num) q
  have hsplit : (2 : ℚ) ^ (Int.log 2 q + 1) = ((2 ^ 24 : ℤ) : ℚ) * ulp q := by
    rw [ulp, zpow_sub₀ (by norm_num), zpow_add₀ (by norm_num)]
    norm_num
    ring
  have hle : q / ulp q ≤ ((2 ^ 24 : ℤ) : ℚ) := by
    rw [div_le_iff₀ (ulp_pos q), ← hsplit]
    exact le_of_lt (by exact_mod_cast hlog)
  have hround : halfEven (q / ulp q) ≤ (2 ^ 24 : ℤ) := by
    have := halfEven_mono hle
    rwa [halfEven_intCast] at this
  rw [hsplit, roundPos]
  exact mul_le_mul_of_nonneg_right (by exact_mod_cast hround) (ulp_pos q).le

theorem roundPos_mono {p q : ℚ} (hp : 0 < p) (hpq : p ≤ q) : roundPos p ≤ roundPos q := by
  have hq : 0 < q := lt_of_lt_of_le hp hpq
  rcases lt_or_ge (Int.log 2 p) (Int.log 2 q) with hlog | hlog
  · -- different binades: a power of two lies between the results
    calc roundPos p ≤ (2 : ℚ) ^ (Int.log 2 p + 1) := roundPos_le_two_zpow p
      _ ≤ (2 : ℚ) ^ Int.log 2 q := zpow_le_zpow_right₀ (by norm_num) hlog
      _ ≤ roundPos q := two_zpow_le_roundPos hq
  · have hsame : ulp p = ulp q := by
      rw [ulp, ulp, le_antisymm (Int.log_mono_right hp hpq) hlog]
    rw [roundPos, roundPos, hsame]
    refine mul_le_mul_of_nonneg_right ?_ (ulp_pos q).le
    exact_mod_cast halfEven_mono (div_le_div_of_nonneg_right hpq (ulp_pos q).le)

theorem roundPos_pos {q : ℚ} (hq : 0 < q) : 0 < roundPos q :=
  lt_of_lt_of_le (zpow_pos (by norm_num) _) (two_zpow_le_roundPos hq)

/-- A natural number of at most 24 bits is an integral multiple of its `ulp`. -/
theorem roundPos_natCast {n : ℕ} (hpos : 0 < n) (hn : n ≤ 2 ^ 24) : roundPos n = n := by
  have hmul : ∃ m : ℤ, (n : ℚ) / ulp n = m := by
    have hlog : Int.log 2 (n : ℚ) = Nat.log 2 n := Int.log_natCast 2 n
    rcases Nat.lt_or_ge (Nat.log 2 n) 24 with hlt | hge
    · refine ⟨n * 2 ^ (23 - Nat.log 2 n), ?_⟩
      have : ulp (n : ℚ) = ((2 : ℚ) ^ (23 - Nat.log 2 n))⁻¹ := by
        rw [ulp, hlog, ← zpow_natCast, ← zpow_neg]
        congr 1
        omega
      rw [this, div_inv_eq_mul]
      push_cast
      ring
    · have hn' : n = 2 ^ 24 := by
        have := Nat.pow_le_of_le_log (by omega) hge
        omega
      refine ⟨2 ^ 23, ?_⟩
      rw [ulp, hlog, hn', Nat.log_pow (by norm_num)]
      norm_num
  obtain ⟨m, hm⟩ := hmul
  rw [roundPos, hm, halfEven_intCast, ← hm, div_mul_cancel₀ _ (ulp_pos _).ne']

/-- Rounding to single precision. -/
def round32 (q : ℚ) : ℚ :=
  if q = 0 then 0 else if 0 < q then roundPos q else -roundPos (-q)

theorem round32_of_pos {q : ℚ} (hq : 0 < q) : round32 q = roundPos q := by
  rw [round32, if_neg hq.ne', if_pos hq]

theorem round32_of_neg {q : ℚ} (hq : q < 0) : round32 q = -roundPos (-q) := by
  rw [round32, if_neg hq.ne, if_neg (not_lt.mpr hq.le)]

theorem round32_nonneg {q : ℚ} (hq : 0 ≤ q) : 0 ≤ round32 q := by
  rcases hq.eq_or_lt with rfl | hpos
  · simp [round32]
  · rw [round32_of_pos hpos]
    exact (roundPos_pos hpos).le

theorem round32_mono : Monotone round32 := by
  intro p q hpq
  rcases lt_or_ge p 0 with hp | hp
  · rw [round32_of_neg hp]
    have hp' := roundPos_pos (q := -p) (by linarith)
    rcases lt_or_ge q 0 with hq | hq
    · rw [round32_of_neg hq]
      exact neg_le_neg (roundPos_mono (by linarith) (by linarith))
    · have := round32_nonneg hq
      linarith
  · rcases hp.eq_or_lt with rfl | hpos
    · have : round32 0 = 0 := if_pos rfl
      rw [this]
      exact round32_nonneg hpq
    · rw [round32_of_pos hpos, round32_of_pos (lt_of_lt_of_le hpos hpq)]
      exact roundPos_mono hpos hpq

theorem round32_intCast (n : ℤ) (hn : |n| ≤ 2 ^ 24) : round32 n = n := by
  rcases lt_trichotomy n 0 with h | h | h
  · obtain ⟨m, hm⟩ := Int.eq_ofNat_of_zero_le (a := -n) (by omega)
    have hcast : -(n : ℚ) = (m : ℚ) := by exact_mod_cast hm
    rw [abs_of_neg h] at hn
    rw [round32_of_neg (by exact_mod_cast h), hcast, roundPos_natCast (by omega) (by omega)]
    linarith
  · simp [h, round32]
  · obtain ⟨m, rfl⟩ := Int.eq_ofNat_of_zero_le h.le
    rw [abs_of_pos h] at hn
    rw [round32_of_pos (by exact_mod_cast h)]
    exact_mod_cast roundPos_natCast (by omega) (by omega)

/-- IEEE 754 binary32 with round-to-nearest-even. -/
def binary32 : FloatFormat where
  fl := round32
  mono := round32_mono
  exact_int := round32_intCast

/-- One third has no finite binary expansion; `2 ^ 64 - 20` does not fit 24 bits. -/
example : binary32.fl (1 / 3) = 11184811 / 33554432 ∧
    binary32.fl (2 ^ 64 - 20) = 2 ^ 64 := by
  decide +kernel

end Rounding

import AmdgpuFand.Lib.Rounding

/-!
# How far single precision rounds

`binary32` is monotone and leaves small integers alone, and for bounds that is enough. Where a
program tests a rounded value against a number that the exact value may just reach, it takes more:
rounding goes to the nearest number of 24 bits. Three consequences are proved here.

* an integer of 24 bits times a power of two is left alone (`round32_zpow`);
* the error is at most half a unit in the last place (`abs_round32_sub_le`);
* what is less than half a unit below a number of 24 bits is not rounded to anything less than that
  number (`le_round32_of_near`).

The last two meet in `le_round32_mul`: a fraction that is rounded and multiplied by a natural number
`n` does not fall below `n - 1 / 2` by rounding.
-/

namespace Rounding

/-! ## To the nearest integer -/

/-- `round` from at or below an integer -/
theorem halfAway_eq_iff {n : ℤ} {q : ℚ} (hq : 0 ≤ q) (hle : q ≤ n) :
    halfAway q = n ↔ (n : ℚ) - 1 / 2 ≤ q := by
  rw [halfAway_of_nonneg hq, Int.floor_eq_iff]
  refine ⟨?_, ?_⟩
  · rintro ⟨h, -⟩
    linarith
  · intro h
    refine ⟨?_, ?_⟩ <;> linarith

theorem abs_halfEven_sub_le (q : ℚ) : |(halfEven q : ℚ) - q| ≤ 1 / 2 := by
  have hle := Int.floor_le q
  have hlt := Int.lt_floor_add_one q
  rw [abs_le, halfEven]
  split_ifs with hbelow habove
  · refine ⟨?_, ?_⟩ <;> linarith
  · push_cast
    refine ⟨?_, ?_⟩ <;> linarith
  · refine ⟨?_, ?_⟩ <;> linarith
  · push_cast
    refine ⟨?_, ?_⟩ <;> linarith

/-- Above the middle between two integers, the rounding is up. -/
theorem le_halfEven {n : ℤ} {q : ℚ} (h : (n : ℚ) - 1 / 2 < q) : n ≤ halfEven q := by
  rcases le_or_gt n ⌊q⌋ with hn | hn
  · exact hn.trans (floor_le_halfEven q)
  · have hfloor : (⌊q⌋ : ℚ) + 1 ≤ n := by exact_mod_cast hn
    have habove : 1 / 2 < q - ⌊q⌋ := by linarith
    rw [halfEven, if_neg habove.not_gt, if_pos habove]
    have hceil : (n : ℚ) < ⌊q⌋ + 2 := by linarith [Int.lt_floor_add_one q]
    have hint : n < ⌊q⌋ + 2 := by exact_mod_cast hceil
    omega

/-! ## Scaling -/

theorem two_zpow_pos (k : ℤ) : (0 : ℚ) < 2 ^ k := zpow_pos (by norm_num) k

theorem log_mul_zpow {q : ℚ} (hq : 0 < q) (k : ℤ) : Int.log 2 (q * 2 ^ k) = Int.log 2 q + k := by
  have hpos := two_zpow_pos k
  have hscaled : 0 < q * 2 ^ k := mul_pos hq hpos
  have hlow : ((2 : ℕ) : ℚ) ^ Int.log 2 q ≤ q := Int.zpow_log_le_self (by norm_num) hq
  have hhigh : q < ((2 : ℕ) : ℚ) ^ (Int.log 2 q + 1) := Int.lt_zpow_succ_log_self (by norm_num) q
  apply le_antisymm
  · have hlt : q * 2 ^ k < ((2 : ℕ) : ℚ) ^ (Int.log 2 q + k + 1) := by
      rw [add_right_comm, zpow_add₀ (by norm_num)]
      exact mul_lt_mul_of_pos_right hhigh (by exact_mod_cast hpos)
    have := (Int.lt_zpow_iff_log_lt (by norm_num) hscaled).mp hlt
    omega
  · refine (Int.zpow_le_iff_le_log (by norm_num) hscaled).mp ?_
    rw [zpow_add₀ (by norm_num)]
    exact mul_le_mul_of_nonneg_right hlow (by exact_mod_cast hpos.le)

theorem ulp_mul_zpow {q : ℚ} (hq : 0 < q) (k : ℤ) : ulp (q * 2 ^ k) = ulp q * 2 ^ k := by
  rw [ulp, ulp, log_mul_zpow hq, ← zpow_add₀ (by norm_num)]
  congr 1
  ring

theorem roundPos_mul_zpow {q : ℚ} (hq : 0 < q) (k : ℤ) :
    roundPos (q * 2 ^ k) = roundPos q * 2 ^ k := by
  rw [roundPos, roundPos, ulp_mul_zpow hq, mul_div_mul_right _ _ (two_zpow_pos k).ne']
  ring

/-- Numbers of 24 bits are left alone. -/
theorem round32_zpow {n : ℕ} (hn : n ≤ 2 ^ 24) (k : ℤ) : round32 (n * 2 ^ k) = n * 2 ^ k := by
  rcases Nat.eq_zero_or_pos n with rfl | hpos
  · simp [round32]
  · have hn' : (0 : ℚ) < n := by exact_mod_cast hpos
    rw [round32_of_pos (mul_pos hn' (two_zpow_pos k)), roundPos_mul_zpow hn',
      roundPos_natCast hpos hn]

/-! ## The error -/

theorem ulp_le {q : ℚ} (hq : 0 < q) {e : ℤ} (h : q < 2 ^ (e + 1)) : ulp q ≤ 2 ^ (e - 23) := by
  have hlog : Int.log 2 q < e + 1 :=
    (Int.lt_zpow_iff_log_lt (by norm_num) hq).mp (by exact_mod_cast h)
  exact zpow_le_zpow_right₀ (by norm_num) (by omega)

theorem abs_roundPos_sub_le (q : ℚ) : |roundPos q - q| ≤ ulp q / 2 := by
  have hpos := ulp_pos q
  have hsplit : roundPos q - q = (halfEven (q / ulp q) - q / ulp q) * ulp q := by
    rw [roundPos, sub_mul, div_mul_cancel₀ _ hpos.ne']
  rw [hsplit, abs_mul, abs_of_pos hpos]
  calc |(halfEven (q / ulp q) : ℚ) - q / ulp q| * ulp q
      ≤ 1 / 2 * ulp q := mul_le_mul_of_nonneg_right (abs_halfEven_sub_le _) hpos.le
    _ = ulp q / 2 := by ring

/-- The error in a binade -/
theorem abs_round32_sub_le {q : ℚ} (hq : 0 ≤ q) {e : ℤ} (h : q < 2 ^ (e + 1)) :
    |round32 q - q| ≤ 2 ^ (e - 24) := by
  rcases hq.eq_or_lt with rfl | hpos
  · rw [round32, if_pos rfl, sub_zero, abs_zero]
    exact (two_zpow_pos _).le
  · have hhalf : (2 : ℚ) ^ (e - 24) = 2 ^ (e - 23) / 2 := by
      rw [show e - 24 = e - 23 - 1 by ring, zpow_sub_one₀ (by norm_num)]
      ring
    rw [round32_of_pos hpos, hhalf]
    exact (abs_roundPos_sub_le q).trans (div_le_div_of_nonneg_right (ulp_le hpos h) (by norm_num))

/-- What lies less than half a unit below a number of 24 bits is not rounded below it. -/
theorem le_round32_of_near {q : ℚ} {n : ℕ} (hn : n ≤ 2 ^ 24) {k : ℤ} (hq : 2 ^ (k + 23) ≤ q)
    (hnear : ((n : ℚ) - 1 / 2) * 2 ^ k < q) : (n : ℚ) * 2 ^ k ≤ round32 q := by
  have hpos : 0 < q := lt_of_lt_of_le (two_zpow_pos _) hq
  have hlog : k + 23 ≤ Int.log 2 q :=
    (Int.zpow_le_iff_le_log (by norm_num) hpos).mp (by exact_mod_cast hq)
  rw [round32_of_pos hpos]
  rcases hlog.eq_or_lt with heq | hlt
  · -- the unit is that of the number
    have hulp : ulp q = 2 ^ k := by rw [ulp, ← heq, add_sub_cancel_right]
    have hk := two_zpow_pos k
    have hround : (n : ℤ) ≤ halfEven (q / ulp q) := by
      apply le_halfEven
      rw [hulp, lt_div_iff₀ hk]
      exact_mod_cast hnear
    rw [roundPos, hulp] at *
    exact mul_le_mul_of_nonneg_right (by exact_mod_cast hround) hk.le
  · -- the unit is larger, and so is everything in the binade
    calc (n : ℚ) * 2 ^ k ≤ 2 ^ 24 * 2 ^ k :=
          mul_le_mul_of_nonneg_right (by exact_mod_cast hn) (two_zpow_pos k).le
      _ = 2 ^ (k + 24) := by
          rw [zpow_add₀ (by norm_num), mul_comm]
          norm_num
      _ ≤ 2 ^ Int.log 2 q := zpow_le_zpow_right₀ (by norm_num) (by omega)
      _ ≤ roundPos q := two_zpow_le_roundPos hpos

/-! ## Products with a rounded fraction -/

/-- A half is a bit more. -/
theorem sub_half_eq {n : ℕ} (hpos : 1 ≤ n) :
    (n : ℚ) - 1 / 2 = ((2 * n - 1 : ℕ) : ℚ) * 2 ^ (-1 : ℤ) := by
  rw [Nat.cast_sub (by omega), Nat.cast_mul, zpow_neg_one]
  push_cast
  ring

theorem round32_sub_half {n : ℕ} (hpos : 1 ≤ n) (hn : n ≤ 2 ^ 22) :
    round32 ((n : ℚ) - 1 / 2) = n - 1 / 2 := by
  rw [sub_half_eq hpos, round32_zpow (by omega)]

/-- If the number is a power of two, nothing is rounded. -/
theorem round32_mul_top_pow {e : ℕ} (he : e ≤ 22) :
    round32 ((2 ^ e : ℕ) * round32 ((((2 ^ e : ℕ) : ℚ) - 1 / 2) / (2 ^ e : ℕ))) =
      ((2 ^ e : ℕ) : ℚ) - 1 / 2 := by
  have hpos : 1 ≤ 2 ^ e := Nat.one_le_two_pow
  have hle : 2 ^ e ≤ 2 ^ 22 := Nat.pow_le_pow_right (by norm_num) he
  have hne : ((2 ^ e : ℕ) : ℚ) ≠ 0 := by positivity
  have hfrac : (((2 ^ e : ℕ) : ℚ) - 1 / 2) / (2 ^ e : ℕ) =
      ((2 * 2 ^ e - 1 : ℕ) : ℚ) * 2 ^ (-1 - (e : ℤ)) := by
    rw [sub_half_eq hpos, zpow_sub₀ (by norm_num), zpow_natCast, Nat.cast_pow, Nat.cast_ofNat]
    ring
  have hfixed : round32 ((((2 ^ e : ℕ) : ℚ) - 1 / 2) / (2 ^ e : ℕ)) =
      (((2 ^ e : ℕ) : ℚ) - 1 / 2) / (2 ^ e : ℕ) := by
    rw [hfrac, round32_zpow (by omega)]
  rw [hfixed, mul_div_cancel₀ _ hne, round32_sub_half hpos hle]

/-- The same number on the grid of a lower place -/
theorem sub_half_grid {n f : ℕ} (hpos : 1 ≤ n) (hf : f ≤ 22) :
    (n : ℚ) - 1 / 2 = (((2 * n - 1) * 2 ^ (22 - f) : ℕ) : ℚ) * 2 ^ ((f : ℤ) - 23) := by
  have hpow : ((2 ^ (22 - f) : ℕ) : ℚ) * 2 ^ ((f : ℤ) - 23) = 2 ^ (-1 : ℤ) := by
    rw [Nat.cast_pow, Nat.cast_ofNat, ← zpow_natCast, ← zpow_add₀ (by norm_num)]
    congr 1
    omega
  rw [Nat.cast_mul, mul_assoc, hpow, ← sub_half_eq hpos]

/-- The error of the fraction is taken `n` times. -/
theorem le_mul_round32_top {n : ℕ} (hpos : 1 ≤ n) :
    (n : ℚ) - 1 / 2 - n * 2 ^ (-25 : ℤ) ≤ n * round32 ((n - 1 / 2) / n) := by
  have hone : (1 : ℚ) ≤ n := by exact_mod_cast hpos
  have hn : (0 : ℚ) < n := by linarith
  have hnonneg : 0 ≤ ((n : ℚ) - 1 / 2) / n := div_nonneg (by linarith) hn.le
  have hlt : ((n : ℚ) - 1 / 2) / n < 2 ^ ((-1 : ℤ) + 1) := by
    rw [neg_add_cancel, zpow_zero, div_lt_one hn]
    linarith
  have herror := (abs_le.mp (abs_round32_sub_le hnonneg hlt)).1
  have hscaled := mul_le_mul_of_nonneg_left herror hn.le
  rw [mul_sub, mul_div_cancel₀ _ hn.ne'] at hscaled
  norm_num at hscaled ⊢
  linarith

/-- Otherwise this is less than half a unit in the last place of the product. -/
theorem le_round32_mul_top_between {n f : ℕ} (hf : f ≤ 21) (hlow : 2 ^ f < n)
    (hhigh : n < 2 ^ (f + 1)) :
    (n : ℚ) - 1 / 2 ≤ round32 (n * round32 ((n - 1 / 2) / n)) := by
  have hpos : 1 ≤ n := Nat.one_le_of_lt hlow
  have hlow' : (2 : ℚ) ^ f + 1 ≤ n := by exact_mod_cast hlow
  have hhigh' : (n : ℚ) < 2 * 2 ^ f := by
    rw [← pow_succ']
    exact_mod_cast hhigh
  have hproduct := le_mul_round32_top hpos
  have hgrid := sub_half_grid hpos (Nat.le_succ_of_le hf)
  -- the unit in the last place of the product
  have hunit : (2 : ℚ) ^ f = 2 ^ 23 * 2 ^ ((f : ℤ) - 23) := by
    rw [zpow_sub₀ (by norm_num), zpow_natCast]
    norm_num
    ring
  have hunit_le : (2 : ℚ) ^ ((f : ℤ) - 23) ≤ 1 :=
    zpow_le_one_of_nonpos₀ (by norm_num) (by omega)
  have herror : (n : ℚ) * 2 ^ (-25 : ℤ) < 2 ^ ((f : ℤ) - 23) / 2 := by
    norm_num
    linarith
  have hbits : (2 * n - 1) * 2 ^ (22 - f) ≤ 2 ^ 24 :=
    calc (2 * n - 1) * 2 ^ (22 - f) ≤ 2 ^ (f + 2) * 2 ^ (22 - f) :=
          Nat.mul_le_mul_right _ (by rw [pow_succ 2 (f + 1)]; omega)
      _ = 2 ^ 24 := by
          rw [← pow_add]
          congr 1
          omega
  have hgrid_le : (((2 * n - 1) * 2 ^ (22 - f) : ℕ) : ℚ) * 2 ^ ((f : ℤ) - 23) ≤
      round32 (n * round32 ((n - 1 / 2) / n)) := by
    refine le_round32_of_near hbits ?_ ?_
    · rw [sub_add_cancel, zpow_natCast]
      linarith
    · rw [sub_mul, ← hgrid]
      linarith
  exact hgrid.le.trans hgrid_le

/-- The fraction as close to 1 as the product allows -/
theorem le_round32_mul_top {n : ℕ} (hpos : 1 ≤ n) (hn : n ≤ 2 ^ 22) :
    (n : ℚ) - 1 / 2 ≤ round32 (n * round32 ((n - 1 / 2) / n)) := by
  rcases Nat.lt_or_ge (2 ^ Nat.log 2 n) n with hlow | hle
  · have hhigh := Nat.lt_pow_succ_log_self (b := 2) (by norm_num) n
    have hf : Nat.log 2 n < 22 := (Nat.pow_lt_pow_iff_right (by norm_num)).mp (hlow.trans_le hn)
    exact le_round32_mul_top_between (by omega) hlow hhigh
  · have heq : 2 ^ Nat.log 2 n = n := le_antisymm (Nat.pow_log_le_self 2 (by omega)) hle
    have he : Nat.log 2 n ≤ 22 := (Nat.pow_le_pow_iff_right (by norm_num)).mp (heq.le.trans hn)
    have hexact := round32_mul_top_pow he
    rw [heq] at hexact
    exact hexact.ge

/-- **Products with a rounded fraction.** Rounding, both of the fraction and of the product, does
not lead below the middle under `n`. -/
theorem le_round32_mul {n : ℕ} (hpos : 1 ≤ n) (hn : n ≤ 2 ^ 22) {q : ℚ}
    (h : (n : ℚ) - 1 / 2 ≤ n * q) : (n : ℚ) - 1 / 2 ≤ round32 (n * round32 q) := by
  have hn' : (0 : ℚ) < n := by exact_mod_cast hpos
  have hq : ((n : ℚ) - 1 / 2) / n ≤ q := by
    rw [div_le_iff₀ hn', mul_comm]
    exact h
  calc (n : ℚ) - 1 / 2 ≤ round32 (n * round32 ((n - 1 / 2) / n)) := le_round32_mul_top hpos hn
    _ ≤ round32 (n * round32 q) :=
        round32_mono (mul_le_mul_of_nonneg_left (round32_mono hq) hn'.le)

end Rounding

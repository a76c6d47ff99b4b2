import AmdgpuFand.Lib.Nearest

/-!
# Linear interpolation (`interpolation.c`)

`lerp` and `lerp_inverse` mix three arithmetics: unsigned 64-bit subtraction,
which wraps; `float` products and quotients, which round; and the conversion of
`round`'s result back to `unsigned long`. All three are kept. The rounding of the
`float` operations is the parameter `F`; the wrap of `b - a` is what separates the
two regimes: for `a ≤ b` the result stays between `a` and `b` (`lerp_bounds`), and
for `b < a` the difference is off by `2 ^ 64`.
-/

namespace AmdgpuFand

open Rounding

variable (F : FloatFormat)

/-- `lerp_inverse`: `(float)(x - a) / (float)(b - a)`. -/
def lerpInverse (a b x : UInt64) : ℚ :=
  F.fl (F.fl (x - a).toNat / F.fl (b - a).toNat)

/-- The argument of `round` in `lerp`: `a + (b - a) * x` in `float`. -/
def lerpFloat (a b : UInt64) (x : ℚ) : ℚ :=
  F.fl (F.fl a.toNat + F.fl (F.fl (b - a).toNat * x))

/-- `lerp`: `round(a + (b - a) * x)`, converted to `unsigned long`. -/
def lerp (a b : UInt64) (x : ℚ) : UInt64 :=
  UInt64.ofNat (halfAway (lerpFloat F a b x)).toNat

variable {F}

/-- Between the ends of the interval the fraction lies in `[0, 1]`. -/
theorem lerpInverse_mem {a b x : UInt64} (hax : a ≤ x) (hxb : x ≤ b) (hab : a < b)
    (hb : b.toNat ≤ 2 ^ 24) : 0 ≤ lerpInverse F a b x ∧ lerpInverse F a b x ≤ 1 := by
  have hax' : a.toNat ≤ x.toNat := UInt64.le_iff_toNat_le.mp hax
  have hxb' : x.toNat ≤ b.toNat := UInt64.le_iff_toNat_le.mp hxb
  have hab' : a.toNat < b.toNat := UInt64.lt_iff_toNat_lt.mp hab
  have hx : F.fl (x - a).toNat = ((x.toNat - a.toNat : ℕ) : ℚ) := by
    rw [UInt64.toNat_sub_of_le _ _ hax]
    exact F.fl_nat (by omega)
  have hd : F.fl (b - a).toNat = ((b.toNat - a.toNat : ℕ) : ℚ) := by
    rw [UInt64.toNat_sub_of_le _ _ (UInt64.le_of_lt hab)]
    exact F.fl_nat (by omega)
  have hle : ((x.toNat - a.toNat : ℕ) : ℚ) ≤ ((b.toNat - a.toNat : ℕ) : ℚ) := by
    exact_mod_cast Nat.sub_le_sub_right hxb' _
  have hpos : (0 : ℚ) < ((b.toNat - a.toNat : ℕ) : ℚ) := by
    exact_mod_cast Nat.sub_pos_of_lt hab'
  rw [lerpInverse, hx, hd]
  refine ⟨F.fl_nonneg (by positivity), ?_⟩
  have := F.fl_le_nat (n := 1) (q := ((x.toNat - a.toNat : ℕ) : ℚ) / ((b.toNat - a.toNat : ℕ) : ℚ))
    (by norm_num) (by rw [div_le_iff₀ hpos]; simpa using hle)
  simpa using this

/-- Interpolating upwards never leaves the interval, whatever the `float` format. -/
theorem lerpFloat_bounds {a b : UInt64} {x : ℚ} (hab : a ≤ b) (hb : b.toNat ≤ 2 ^ 24)
    (hx₀ : 0 ≤ x) (hx₁ : x ≤ 1) :
    (a.toNat : ℚ) ≤ lerpFloat F a b x ∧ lerpFloat F a b x ≤ b.toNat := by
  have hab' : a.toNat ≤ b.toNat := UInt64.le_iff_toNat_le.mp hab
  have ha : F.fl a.toNat = a.toNat := F.fl_nat (by omega)
  have hd : F.fl (b - a).toNat = ((b.toNat - a.toNat : ℕ) : ℚ) := by
    rw [UInt64.toNat_sub_of_le _ _ hab]
    exact F.fl_nat (by omega)
  have hnn : (0 : ℚ) ≤ ((b.toNat - a.toNat : ℕ) : ℚ) := by positivity
  have hlo : 0 ≤ F.fl (((b.toNat - a.toNat : ℕ) : ℚ) * x) := F.fl_nonneg (by positivity)
  have hhi : F.fl (((b.toNat - a.toNat : ℕ) : ℚ) * x) ≤ ((b.toNat - a.toNat : ℕ) : ℚ) :=
    F.fl_le_nat (by omega) (mul_le_of_le_one_right hnn hx₁)
  rw [lerpFloat, ha, hd]
  refine ⟨?_, ?_⟩
  · exact F.nat_le_fl (by omega) (by linarith)
  · apply F.fl_le_nat hb
    rw [Nat.cast_sub hab'] at hhi ⊢
    linarith

theorem toNat_lerp {a b : UInt64} {x : ℚ} {n : ℕ} (hn : n < 2 ^ 64)
    (h₀ : 0 ≤ lerpFloat F a b x) (h₁ : lerpFloat F a b x ≤ n) :
    ((lerp F a b x).toNat : ℤ) = halfAway (lerpFloat F a b x) := by
  have hnn := halfAway_nonneg h₀
  have hle : halfAway (lerpFloat F a b x) ≤ n := halfAway_le (by exact_mod_cast h₁)
  rw [lerp, UInt64.toNat_ofNat_of_lt' (by simp only [UInt64.size]; omega)]
  omega

/-- `lerp` between ordered ends. -/
theorem lerp_bounds {a b : UInt64} {x : ℚ} (hab : a ≤ b) (hb : b.toNat ≤ 2 ^ 24)
    (hx₀ : 0 ≤ x) (hx₁ : x ≤ 1) :
    a.toNat ≤ (lerp F a b x).toNat ∧ (lerp F a b x).toNat ≤ b.toNat := by
  obtain ⟨hlo, hhi⟩ := lerpFloat_bounds (F := F) hab hb hx₀ hx₁
  have heq := toNat_lerp (F := F) (by omega) (le_trans (by positivity) hlo) hhi
  have h₁ : (a.toNat : ℤ) ≤ halfAway (lerpFloat F a b x) := le_halfAway (by exact_mod_cast hlo)
  have h₂ : halfAway (lerpFloat F a b x) ≤ (b.toNat : ℤ) := halfAway_le (by exact_mod_cast hhi)
  omega

/-- In exact arithmetic `lerp` of `lerp_inverse` is the rounded line. -/
theorem lerpFloat_exact {a b t₀ t₁ t : UInt64} (hab : a ≤ b) (ht₀ : t₀ ≤ t) (ht₁ : t ≤ t₁) :
    lerpFloat exactArith a b (lerpInverse exactArith t₀ t₁ t) =
      a.toNat + (b.toNat - a.toNat) * ((t.toNat - t₀.toNat) / (t₁.toNat - t₀.toNat)) := by
  have h₀ : t₀ ≤ t₁ := UInt64.le_trans ht₀ ht₁
  simp only [lerpFloat, lerpInverse, exactArith_fl]
  rw [UInt64.toNat_sub_of_le _ _ hab, UInt64.toNat_sub_of_le _ _ ht₀,
    UInt64.toNat_sub_of_le _ _ h₀, Nat.cast_sub (UInt64.le_iff_toNat_le.mp hab),
    Nat.cast_sub (UInt64.le_iff_toNat_le.mp ht₀), Nat.cast_sub (UInt64.le_iff_toNat_le.mp h₀)]

/-! ## Single precision

Speeds and temperatures have eight bits and `float` has 24. The roundings on the way are too small
to carry a value over the middle below the upper end, and none of them falls back behind it. -/

section Single

variable {a n u d : ℕ}

/-- What a fraction of `n` is short of -/
theorem line_split (hu : u ≤ d) (hd : 0 < d) :
    (n : ℚ) * (u / d) = n - (n * (d - u) : ℕ) / d := by
  have hd₀ : (0 : ℚ) < d := by exact_mod_cast hd
  rw [Nat.cast_mul, Nat.cast_sub hu]
  field_simp
  ring

/-- Below the middle under `n` there is a gap, for the exact value has the denominator `2 * d`. -/
theorem line_gap (hd : d < 2 ^ 8) (h : d < 2 * (n * (d - u))) (hu : u < d) :
    (n : ℚ) * (u / d) ≤ n - 1 / 2 - 1 / 510 := by
  have hd₀ : (0 : ℚ) < d := by exact_mod_cast Nat.zero_lt_of_lt hu
  have hd₁ : (d : ℚ) ≤ 255 := by exact_mod_cast Nat.le_of_lt_succ hd
  have hint : (d : ℚ) + 1 ≤ 2 * (n * (d - u) : ℕ) := by exact_mod_cast h
  have hhalf : 1 / 2 + 1 / 510 ≤ ((n * (d - u) : ℕ) : ℚ) / d := by
    rw [le_div_iff₀ hd₀]
    linarith
  rw [line_split hu.le (Nat.zero_lt_of_lt hu)]
  linarith

/-- The rounded product of eight bits with a rounded fraction -/
theorem round32_product_le (hn : n < 2 ^ 8) {q : ℚ} (hq₀ : 0 ≤ q) (hq₁ : q < 1) :
    0 ≤ round32 (n * round32 q) ∧ round32 (n * round32 q) ≤ n ∧
      round32 (n * round32 q) ≤ n * q + 1 / 2 ^ 16 := by
  have hn₀ : (0 : ℚ) ≤ n := Nat.cast_nonneg n
  have hn₁ : (n : ℚ) ≤ 255 := by exact_mod_cast Nat.le_of_lt_succ hn
  have hx₀ : 0 ≤ round32 q := round32_nonneg hq₀
  have hx₁ : round32 q ≤ (1 : ℕ) := binary32.fl_le_nat (by norm_num) (by exact_mod_cast hq₁.le)
  have hfraction : round32 q - q ≤ 2 ^ ((-1 : ℤ) - 24) :=
    (abs_le.mp (abs_round32_sub_le hq₀ (by simpa using hq₁))).2
  have hproduct : (n : ℚ) * round32 q ≤ n := by
    rw [Nat.cast_one] at hx₁
    exact mul_le_of_le_one_right hn₀ hx₁
  have herror : round32 (n * round32 q) - n * round32 q ≤ 2 ^ ((7 : ℤ) - 24) := by
    refine (abs_le.mp (abs_round32_sub_le (mul_nonneg hn₀ hx₀) ?_)).2
    norm_num
    linarith
  refine ⟨round32_nonneg (mul_nonneg hn₀ hx₀), binary32.fl_le_nat (by omega) hproduct, ?_⟩
  have hscaled : (n : ℚ) * (round32 q - q) ≤ 255 * 2 ^ ((-1 : ℤ) - 24) :=
    calc (n : ℚ) * (round32 q - q) ≤ n * 2 ^ ((-1 : ℤ) - 24) :=
          mul_le_mul_of_nonneg_left hfraction hn₀
      _ ≤ 255 * 2 ^ ((-1 : ℤ) - 24) := mul_le_mul_of_nonneg_right hn₁ (by norm_num)
  norm_num at herror hscaled ⊢
  linarith

/-- From below the middle, nothing is rounded to it. -/
theorem round32_line_lt (hn : a + n < 2 ^ 8) (hd : d < 2 ^ 8) (hu : u < d)
    (h : d < 2 * (n * (d - u))) :
    round32 (a + round32 (n * round32 (u / d))) < ((a + n : ℕ) : ℚ) - 1 / 2 := by
  have hd₀ : (0 : ℚ) < d := by exact_mod_cast Nat.zero_lt_of_lt hu
  have hfraction : (u : ℚ) / d < 1 := by
    rw [div_lt_one hd₀]
    exact_mod_cast hu
  obtain ⟨hp₀, hp₁, hp⟩ := round32_product_le (Nat.lt_of_le_of_lt (Nat.le_add_left n a) hn)
    (div_nonneg (Nat.cast_nonneg u) hd₀.le) hfraction
  have ha₀ : (0 : ℚ) ≤ a := Nat.cast_nonneg a
  have hn₁ : (a : ℚ) + n ≤ 255 := by exact_mod_cast Nat.le_of_lt_succ hn
  have hsum : round32 (a + round32 (n * round32 (u / d))) - (a + round32 (n * round32 (u / d))) ≤
      2 ^ ((7 : ℤ) - 24) := by
    refine (abs_le.mp (abs_round32_sub_le (add_nonneg ha₀ hp₀) ?_)).2
    norm_num
    linarith
  have hgap := line_gap hd h hu
  norm_num at hsum hp
  push_cast
  linarith

/-- From the middle on, nothing is rounded below it. -/
theorem le_round32_line (hn : a + n < 2 ^ 8) (hu : u ≤ d) (hd : 0 < d)
    (h : 2 * (n * (d - u)) ≤ d) :
    ((a + n : ℕ) : ℚ) - 1 / 2 ≤ round32 (a + round32 (n * round32 (u / d))) := by
  rcases Nat.eq_zero_or_pos n with rfl | hpos
  · have hzero : round32 0 = 0 := if_pos rfl
    have ha : round32 a = a := binary32.fl_nat (by omega)
    rw [Nat.cast_zero, zero_mul, hzero, add_zero, add_zero, ha]
    linarith
  · have hd₀ : (0 : ℚ) < d := by exact_mod_cast hd
    have hexact : (n : ℚ) - 1 / 2 ≤ n * (u / d) := by
      have hint : 2 * ((n * (d - u) : ℕ) : ℚ) ≤ d := by exact_mod_cast h
      have hhalf : ((n * (d - u) : ℕ) : ℚ) / d ≤ 1 / 2 := by
        rw [div_le_iff₀ hd₀]
        linarith
      rw [line_split hu hd]
      linarith
    have hproduct := le_round32_mul hpos (by omega) hexact
    calc ((a + n : ℕ) : ℚ) - 1 / 2 = round32 (((a + n : ℕ) : ℚ) - 1 / 2) :=
          (round32_sub_half (by omega) (by omega)).symm
      _ ≤ round32 (a + round32 (n * round32 (u / d))) := by
          apply round32_mono
          push_cast
          linarith

end Single

/-- **Where `lerp` ends up at the upper end.** Its value is that of the upper row if and only if the
exact value is at most a half below it. -/
theorem lerp_eq_right_iff {a b t₀ t₁ t : UInt64} (hab : a ≤ b) (hb : b.toNat < 2 ^ 8)
    (h₀ : t₀ < t) (h₁ : t ≤ t₁) (ht : t₁.toNat < 2 ^ 8) :
    (lerp binary32 a b (lerpInverse binary32 t₀ t₁ t)).toNat = b.toNat ↔
      2 * ((b.toNat - a.toNat) * (t₁.toNat - t.toNat)) ≤ t₁.toNat - t₀.toNat := by
  have hab' : a.toNat ≤ b.toNat := UInt64.le_iff_toNat_le.mp hab
  have h₀' : t₀.toNat < t.toNat := UInt64.lt_iff_toNat_lt.mp h₀
  have h₁' : t.toNat ≤ t₁.toNat := UInt64.le_iff_toNat_le.mp h₁
  have hnum : (t - t₀).toNat = t.toNat - t₀.toNat :=
    UInt64.toNat_sub_of_le _ _ (UInt64.le_of_lt h₀)
  have hden : (t₁ - t₀).toNat = t₁.toNat - t₀.toNat :=
    UInt64.toNat_sub_of_le _ _ (UInt64.le_trans (UInt64.le_of_lt h₀) h₁)
  have hdiff : (b - a).toNat = b.toNat - a.toNat := UInt64.toNat_sub_of_le _ _ hab
  -- the integers are converted exactly
  have hfloat : lerpFloat binary32 a b (lerpInverse binary32 t₀ t₁ t) =
      round32 (a.toNat + round32 ((b.toNat - a.toNat : ℕ) *
        round32 ((t.toNat - t₀.toNat : ℕ) / (t₁.toNat - t₀.toNat : ℕ)))) := by
    rw [lerpFloat, lerpInverse, hnum, hden, hdiff, binary32.fl_nat (by omega),
      binary32.fl_nat (by omega), binary32.fl_nat (by omega), binary32.fl_nat (by omega)]
    rfl
  have hfraction := lerpInverse_mem (F := binary32) (UInt64.le_of_lt h₀) h₁
    (UInt64.lt_of_lt_of_le h₀ h₁) (by omega)
  obtain ⟨hlow, hhigh⟩ := lerpFloat_bounds (F := binary32) hab (by omega) hfraction.1 hfraction.2
  have hnonneg : 0 ≤ lerpFloat binary32 a b (lerpInverse binary32 t₀ t₁ t) :=
    le_trans (Nat.cast_nonneg _) hlow
  have hvalue := toNat_lerp (F := binary32) (by omega) hnonneg hhigh
  have hcast : (b.toNat : ℚ) = ((a.toNat + (b.toNat - a.toNat) : ℕ) : ℚ) := by
    rw [Nat.add_sub_cancel' hab']
  have hshort : t₁.toNat - t₀.toNat - (t.toNat - t₀.toNat) = t₁.toNat - t.toNat := by omega
  rw [← Int.natCast_inj, hvalue, halfAway_eq_iff hnonneg (by exact_mod_cast hhigh), hfloat,
    Int.cast_natCast, hcast]
  refine ⟨?_, ?_⟩
  · intro h
    by_contra hnot
    rw [not_le, ← hshort] at hnot
    have hu : t.toNat - t₀.toNat < t₁.toNat - t₀.toNat := by
      by_contra hle
      rw [Nat.sub_eq_zero_of_le (not_lt.mp hle), mul_zero, mul_zero] at hnot
      exact Nat.not_lt_zero _ hnot
    exact absurd h (not_le.mpr (round32_line_lt (by omega) (by omega) hu hnot))
  · intro h
    rw [← hshort] at h
    exact le_round32_line (by omega) (by omega) (by omega) h

end AmdgpuFand

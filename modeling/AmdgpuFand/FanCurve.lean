import AmdgpuFand.Fanctrl
import AmdgpuFand.Lib.PiecewiseLinear

/-!
# The controller follows the fan curve

What the controller is for: the rows of an ordered matrix are the knots of a
monotone curve (`FandConfig.curve`), and the fans are to run at the curve's speed,
or a little longer at a higher one while hysteresis holds a threshold.

`fanctrlTarget_fst` and `fanctrlTarget_snd` identify segment search and
interpolation with the abstract curve: the threshold found is the rank of the
temperature, less one, and the speed is the value of the curve. The hold branch
sits between two values of the curve, because a threshold is held only from
below it (`curve ≤`) and only within the hysteresis (`≤ curve` of the temperature
raised by it).

Interpolation is taken in exact arithmetic throughout this module.
-/

namespace AmdgpuFand

open Rounding PiecewiseLinear

/-! ## The curve of a configuration -/

/-- A matrix of one to sixteen rows with non-decreasing temperatures and
non-decreasing speeds. -/
structure FandConfig.Ordered (c : FandConfig) : Prop where
  /-- there is a row -/
  rows_pos : 0 < c.rows
  /-- the rows fit the array -/
  rows_le : c.rows ≤ maxTempThresholds
  /-- temperatures do not fall -/
  temp_mono : ∀ i j, i ≤ j → j < c.rows → c.temp i ≤ c.temp j
  /-- speeds do not fall -/
  speed_mono : ∀ i j, i ≤ j → j < c.rows → c.speed i ≤ c.speed j

instance (c : FandConfig) : Decidable c.Ordered :=
  decidable_of_iff
    (0 < c.rows ∧ c.rows ≤ maxTempThresholds ∧
      (∀ j, j < c.rows → ∀ i, i < j → c.temp i ≤ c.temp j ∧ c.speed i ≤ c.speed j)) <| by
    refine ⟨?_, ?_⟩
    · rintro ⟨hpos, hle, hmono⟩
      refine ⟨hpos, hle, fun i j hij hj => ?_, fun i j hij hj => ?_⟩
      · rcases hij.eq_or_lt with rfl | hlt
        · exact le_refl _
        · exact (hmono j hj i hlt).1
      · rcases hij.eq_or_lt with rfl | hlt
        · exact le_refl _
        · exact (hmono j hj i hlt).2
    · rintro ⟨hpos, hle, htemp, hspeed⟩
      exact ⟨hpos, hle, fun j hj i hij => ⟨htemp i j hij.le hj, hspeed i j hij.le hj⟩⟩

/-- The reference fan curve: off or the first speed up to the first threshold,
depending on the throttle setting, then through the rows, then the last speed. -/
def FandConfig.curve (c : FandConfig) (h : c.Ordered) : Curve where
  rows := c.rows
  knot i := c.temp i
  value i := c.speed i
  low := if c.throttle then 0 else c.speed 0
  rows_pos := h.rows_pos
  knot_mono i j hij hj := by exact_mod_cast h.temp_mono i j hij hj
  value_mono i j hij hj := by exact_mod_cast h.speed_mono i j hij hj
  low_le := by split_ifs <;> omega

theorem FandConfig.curve_eval_mem (c : FandConfig) (h : c.Ordered) (t : ℤ) :
    0 ≤ (c.curve h).eval t ∧ (c.curve h).eval t ≤ 255 := by
  have hlow : 0 ≤ (c.curve h).low := by
    simp only [FandConfig.curve]
    split_ifs <;> omega
  have hlast : (c.curve h).value ((c.curve h).rows - 1) ≤ 255 := by
    have := UInt8.toNat_lt (idx c.matrix (2 * (c.rows - 1) + 1))
    simp only [FandConfig.curve, FandConfig.speed]
    omega
  exact ⟨le_trans hlow (Curve.low_le_eval _ t), le_trans (Curve.eval_le_last _ t) hlast⟩

/-! ## Segment search and interpolation compute the curve -/

section Curve

variable {F : FloatFormat} {c : FandConfig} {s : Fanctrl} {t : ℤ}

/-- The threshold found is the rank of the temperature, less one. -/
theorem fanctrlTarget_fst (hc : c.Ordered) (hs : Configured c s) :
    (fanctrlTarget F s t).1 = (rank (c.curve hc).knot (c.curve hc).rows t : ℤ) - 1 := by
  have hpos := hc.rows_pos
  have hrows : (c.curve hc).rows = c.rows := rfl
  have hrank := rank_le (c.curve hc).knot (c.curve hc).rows t
  obtain ⟨hlow, heq⟩ | ⟨i, hseg, heq⟩ | ⟨hhigh, heq⟩ := fanctrlTarget_cases F s t
  · rw [hs.temp 0 hpos] at hlow
    have h₀ := (Curve.lt_rank (C := c.curve hc) (t := t) hpos).not.mpr (not_lt.mpr hlow)
    rw [heq, Nat.eq_zero_of_not_pos h₀]
    rfl
  · obtain ⟨hi, hlo, hhi⟩ := fanctrlSegment_eq_some hseg
    rw [hs.rows] at hi
    rw [hs.temp i (by omega)] at hlo
    rw [hs.temp (i + 1) hi] at hhi
    have h₁ := (Curve.lt_rank (C := c.curve hc) (t := t) (i := i) (by omega)).mpr hlo
    have h₂ := (Curve.lt_rank (C := c.curve hc) (t := t) (i := i + 1) hi).not.mpr (not_lt.mpr hhi)
    rw [heq]
    dsimp only
    omega
  · rw [hs.rows, hs.temp _ (by omega)] at hhigh
    have h₁ := (Curve.lt_rank (C := c.curve hc) (t := t) (i := c.rows - 1) (by omega)).mpr hhigh
    rw [heq, hs.rows]
    dsimp only
    omega

/-- So a row is at or below the threshold found exactly when the temperature has
passed it. -/
theorem fanctrlTarget_fst_lt (hc : c.Ordered) (hs : Configured c s) {k : ℕ} (hk : k < c.rows) :
    (fanctrlTarget F s t).1 < k ↔ t ≤ c.temp k := by
  have hrank := Curve.lt_rank (C := c.curve hc) (t := t) (i := k) hk
  have hknot : (c.curve hc).knot k = c.temp k := rfl
  rw [fanctrlTarget_fst hc hs]
  omega

/-- The speed does not fall from one row to the next. -/
theorem Configured.speed_le_succ (hs : Configured c s) (hc : c.Ordered) {i : ℕ}
    (hi : i + 1 < c.rows) : s.speed i ≤ s.speed (i + 1) := by
  rw [hs.speed i (by omega), hs.speed (i + 1) hi]
  exact_mod_cast hc.speed_mono i (i + 1) (Nat.le_succ i) hi

/-- Interpolation between two rows is the rounded line of the curve. -/
theorem fanctrlInterpolate_eq_line (hc : c.Ordered) (hs : Configured c s) {i : ℕ}
    (hi : i + 1 < c.rows) (hlo : s.temp i < t) (hhi : t ≤ s.temp (i + 1)) :
    toInt32 (fanctrlInterpolate exactArith s i t) = halfAway ((c.curve hc).line i t) := by
  have hab := lerp_args (hs.speed_le_succ hc hi)
  have hb := toNat_toUInt64_lt (idx s.matrix.speeds (i + 1))
  obtain ⟨ht₀, ht₁⟩ := lerpInverse_args hlo hhi
  obtain ⟨hx₀, hx₁⟩ := lerpInverse_fraction (F := exactArith) hlo hhi
  obtain ⟨hlo', hhi'⟩ := lerpFloat_bounds (F := exactArith) hab (by omega) hx₀ hx₁
  have hlerp := (lerp_bounds (F := exactArith) hab (by omega) hx₀ hx₁).2
  have hline : lerpFloat exactArith (idx s.matrix.speeds i).toUInt64
      (idx s.matrix.speeds (i + 1)).toUInt64 (lerpInverse exactArith
        (idx s.matrix.temps i).toUInt64 (idx s.matrix.temps (i + 1)).toUInt64
        (UInt64.ofInt t)) = (c.curve hc).line i t := by
    have hcast : ∀ {x : UInt8} {n : ℕ}, (x.toNat : ℤ) = n → ((x.toUInt64.toNat : ℕ) : ℚ) = n := by
      intro x n h
      rw [UInt8.toNat_toUInt64]
      exact_mod_cast h
    have ht : ((UInt64.ofInt t).toNat : ℚ) = t := by
      have := s.temp_nonneg i
      have := s.temp_le (i + 1)
      exact_mod_cast toNat_ofInt_of_nonneg (x := t) (by omega) (by omega)
    rw [lerpFloat_exact hab (UInt64.le_of_lt ht₀) ht₁, ← mul_div_assoc,
      hcast (hs.speed i (by omega)), hcast (hs.speed (i + 1) hi), hcast (hs.temp i (by omega)),
      hcast (hs.temp (i + 1) hi), ht]
    rfl
  rw [fanctrlInterpolate, toInt32_of_lt (by omega), ← hline]
  exact toNat_lerp (by omega) (le_trans (by positivity) hlo') hhi'

/-- The speed found is the value of the curve. -/
theorem fanctrlTarget_snd (hc : c.Ordered) (hs : Configured c s) :
    (fanctrlTarget exactArith s t).2 = (c.curve hc).eval t := by
  have hpos := hc.rows_pos
  obtain ⟨hlow, heq⟩ | ⟨i, hseg, heq⟩ | ⟨hhigh, heq⟩ := fanctrlTarget_cases exactArith s t
  · rw [hs.temp 0 hpos] at hlow
    rw [heq, Curve.eval_of_le (C := c.curve hc) hlow, hs.throttle, hs.speed 0 hpos]
    rfl
  · obtain ⟨hi, hlo, hhi⟩ := fanctrlSegment_eq_some hseg
    rw [hs.rows] at hi
    rw [heq, fanctrlInterpolate_eq_line hc hs hi hlo hhi]
    rw [hs.temp i (by omega)] at hlo
    rw [hs.temp (i + 1) hi] at hhi
    rw [Curve.eval_of_mem (C := c.curve hc) hi hlo hhi]
  · rw [hs.rows, hs.temp _ (by omega)] at hhigh
    rw [heq, Curve.eval_of_gt (C := c.curve hc) hhigh, hs.rows, hs.speed _ (by omega)]
    rfl

/-! ## One step, and every run -/

/-- The speed chosen in one step lies between the curve at the temperature and the
curve at the temperature raised by the hysteresis. -/
theorem fanctrlDecide_bounds (hc : c.Ordered) (hs : Configured c s) {v : UInt64} {s' : Fanctrl}
    (hd : fanctrlDecide exactArith s t = .ok (v, s')) :
    (c.curve hc).eval t ≤ v.toNat ∧
      (v.toNat : ℤ) ≤ (c.curve hc).eval (t + c.hysteresis.toNat) := by
  have hmono : (c.curve hc).eval t ≤ (c.curve hc).eval (t + c.hysteresis.toNat) :=
    Curve.eval_mono (by omega)
  obtain ⟨-, -, ⟨⟨hcur, hbelow, hwithin⟩, rfl, -⟩ | ⟨-, rfl, -⟩⟩ := fanctrlDecide_ok hd
  · -- hold: the remembered row is not passed by `t`, but is by `t + hysteresis`
    obtain ⟨k, hk⟩ := Int.eq_ofNat_of_zero_le (a := s.currentThreshold) (by omega)
    have hlt := hs.threshold_lt
    rw [hk] at hbelow hlt
    rw [hk, Int.toNat_natCast] at hwithin ⊢
    have hkr : k < c.rows := by omega
    rw [hs.temp k hkr, hs.hysteresis] at hwithin
    have hbelow' := (fanctrlTarget_fst_lt hc hs hkr).mp hbelow
    have hle := s.speed_le k
    rw [toNat_ofInt_of_nonneg (s.speed_nonneg k) (by omega), hs.speed k hkr]
    exact ⟨Curve.eval_le_value (C := c.curve hc) hkr hbelow',
      Curve.value_le_eval (C := c.curve hc) hkr hwithin⟩
  · obtain ⟨h₀, h₁⟩ := c.curve_eval_mem hc t
    rw [fanctrlTarget_snd hc hs, toNat_ofInt_of_nonneg h₀ (by omega)]
    exact ⟨le_refl _, hmono⟩

/-- **Hysteresis within the curve.** On an ordered matrix, every step of every run
hands `hwmon_write_pwm` the PWM value of a percentage at least that of the fan curve at
the reading, and at most that of the curve `hysteresis` degrees above it. -/
theorem fanctrlAdjust_follows_curve (c : FandConfig) (hc : c.Ordered) (s₀ : Fanctrl)
    (temps : List (WriteOutcome × ℤ)) (t : ℤ) (ht : 0 ≤ t) :
    ∃ v s',
      fanctrlDecide exactArith (fanctrlRun exactArith (fanctrlConfigure c s₀).2 temps) t =
        .ok (v, s') ∧
      (∀ o, fanctrlAdjust exactArith o (fanctrlRun exactArith (fanctrlConfigure c s₀).2 temps) t =
        (hwmonWritePwm o (fanctrlPercentageToPwm exactArith v), s')) ∧
      (c.curve hc).eval t ≤ v.toNat ∧
      (v.toNat : ℤ) ≤ (c.curve hc).eval (t + c.hysteresis.toNat) := by
  have hs := (fanctrlConfigure_configured s₀ hc.rows_le).2.run (F := exactArith) temps
  have hpos := hc.rows_pos
  obtain ⟨v, s', hd⟩ := fanctrlDecide_total (F := exactArith) (by rw [hs.rows]; omega) ht
  exact ⟨v, s', hd, fanctrlAdjust_ok hd, fanctrlDecide_bounds hc hs hd⟩

end Curve

/-- The configuration of `test_fanctrl_adjust`. -/
def testConfig : FandConfig where
  throttle := true
  matrixRows := 3
  hysteresis := 3
  interval := 2
  matrix := Vector.ofFn fun i => [50, 20, 60, 50, 80, 100].getD i 0

/-- The descent of the unit test: from 70 degrees down to 58, which is held at the
speed of the 60-degree row. -/
theorem fanctrlAdjust_follows_curve_test :
    ∃ v s', fanctrlDecide exactArith
        (fanctrlRun exactArith (fanctrlConfigure testConfig Fanctrl.static).2
          [(⟨true, true⟩, 70)]) 58 = .ok (v, s') ∧
      (∀ o, fanctrlAdjust exactArith o (fanctrlRun exactArith
          (fanctrlConfigure testConfig Fanctrl.static).2 [(⟨true, true⟩, 70)]) 58 =
        (hwmonWritePwm o (fanctrlPercentageToPwm exactArith v), s')) ∧
      (testConfig.curve (by decide)).eval 58 ≤ v.toNat ∧
      (v.toNat : ℤ) ≤ (testConfig.curve (by decide)).eval (58 + testConfig.hysteresis.toNat) :=
  fanctrlAdjust_follows_curve testConfig (by decide) Fanctrl.static [(⟨true, true⟩, 70)] 58
    (by decide)

end AmdgpuFand

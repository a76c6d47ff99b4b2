import AmdgpuFand.Fanctrl
import AmdgpuFand.Settings

/-!
# The PWM value in range

Nothing in the parser orders the rows of a matrix, so the controller may have to
interpolate between rows whose speed falls while the temperature rises. The unsigned
subtraction in `lerp` then wraps. Where it does not, everything stays in range in every
`float` format: the speed between the speeds of the two rows, and the PWM value at or
below `PWM_MAX`, so that `hwmon_write_pwm` never reports a fatal error.
-/

namespace AmdgpuFand

open Rounding

/-! ## The subtraction -/

/-- `b - a` is the difference of the two numbers exactly if they are in order. -/
theorem toNat_sub_eq_iff {a b : UInt64} :
    ((b - a).toNat : ℤ) = (b.toNat : ℤ) - a.toNat ↔ a.toNat ≤ b.toNat := by
  refine ⟨?_, ?_⟩
  · intro h
    have := Int.natCast_nonneg (b - a).toNat
    omega
  · intro h
    rw [UInt64.toNat_sub_of_le _ _ (UInt64.le_iff_toNat_le.mpr h), Nat.cast_sub h]

/-! ## Percentages -/

/-- A percentage becomes a PWM value in range. -/
theorem fanctrlPercentageToPwm_le (F : FloatFormat) {percentage : UInt64}
    (h : percentage.toNat ≤ 100) : fanctrlPercentageToPwm F percentage ≤ pwmMax := by
  have hfl : F.fl percentage.toNat = percentage.toNat := F.fl_nat (by omega)
  have hle : ((percentage.toNat : ℕ) : ℚ) / 100 ≤ ((1 : ℕ) : ℚ) := by
    rw [div_le_iff₀ (by norm_num)]
    exact_mod_cast (by omega : percentage.toNat ≤ 1 * 100)
  have h₀ : 0 ≤ F.fl (F.fl percentage.toNat / 100) := by
    rw [hfl]
    exact F.fl_nonneg (by positivity)
  have h₁ : F.fl (F.fl percentage.toNat / 100) ≤ 1 := by
    rw [hfl]
    simpa using F.fl_le_nat (n := 1) (by norm_num) hle
  rw [UInt64.le_iff_toNat_le]
  exact (lerp_bounds (by decide) (by decide) h₀ h₁).2

/-- `hwmon_write_pwm` reports a fatal error for a value out of range and for no other. -/
theorem hwmonWritePwm_fatal (o : WriteOutcome) (pwm : UInt64) :
    hwmonWritePwm o pwm = fandFatalErr ↔ pwmMax < pwm := by
  unfold hwmonWritePwm
  by_cases hpwm : pwmMax < pwm
  · simp [hpwm]
  · rw [if_neg hpwm]
    refine ⟨fun h => ?_, fun h => absurd h hpwm⟩
    unfold fwriteUlongExcl at h
    split_ifs at h <;> exact absurd h (by decide)

/-! ## Segments -/

/-- The reading `t` is interpolated between rows `i` and `i + 1`: it lies between the
first and the last row, and this is the first segment that it lies in. -/
structure FandConfig.InSegment (c : FandConfig) (t : ℤ) (i : ℕ) : Prop where
  above_first : c.temp 0 < t
  below_last : t ≤ c.temp (c.rows - 1)
  next_row : i + 1 < c.rows
  above : c.temp i < t
  below : t ≤ c.temp (i + 1)
  first : ∀ j, j < i → ¬ ((c.temp j : ℤ) < t ∧ t ≤ c.temp (j + 1))

/-- `fanctrl_adjust` interpolates between rows `i` and `i + 1`. -/
structure Interpolates (s : Fanctrl) (t : ℤ) (i : ℕ) : Prop where
  above_first : s.temp 0 < t
  below_last : t ≤ s.temp (s.rows - 1)
  segment : fanctrlSegment s t = some i

theorem interpolates_iff {c : FandConfig} {s : Fanctrl} (hs : Configured c s)
    (hrows : 0 < c.rows) {t : ℤ} {i : ℕ} : Interpolates s t i ↔ c.InSegment t i := by
  have hpoint : ∀ j, j < c.rows - 1 →
      (decide (s.temp j < t ∧ t ≤ s.temp (j + 1)) = true ↔
        ((c.temp j : ℤ) < t ∧ t ≤ c.temp (j + 1))) := by
    intro j hj
    rw [decide_eq_true_eq, hs.temp j (by omega), hs.temp (j + 1) (by omega)]
  refine ⟨?_, ?_⟩
  · rintro ⟨h₀, h₁, hseg⟩
    obtain ⟨hi, hlo, hhi⟩ := fanctrlSegment_eq_some hseg
    rw [hs.rows] at h₁ hi
    rw [hs.temp 0 hrows] at h₀
    rw [hs.temp (c.rows - 1) (by omega)] at h₁
    rw [hs.temp i (by omega)] at hlo
    rw [hs.temp (i + 1) hi] at hhi
    refine ⟨h₀, h₁, hi, hlo, hhi, fun j hj hin => ?_⟩
    obtain ⟨-, hfirst⟩ := List.find?_range_eq_some.mp hseg
    have := hfirst.2 j hj
    rw [Bool.not_eq_true', ← Bool.not_eq_true, hpoint j (by omega)] at this
    exact this hin
  · rintro ⟨h₀, h₁, hi, hlo, hhi, hfirst⟩
    refine ⟨?_, ?_, ?_⟩
    · rw [hs.temp 0 hrows]
      exact h₀
    · rw [hs.rows, hs.temp (c.rows - 1) (by omega)]
      exact h₁
    · refine List.find?_range_eq_some.mpr ⟨(hpoint i (by omega)).mpr ⟨hlo, hhi⟩, ?_, ?_⟩
      · rw [List.mem_range, hs.rows]
        omega
      · intro j hj
        rw [Bool.not_eq_true', ← Bool.not_eq_true, hpoint j (by omega)]
        exact hfirst j hj

/-! ## A step in range -/

/-- What an adjustment that interpolates between rows `i` and `i + 1` is to guarantee. -/
structure InterpolatesInRange (F : FloatFormat) (s : Fanctrl) (t : ℤ) (i : ℕ) : Prop where
  /-- the subtraction in `lerp` does not wrap -/
  no_wrap : (((idx s.matrix.speeds (i + 1)).toUInt64 - (idx s.matrix.speeds i).toUInt64).toNat : ℤ)
    = s.speed (i + 1) - s.speed i
  /-- the speed is not below both rows -/
  min_le : min (s.speed i) (s.speed (i + 1)) ≤ toInt32 (fanctrlInterpolate F s i t)
  /-- and not above both -/
  le_max : toInt32 (fanctrlInterpolate F s i t) ≤ max (s.speed i) (s.speed (i + 1))
  /-- the PWM value is in range -/
  pwm_le : ∀ percentage s', fanctrlDecide F s t = .ok (percentage, s') →
    fanctrlPercentageToPwm F percentage ≤ pwmMax
  /-- and no fatal error is reported -/
  not_fatal : ∀ o, (fanctrlAdjust F o s t).1 ≠ fandFatalErr

section Range

variable {F : FloatFormat} {c : FandConfig} {s : Fanctrl} {t : ℤ} {i : ℕ}

theorem no_wrap_iff :
    (((idx s.matrix.speeds (i + 1)).toUInt64 - (idx s.matrix.speeds i).toUInt64).toNat : ℤ)
      = s.speed (i + 1) - s.speed i ↔ s.speed i ≤ s.speed (i + 1) := by
  have h := toNat_sub_eq_iff (a := (idx s.matrix.speeds i).toUInt64)
    (b := (idx s.matrix.speeds (i + 1)).toUInt64)
  rw [UInt8.toNat_toUInt64, UInt8.toNat_toUInt64] at h
  rw [Fanctrl.speed, Fanctrl.speed, h, Nat.cast_le]

theorem FandConfig.WithinLimits.speed_le (hc : c.WithinLimits) {k : ℕ} (hk : k < c.rows) :
    c.speed k ≤ 100 :=
  hc.2 (c.temp k, c.speed k) (List.mem_map.mpr ⟨k, List.mem_range.mpr hk, rfl⟩)

/-- On rows whose speed does not fall, the chosen percentage is one. -/
theorem fanctrlDecide_le (hc : c.WithinLimits) (hs : Configured c s)
    (hseg : Interpolates s t i) (hspeed : s.speed i ≤ s.speed (i + 1)) {percentage : UInt64}
    {s' : Fanctrl} (hd : fanctrlDecide F s t = .ok (percentage, s')) :
    percentage.toNat ≤ 100 := by
  have hlimit : ∀ k, k < c.rows → s.speed k ≤ 100 := by
    intro k hk
    rw [hs.speed k hk]
    exact_mod_cast hc.speed_le hk
  have hnat : ∀ v : ℤ, 0 ≤ v → v ≤ 100 → (UInt64.ofInt v).toNat ≤ 100 := by
    intro v h₀ h₁
    have := toNat_ofInt_of_nonneg h₀ (by omega)
    omega
  obtain ⟨-, -, ⟨⟨hcur, -, -⟩, rfl, -⟩ | ⟨-, rfl, -⟩⟩ := fanctrlDecide_ok hd
  · have hlt := hs.threshold_lt
    exact hnat _ (s.speed_nonneg _) (hlimit _ (by omega))
  · obtain ⟨hi, hlo, hhi⟩ := fanctrlSegment_eq_some hseg.segment
    obtain ⟨h₀, h₁⟩ := fanctrlInterpolate_bounds (F := F) hlo hhi hspeed
    rw [hs.rows] at hi
    have hnonneg := s.speed_nonneg i
    have hmax := hlimit (i + 1) hi
    rw [fanctrlTarget_mid hseg.above_first hseg.below_last hseg.segment]
    exact hnat _ (by omega) (by omega)

/-- Interpolation is in range exactly if the speed does not fall from the one row to the
other. -/
theorem interpolatesInRange_iff (hc : c.WithinLimits) (hs : Configured c s)
    (hrows : 0 < c.rows) (hseg : Interpolates s t i) :
    InterpolatesInRange F s t i ↔ c.speed i ≤ c.speed (i + 1) := by
  obtain ⟨hi, hlo, hhi⟩ := fanctrlSegment_eq_some hseg.segment
  rw [hs.rows] at hi
  have hspeed : s.speed i ≤ s.speed (i + 1) ↔ c.speed i ≤ c.speed (i + 1) := by
    rw [hs.speed i (by omega), hs.speed (i + 1) hi, Nat.cast_le]
  refine ⟨fun h => hspeed.mp (no_wrap_iff.mp h.no_wrap), fun h => ?_⟩
  have h' := hspeed.mpr h
  obtain ⟨h₀, h₁⟩ := fanctrlInterpolate_bounds (F := F) hlo hhi h'
  have hpwm : ∀ percentage s', fanctrlDecide F s t = .ok (percentage, s') →
      fanctrlPercentageToPwm F percentage ≤ pwmMax :=
    fun percentage s' hd => fanctrlPercentageToPwm_le F (fanctrlDecide_le hc hs hseg h' hd)
  refine ⟨no_wrap_iff.mpr h', by rwa [min_eq_left h'], by rwa [max_eq_right h'], hpwm, ?_⟩
  intro o hfatal
  have htemp : 0 ≤ t := le_trans (s.temp_nonneg 0) hseg.above_first.le
  obtain ⟨percentage, s', hd⟩ := fanctrlDecide_total (F := F) (s := s)
    (by rw [hs.rows]; exact hrows.ne') htemp
  rw [fanctrlAdjust_ok hd] at hfatal
  have hgt := (hwmonWritePwm_fatal o _).mp hfatal
  exact absurd (hpwm percentage s' hd) (UInt64.not_le.mpr hgt)

end Range

/-- **The range of the PWM value.** For every file that is accepted, every state that
the controller reaches on its configuration and every reading: the adjustment stays in
range wherever it interpolates, exactly if the speed does not fall on the segment that the
reading lies in. -/
theorem fanctrlAdjust_in_range (F : FloatFormat) (file : Option (List Char)) (c : FandConfig)
    (hparse : configParse file .zero = (0, c)) (s₀ : Fanctrl)
    (temps : List (WriteOutcome × ℤ)) (t : ℤ) :
    (∀ i, Interpolates (fanctrlRun F (fanctrlConfigure c s₀).2 temps) t i →
        InterpolatesInRange F (fanctrlRun F (fanctrlConfigure c s₀).2 temps) t i) ↔
      ∀ i, c.InSegment t i → c.speed i ≤ c.speed (i + 1) := by
  obtain ⟨hpos, hc⟩ := configParse_withinLimits rfl hparse
  have hle : c.rows ≤ maxTempThresholds := by
    rw [← c.rowList_length]
    exact hc.1.le
  have hs := (fanctrlConfigure_configured s₀ hle).2.run (F := F) temps
  refine forall_congr' fun i => ?_
  rw [← interpolates_iff hs hpos]
  exact forall_congr' fun hseg => interpolatesInRange_iff hc hs hpos hseg

/-- A matrix whose speed rises. -/
def fileRisingSpeed : List Char := "matrix=('50::20'\n'60::50')\n".toList

/-- The configuration in it. -/
def configRisingSpeed : FandConfig := (configParse (some fileRisingSpeed) .zero).2

theorem fanctrlAdjust_in_range_rising :
    Interpolates (fanctrlRun binary32 (fanctrlConfigure configRisingSpeed .static).2
        [(⟨true, true⟩, 45)]) 55 0 ∧
      InterpolatesInRange binary32 (fanctrlRun binary32
        (fanctrlConfigure configRisingSpeed .static).2 [(⟨true, true⟩, 45)]) 55 0 := by
  have hseg : Interpolates (fanctrlRun binary32 (fanctrlConfigure configRisingSpeed .static).2
      [(⟨true, true⟩, 45)]) 55 0 :=
    ⟨by decide +kernel, by decide +kernel, by decide +kernel⟩
  have hrange := (fanctrlAdjust_in_range binary32 (some fileRisingSpeed) configRisingSpeed
    (Prod.ext (by decide +kernel) rfl) .static [(⟨true, true⟩, 45)] 55).mpr fun i hi => ?_
  · exact ⟨hseg, hrange 0 hseg⟩
  · have hrows : configRisingSpeed.rows = 2 := by decide +kernel
    obtain rfl : i = 0 := by
      have := hi.next_row
      omega
    decide +kernel

/-- A matrix whose speed falls. -/
def fileFallingSpeed : List Char := "matrix=('50::60'\n'60::40')\n".toList

/-- The configuration in it. -/
def configFallingSpeed : FandConfig := (configParse (some fileFallingSpeed) .zero).2

/-- Half way down the segment, `binary32` arithmetic arrives at a speed of zero. -/
theorem lerp_wraps_on_falling_speed :
    configParse (some fileFallingSpeed) .zero = (0, configFallingSpeed) ∧
      Interpolates (fanctrlConfigure configFallingSpeed .static).2 55 0 ∧
      toInt32 (fanctrlInterpolate binary32 (fanctrlConfigure configFallingSpeed .static).2 0 55)
        = 0 ∧
      ¬ InterpolatesInRange binary32 (fanctrlConfigure configFallingSpeed .static).2 55 0 := by
  have hspeed : toInt32 (fanctrlInterpolate binary32
      (fanctrlConfigure configFallingSpeed .static).2 0 55) = 0 := by decide +kernel
  refine ⟨Prod.ext (by decide +kernel) rfl,
    ⟨by decide +kernel, by decide +kernel, by decide +kernel⟩, hspeed, fun h => ?_⟩
  have hmin := h.min_le
  rw [hspeed] at hmin
  revert hmin
  decide +kernel

end AmdgpuFand

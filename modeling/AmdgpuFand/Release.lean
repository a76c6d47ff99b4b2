import AmdgpuFand.Hysteresis

/-!
# Releasing a threshold

The controller remembers one row. When a reading releases it, the lower rows that were passed on
the way up have never been remembered, and some of them may still be within their hysteresis. The
step looks at none of them: it takes the speed of the segment that the reading lies in.

Such a row is at or above the upper end of that segment, and so is its speed. It keeps its speed
only where the curve is as high already, which is said here in terms of the rows: behind the first
threshold the row and the upper end of the segment have the same speed, and the interpolation is
rounded up to it. `KeepsLower` is asked of every step of every run, in single precision.
-/

namespace AmdgpuFand

open Rounding

/-! ## Rows below the released one -/

/-- A row is remembered, and the reading `t` has fallen far enough below it. -/
def Releases (c : FandConfig) (s : Fanctrl) (t : ℤ) : Prop :=
  0 ≤ s.currentThreshold ∧ t + c.hysteresis.toNat ≤ c.temp s.currentThreshold.toNat

/-- Row `k` lies below the remembered one, and the reading is within its hysteresis. -/
def Within (c : FandConfig) (s : Fanctrl) (t : ℤ) (k : ℕ) : Prop :=
  (k : ℤ) < s.currentThreshold ∧ (c.temp k : ℤ) - c.hysteresis.toNat < t ∧ t ≤ c.temp k

/-- Whatever speed is chosen at the reading `t`, it is at least that of every such row. -/
def KeepsLower (F : FloatFormat) (c : FandConfig) (s : Fanctrl) (t : ℤ) : Prop :=
  ∀ v s', fanctrlDecide F s t = .ok (v, s') → ∀ k, Within c s t k → c.speed k ≤ v.toNat

/-- Row `k` is no faster than the curve at `t`. Up to the first threshold the fans are off or run
at the first speed. Behind it the upper end of the segment has the speed of row `k`, and `t` is so
close to it that what the line is short of is at most a half. -/
def NoFaster (c : FandConfig) (t : ℤ) (k : ℕ) : Prop :=
  (t ≤ c.temp 0 → c.speed k = 0 ∨ (c.throttle = false ∧ c.speed k = c.speed 0)) ∧
    ∀ i, i + 1 < c.rows → (c.temp i : ℤ) < t → t ≤ c.temp (i + 1) →
      c.speed k = c.speed (i + 1) ∧
        2 * (((c.speed (i + 1) : ℤ) - c.speed i) * (c.temp (i + 1) - t)) ≤
          c.temp (i + 1) - c.temp i

instance (c : FandConfig) (s : Fanctrl) (t : ℤ) (k : ℕ) : Decidable (Within c s t k) :=
  inferInstanceAs (Decidable (_ ∧ _ ∧ _))

instance (c : FandConfig) (t : ℤ) (k : ℕ) : Decidable (NoFaster c t k) :=
  decidable_of_iff
    ((t ≤ c.temp 0 → c.speed k = 0 ∨ (c.throttle = false ∧ c.speed k = c.speed 0)) ∧
      ∀ i, i < c.rows - 1 → (c.temp i : ℤ) < t → t ≤ c.temp (i + 1) →
        c.speed k = c.speed (i + 1) ∧
          2 * (((c.speed (i + 1) : ℤ) - c.speed i) * (c.temp (i + 1) - t)) ≤
            c.temp (i + 1) - c.temp i) <| by
    refine ⟨?_, ?_⟩
    · rintro ⟨hlow, hmid⟩
      exact ⟨hlow, fun i hi => hmid i (by omega)⟩
    · rintro ⟨hlow, hmid⟩
      exact ⟨hlow, fun i hi => hmid i (by omega)⟩

/-! ## Where the interpolated speed is that of the upper row -/

/-- In single precision -/
theorem fanctrlInterpolate_eq_iff {s : Fanctrl} {i : ℕ} {t : ℤ} (hlo : s.temp i < t)
    (hhi : t ≤ s.temp (i + 1)) (hspeed : s.speed i ≤ s.speed (i + 1)) :
    toInt32 (fanctrlInterpolate binary32 s i t) = s.speed (i + 1) ↔
      2 * ((s.speed (i + 1) - s.speed i) * (s.temp (i + 1) - t)) ≤ s.temp (i + 1) - s.temp i := by
  obtain ⟨hx₀, hx₁⟩ := lerpInverse_args hlo hhi
  obtain ⟨hf₀, hf₁⟩ := lerpInverse_fraction (F := binary32) hlo hhi
  have hab := lerp_args hspeed
  have hb := toNat_toUInt64_lt (idx s.matrix.speeds (i + 1))
  have hvalue := (lerp_bounds (F := binary32) hab (by omega) hf₀ hf₁).2
  have hiff := lerp_eq_right_iff hab hb hx₀ hx₁ (toNat_toUInt64_lt _)
  have htemp₀ := s.temp_nonneg i
  have htemp₁ := s.temp_le (i + 1)
  have hnat := toNat_ofInt_of_nonneg (x := t) (by omega) (by omega)
  simp only [Fanctrl.speed, Fanctrl.temp] at hlo hhi hspeed ⊢
  simp only [UInt8.toNat_toUInt64] at hb hvalue hiff
  -- none of the subtractions is cut off
  zify [show (idx s.matrix.speeds i).toNat ≤ (idx s.matrix.speeds (i + 1)).toNat by omega,
    show (UInt64.ofInt t).toNat ≤ (idx s.matrix.temps (i + 1)).toNat by omega,
    show (idx s.matrix.temps i).toNat ≤ (idx s.matrix.temps (i + 1)).toNat by omega] at hiff
  rw [hnat] at hiff
  rw [fanctrlInterpolate, toInt32_of_lt (by omega)]
  exact hiff

section Step

variable {c : FandConfig} {s : Fanctrl} {t : ℤ} {k : ℕ}

/-- Up to the first threshold there is no segment. -/
theorem noFaster_low_iff (hc : c.Ordered) (hlow : t ≤ c.temp 0) :
    NoFaster c t k ↔ c.speed k = 0 ∨ (c.throttle = false ∧ c.speed k = c.speed 0) := by
  refine ⟨fun h => h.1 hlow, fun h => ⟨fun _ => h, fun i hi hlt => ?_⟩⟩
  have := hc.temp_mono 0 i (Nat.zero_le i) (by omega)
  omega

/-- Behind it there is one. -/
theorem noFaster_segment_iff (hc : c.Ordered) {i : ℕ} (hi : i + 1 < c.rows)
    (hlo : (c.temp i : ℤ) < t) (hhi : t ≤ c.temp (i + 1)) :
    NoFaster c t k ↔ c.speed k = c.speed (i + 1) ∧
      2 * (((c.speed (i + 1) : ℤ) - c.speed i) * (c.temp (i + 1) - t)) ≤
        c.temp (i + 1) - c.temp i := by
  refine ⟨fun h => h.2 i hi hlo hhi, fun h => ⟨fun hlow => ?_, fun i' hi' hlo' hhi' => ?_⟩⟩
  · have := hc.temp_mono 0 i (Nat.zero_le i) (by omega)
    omega
  · have hsame : i' = i := by
      rcases Nat.lt_trichotomy i' i with hlt | hsame | hlt
      · have := hc.temp_mono (i' + 1) i hlt (by omega)
        omega
      · exact hsame
      · have := hc.temp_mono (i + 1) i' hlt (by omega)
        omega
    rw [hsame]
    exact h

/-- Row `k` is compared with the speed of the segment. -/
theorem speed_le_fanctrlTarget_iff (hc : c.Ordered) (hs : Configured c s) (hk : k < c.rows)
    (hkt : t ≤ c.temp k) :
    (c.speed k : ℤ) ≤ (fanctrlTarget binary32 s t).2 ↔ NoFaster c t k := by
  have hpos := hc.rows_pos
  obtain ⟨hlow, heq⟩ | ⟨i, hseg, heq⟩ | ⟨hhigh, -⟩ := fanctrlTarget_cases binary32 s t
  · -- up to the first threshold
    rw [hs.temp 0 hpos] at hlow
    have hfirst := hc.speed_mono 0 k (Nat.zero_le k) hk
    rw [heq, hs.speed 0 hpos, hs.throttle, noFaster_low_iff hc hlow]
    cases c.throttle with
    | false =>
      simp only [Bool.false_eq_true, if_false, true_and]
      omega
    | true =>
      simp only [if_true, Bool.true_eq_false, false_and, or_false]
      omega
  · -- between two thresholds, and row `k` is at or above the upper one
    obtain ⟨hi, hlo, hhi⟩ := fanctrlSegment_eq_some hseg
    rw [hs.rows] at hi
    have hspeed := hs.speed_le_succ hc hi
    have hvalue := (fanctrlInterpolate_bounds (F := binary32) hlo hhi hspeed).2
    have hiff := fanctrlInterpolate_eq_iff hlo hhi hspeed
    rw [hs.temp i (by omega)] at hlo hiff
    rw [hs.temp (i + 1) hi] at hhi hiff
    rw [hs.speed (i + 1) hi] at hvalue hiff
    rw [hs.speed i (by omega)] at hiff
    have hupper : c.speed (i + 1) ≤ c.speed k := by
      refine hc.speed_mono (i + 1) k ?_ hk
      by_contra hlt
      have := hc.temp_mono k i (by omega) (by omega)
      omega
    rw [heq, noFaster_segment_iff hc hi hlo hhi, ← hiff]
    dsimp only
    omega
  · -- above the last threshold there is no such row
    rw [hs.rows, hs.temp _ (by omega)] at hhigh
    have := hc.temp_mono k (c.rows - 1) (by omega) (by omega)
    omega

/-- The speed of a segment is not negative. -/
theorem fanctrlTarget_snd_nonneg {F : FloatFormat} (hc : c.Ordered) (hs : Configured c s) :
    0 ≤ (fanctrlTarget F s t).2 := by
  obtain ⟨-, heq⟩ | ⟨i, hseg, heq⟩ | ⟨-, heq⟩ := fanctrlTarget_cases F s t
  · rw [heq]
    have := s.speed_nonneg 0
    dsimp only
    split_ifs <;> omega
  · obtain ⟨hi, hlo, hhi⟩ := fanctrlSegment_eq_some hseg
    rw [hs.rows] at hi
    have hbound := (fanctrlInterpolate_bounds (F := F) hlo hhi (hs.speed_le_succ hc hi)).1
    rw [heq]
    exact (s.speed_nonneg i).trans hbound
  · rw [heq]
    exact s.speed_nonneg _

/-- A reading that releases the remembered row is not held. -/
theorem not_fanctrlHolds_of_releases (hs : Configured c s) (h : Releases c s t) (threshold : ℤ) :
    ¬ fanctrlHolds s threshold t := by
  rintro ⟨-, -, hheld⟩
  obtain ⟨hge, hreleased⟩ := h
  have hlt := hs.threshold_lt
  rw [hs.temp _ (by omega), hs.hysteresis] at hheld
  omega

/-- One step -/
theorem keepsLower_iff (hc : c.Ordered) (hs : Configured c s) (h : Releases c s t) :
    KeepsLower binary32 c s t ↔ (0 ≤ t → ∀ k, Within c s t k → NoFaster c t k) := by
  have hrows : s.rows ≠ 0 := by
    rw [hs.rows]
    exact hc.rows_pos.ne'
  -- the speed chosen is that of the segment
  have hchosen : ∀ v s', fanctrlDecide binary32 s t = .ok (v, s') → ∀ k, Within c s t k →
      (c.speed k ≤ v.toNat ↔ NoFaster c t k) := by
    intro v s' hdecide k hwithin
    obtain ⟨-, -, ⟨hheld, -⟩ | ⟨-, rfl, -⟩⟩ := fanctrlDecide_ok hdecide
    · exact absurd hheld (not_fanctrlHolds_of_releases hs h _)
    · obtain ⟨hbelow, -, hkt⟩ := hwithin
      have hlt := hs.threshold_lt
      have hnonneg := fanctrlTarget_snd_nonneg (F := binary32) (t := t) hc hs
      have hsmall := fanctrlTarget_snd_lt binary32 s t
      have hnat := toNat_ofInt_of_nonneg hnonneg (by omega)
      have hiff := speed_le_fanctrlTarget_iff hc hs (show k < c.rows by omega) hkt
      rw [← hnat, Int.ofNat_le] at hiff
      exact hiff
  refine ⟨?_, ?_⟩
  · intro hkeeps ht k hwithin
    obtain ⟨v, s', hdecide⟩ := fanctrlDecide_total (F := binary32) hrows ht
    exact (hchosen v s' hdecide k hwithin).mp (hkeeps v s' hdecide k hwithin)
  · intro hall v s' hdecide k hwithin
    obtain ⟨-, ht, -⟩ := fanctrlDecide_ok hdecide
    exact (hchosen v s' hdecide k hwithin).mpr (hall ht k hwithin)

end Step

/-- **Releasing a threshold and the rows below.** In every run, a reading that releases the
remembered row is answered with at least the speed of every lower row that it is within the
hysteresis of, if and only if these rows are no faster than the curve at the reading. -/
theorem fanctrlAdjust_release_iff (c : FandConfig) (hc : c.Ordered) (s₀ : Fanctrl)
    (temps : List (WriteOutcome × ℤ)) (t : ℤ)
    (h : Releases c (fanctrlRun binary32 (fanctrlConfigure c s₀).2 temps) t) :
    KeepsLower binary32 c (fanctrlRun binary32 (fanctrlConfigure c s₀).2 temps) t ↔
      (0 ≤ t → ∀ k, Within c (fanctrlRun binary32 (fanctrlConfigure c s₀).2 temps) t k →
        NoFaster c t k) :=
  keepsLower_iff hc ((fanctrlConfigure_configured s₀ hc.rows_le).2.run temps) h

/-- Two rows with the same speed below a faster one -/
def plateauConfig : FandConfig :=
  { testConfig with matrix := Vector.ofFn fun i => [50, 30, 60, 30, 80, 100].getD i 0 }

/-- From above the last threshold to 59 degrees. The row of 80 degrees is released and the row of 60
is within its hysteresis of three degrees. It is no faster than the curve there. -/
theorem fanctrlAdjust_release_plateau :
    Within plateauConfig
        (fanctrlRun binary32 (fanctrlConfigure plateauConfig Fanctrl.static).2
          [(⟨true, true⟩, 81)]) 59 1 ∧
      KeepsLower binary32 plateauConfig
        (fanctrlRun binary32 (fanctrlConfigure plateauConfig Fanctrl.static).2
          [(⟨true, true⟩, 81)]) 59 := by
  have hthreshold : (fanctrlRun binary32 (fanctrlConfigure plateauConfig Fanctrl.static).2
      [(⟨true, true⟩, 81)]).currentThreshold = 2 := by decide +kernel
  refine ⟨by decide +kernel, ?_⟩
  refine (fanctrlAdjust_release_iff plateauConfig (by decide) Fanctrl.static [(⟨true, true⟩, 81)] 59
    ⟨by omega, ?_⟩).mpr ?_
  · rw [hthreshold]
    decide
  · intro _ k hwithin
    obtain ⟨hbelow, hnear, -⟩ := hwithin
    rw [hthreshold] at hbelow
    have hk : k = 0 ∨ k = 1 := by omega
    obtain rfl | rfl := hk
    · decide
    · decide

/-- The same readings where the row of 60 degrees is faster than the one below. It is still within
its hysteresis, but the fans slow down below its speed. -/
theorem release_skips_lower_row :
    testConfig.Ordered ∧
      (∀ j, j < testConfig.rows → ∀ i, i < j → testConfig.temp i < testConfig.temp j) ∧
      Releases testConfig
        (fanctrlRun binary32 (fanctrlConfigure testConfig Fanctrl.static).2 [(⟨true, true⟩, 81)])
        59 ∧
      Within testConfig
        (fanctrlRun binary32 (fanctrlConfigure testConfig Fanctrl.static).2 [(⟨true, true⟩, 81)])
        59 1 ∧
      ((fanctrlDecide binary32
          (fanctrlRun binary32 (fanctrlConfigure testConfig Fanctrl.static).2
            [(⟨true, true⟩, 81)]) 59).toOption.map fun d => d.1.toNat) = some 47 ∧
      testConfig.speed 1 = 50 ∧
      ¬ KeepsLower binary32 testConfig
        (fanctrlRun binary32 (fanctrlConfigure testConfig Fanctrl.static).2 [(⟨true, true⟩, 81)])
        59 := by
  have hwithin : Within testConfig
      (fanctrlRun binary32 (fanctrlConfigure testConfig Fanctrl.static).2 [(⟨true, true⟩, 81)])
      59 1 := by decide +kernel
  have hchosen : ((fanctrlDecide binary32
      (fanctrlRun binary32 (fanctrlConfigure testConfig Fanctrl.static).2
        [(⟨true, true⟩, 81)]) 59).toOption.map fun d => d.1.toNat) = some 47 := by decide +kernel
  refine ⟨by decide, by decide, ⟨by decide +kernel, by decide +kernel⟩, hwithin, hchosen,
    by decide, fun hkeeps => ?_⟩
  rcases hdecide : fanctrlDecide binary32
      (fanctrlRun binary32 (fanctrlConfigure testConfig Fanctrl.static).2 [(⟨true, true⟩, 81)])
      59 with status | ⟨v, s'⟩
  · rw [hdecide] at hchosen
    cases hchosen
  · rw [hdecide] at hchosen
    have hv : v.toNat = 47 := Option.some.inj hchosen
    have hspeed : testConfig.speed 1 = 50 := by decide
    have hle := hkeeps v s' hdecide 1 hwithin
    omega

end AmdgpuFand

import AmdgpuFand.Fandcfg
import AmdgpuFand.Interpolation
import Mathlib.Data.List.Range

/-!
# The fan controller (`fanctrl.c`)

The controller keeps four static variables between calls, gathered in `Fanctrl`:
the speed matrix, the hysteresis, the throttle flag and the one threshold it
remembers. `fanctrlConfigure` sets them from a configuration; each
`fanctrlAdjust` reads a temperature and writes a speed.

A call of `fanctrl_adjust` is split at the point where it has chosen a speed:
`fanctrlTarget` finds the segment of the temperature and its speed, `fanctrlDecide`
adds the hysteresis and yields the percentage handed to
`fanctrl_percentage_to_pwm` with the next state, and `fanctrlAdjust` writes it.

`fanctrlDecide_ok` says once what a step can do. From it comes `Configured`, the
invariant of every run: the static variables still are the configuration's, and
the remembered threshold is `-1` or a row of the matrix.
-/

namespace AmdgpuFand

open Rounding

/-! ## State -/

/-- `struct fanctrl_matrix` -/
structure FanctrlMatrix where
  /-- rows in use -/
  rows : UInt8
  /-- temperature thresholds -/
  temps : Vector UInt8 (matrixMaxSize / 2)
  /-- speed at each threshold, in percent -/
  speeds : Vector UInt8 (matrixMaxSize / 2)
  deriving DecidableEq, Repr

/-- The static variables of `fanctrl.c`. -/
structure Fanctrl where
  /-- the speed matrix -/
  matrix : FanctrlMatrix
  /-- degrees below a threshold at which it is released -/
  hysteresis : UInt8
  /-- row whose threshold is being held, `-1` for none -/
  currentThreshold : ℤ
  /-- turn the fans off below the first threshold -/
  throttle : Bool
  deriving DecidableEq, Repr

namespace Fanctrl

/-- Temperature of row `i`. -/
def temp (s : Fanctrl) (i : ℕ) : ℤ := (idx s.matrix.temps i).toNat

/-- Speed of row `i`. -/
def speed (s : Fanctrl) (i : ℕ) : ℤ := (idx s.matrix.speeds i).toNat

/-- Number of rows. -/
def rows (s : Fanctrl) : ℕ := s.matrix.rows.toNat

/-- Statically allocated variables start out as zero. -/
def static : Fanctrl := ⟨⟨0, Vector.replicate _ 0, Vector.replicate _ 0⟩, 0, 0, false⟩

end Fanctrl

/-! ## Configuration -/

/-- The body of the loop in `fanctrl_set_matrix`. -/
def copyRow (mat : Vector UInt8 matrixMaxSize) (m : FanctrlMatrix) (i : ℕ) : FanctrlMatrix :=
  { m with
    temps := m.temps.setIfInBounds i (idx mat (2 * i))
    speeds := m.speeds.setIfInBounds i (idx mat (2 * i + 1)) }

/-- `fanctrl_set_matrix` -/
def fanctrlSetMatrix (m : FanctrlMatrix) (mat : Vector UInt8 matrixMaxSize) (nrows : UInt8) :
    ℤ × FanctrlMatrix :=
  if matrixMaxSize / 2 < nrows.toNat then (-1, m)
  else (0, (List.range nrows.toNat).foldl (copyRow mat) { m with rows := nrows })

/-- `fanctrl_configure` -/
def fanctrlConfigure (config : FandConfig) (s : Fanctrl) : ℤ × Fanctrl :=
  let set := fanctrlSetMatrix s.matrix config.matrix config.matrixRows
  (set.1,
    { matrix := set.2
      hysteresis := config.hysteresis
      currentThreshold := -1
      throttle := config.throttle })

/-! ## Adjustment -/

/-- Conversion of `unsigned long` to `int`. -/
def toInt32 (x : UInt64) : ℤ := (x.toBitVec.setWidth 32).toInt

/-- `fanctrl_percentage_to_pwm` -/
def fanctrlPercentageToPwm (F : FloatFormat) (percentage : UInt64) : UInt64 :=
  lerp F pwmMin pwmMax (F.fl (F.fl percentage.toNat / 100))

/-- The segment search of `fanctrl_adjust`: the first row whose successor is not
below the temperature. -/
def fanctrlSegment (s : Fanctrl) (temp : ℤ) : Option ℕ :=
  (List.range (s.rows - 1)).find? fun i => s.temp i < temp ∧ temp ≤ s.temp (i + 1)

/-- The speed `fanctrl_adjust` interpolates between rows `i` and `i + 1`. -/
def fanctrlInterpolate (F : FloatFormat) (s : Fanctrl) (i : ℕ) (temp : ℤ) : UInt64 :=
  lerp F (idx s.matrix.speeds i).toUInt64 (idx s.matrix.speeds (i + 1)).toUInt64
    (lerpInverse F (idx s.matrix.temps i).toUInt64 (idx s.matrix.temps (i + 1)).toUInt64
      (UInt64.ofInt temp))

/-- Threshold and speed of a temperature, before hysteresis. -/
def fanctrlTarget (F : FloatFormat) (s : Fanctrl) (temp : ℤ) : ℤ × ℤ :=
  if temp ≤ s.temp 0 then (-1, if s.throttle then 0 else s.speed 0)
  else if temp ≤ s.temp (s.rows - 1) then
    match fanctrlSegment s temp with
    | some i => (i, toInt32 (fanctrlInterpolate F s i temp))
    -- the values `threshold` and `speed` were declared with
    | none => (-1, s.speed (s.rows - 1))
  else (s.rows - 1, s.speed (s.rows - 1))

/-- The hysteresis test: the held threshold is kept although the temperature is
below it. -/
def fanctrlHolds (s : Fanctrl) (threshold temp : ℤ) : Prop :=
  -1 < s.currentThreshold ∧ threshold < s.currentThreshold ∧
    s.temp s.currentThreshold.toNat < temp + s.hysteresis.toNat

instance (s : Fanctrl) (threshold temp : ℤ) : Decidable (fanctrlHolds s threshold temp) :=
  inferInstanceAs (Decidable (_ ∧ _ ∧ _))

/-- `fanctrl_adjust` up to the choice of a speed. `temp` is the value of
`fanctrl_get_temp`. An early return leaves the state alone; otherwise the result is
the argument of `fanctrl_percentage_to_pwm` and the next state. -/
def fanctrlDecide (F : FloatFormat) (s : Fanctrl) (temp : ℤ) : Except ℤ (UInt64 × Fanctrl) :=
  if s.rows = 0 then .error fandFatalErr
  else if temp < 0 then .error temp
  else
    let target := fanctrlTarget F s temp
    if fanctrlHolds s target.1 temp then
      .ok (UInt64.ofInt (s.speed s.currentThreshold.toNat), s)
    else
      .ok (UInt64.ofInt target.2, { s with currentThreshold := target.1 })

/-- How the system answers the calls of `fwrite_ulong_excl`. -/
structure WriteOutcome where
  /-- `fopen` and `flock` succeed -/
  opened : Bool
  /-- `fclose` succeeds -/
  closed : Bool

/-- `fwrite_ulong_excl` -/
def fwriteUlongExcl (o : WriteOutcome) : ℤ :=
  if !o.opened then -1 else if o.closed then 0 else -1

/-- `hwmon_write_pwm` -/
def hwmonWritePwm (o : WriteOutcome) (pwm : UInt64) : ℤ :=
  if pwmMax < pwm then fandFatalErr else fwriteUlongExcl o

/-- `fanctrl_adjust` -/
def fanctrlAdjust (F : FloatFormat) (o : WriteOutcome) (s : Fanctrl) (temp : ℤ) : ℤ × Fanctrl :=
  match fanctrlDecide F s temp with
  | .error status => (status, s)
  | .ok (percentage, s') => (hwmonWritePwm o (fanctrlPercentageToPwm F percentage), s')

/-- A run of `fanctrl_adjust` over a sequence of readings. -/
def fanctrlRun (F : FloatFormat) (s : Fanctrl) (temps : List (WriteOutcome × ℤ)) : Fanctrl :=
  temps.foldl (fun s r => (fanctrlAdjust F r.1 s r.2).2) s

/-! ## Interpolation in range

Between rows whose speeds do not fall, nothing wraps and nothing is lost in the
conversions: the interpolated speed stays between the two rows' speeds, in every
`float` format. -/

theorem toInt32_of_lt {x : UInt64} (h : x.toNat < 2 ^ 31) : toInt32 x = x.toNat := by
  have hw : (x.toBitVec.setWidth 32).toNat = x.toNat := by
    rw [BitVec.toNat_setWidth, UInt64.toNat_toBitVec]
    exact Nat.mod_eq_of_lt (by omega)
  rw [toInt32, BitVec.toInt_eq_toNat_of_lt (by omega), hw]

theorem toInt32_lt (x : UInt64) : toInt32 x < 2 ^ 31 := BitVec.toInt_lt

theorem toNat_ofInt_of_nonneg {x : ℤ} (h₀ : 0 ≤ x) (h₁ : x < 2 ^ 64) :
    ((UInt64.ofInt x).toNat : ℤ) = x := by
  have hmod : x % 2 ^ 64 = x := Int.emod_eq_of_lt h₀ h₁
  rw [UInt64.ofInt, hmod, UInt64.toNat_ofNat_of_lt' (by simp only [UInt64.size]; omega)]
  omega

section Interpolate

variable {F : FloatFormat} {s : Fanctrl} {i : ℕ} {temp : ℤ}

theorem Fanctrl.temp_nonneg (s : Fanctrl) (i : ℕ) : 0 ≤ s.temp i := Int.natCast_nonneg _

theorem Fanctrl.temp_le (s : Fanctrl) (i : ℕ) : s.temp i ≤ 255 := by
  have := UInt8.toNat_lt (idx s.matrix.temps i)
  simp only [Fanctrl.temp]
  omega

theorem Fanctrl.speed_nonneg (s : Fanctrl) (i : ℕ) : 0 ≤ s.speed i := Int.natCast_nonneg _

theorem Fanctrl.speed_le (s : Fanctrl) (i : ℕ) : s.speed i ≤ 255 := by
  have := UInt8.toNat_lt (idx s.matrix.speeds i)
  simp only [Fanctrl.speed]
  omega

/-- Inside a segment, `lerp_inverse` is called with `a < x ≤ b`. -/
theorem lerpInverse_args (hlo : s.temp i < temp) (hhi : temp ≤ s.temp (i + 1)) :
    (idx s.matrix.temps i).toUInt64 < UInt64.ofInt temp ∧
      UInt64.ofInt temp ≤ (idx s.matrix.temps (i + 1)).toUInt64 := by
  have h₀ := s.temp_nonneg i
  have h₁ := s.temp_le (i + 1)
  have hnat := toNat_ofInt_of_nonneg (x := temp) (by omega) (by omega)
  simp only [Fanctrl.temp] at hlo hhi
  rw [UInt64.lt_iff_toNat_lt, UInt64.le_iff_toNat_le, UInt8.toNat_toUInt64, UInt8.toNat_toUInt64]
  exact ⟨by omega, by omega⟩

/-- and its value is a fraction. -/
theorem lerpInverse_fraction (hlo : s.temp i < temp) (hhi : temp ≤ s.temp (i + 1)) :
    0 ≤ lerpInverse F (idx s.matrix.temps i).toUInt64 (idx s.matrix.temps (i + 1)).toUInt64
        (UInt64.ofInt temp) ∧
      lerpInverse F (idx s.matrix.temps i).toUInt64 (idx s.matrix.temps (i + 1)).toUInt64
        (UInt64.ofInt temp) ≤ 1 := by
  obtain ⟨h₀, h₁⟩ := lerpInverse_args hlo hhi
  refine lerpInverse_mem (UInt64.le_of_lt h₀) h₁ (UInt64.lt_of_lt_of_le h₀ h₁) ?_
  have := UInt8.toNat_lt (idx s.matrix.temps (i + 1))
  rw [UInt8.toNat_toUInt64]
  omega

/-- A byte stays small as an `unsigned long`. -/
theorem toNat_toUInt64_lt (x : UInt8) : x.toUInt64.toNat < 2 ^ 8 := by
  rw [UInt8.toNat_toUInt64]
  exact x.toNat_lt

/-- Between rows whose speed does not fall, `lerp` is called with `a ≤ b`. -/
theorem lerp_args (hspeed : s.speed i ≤ s.speed (i + 1)) :
    (idx s.matrix.speeds i).toUInt64 ≤ (idx s.matrix.speeds (i + 1)).toUInt64 := by
  rw [UInt64.le_iff_toNat_le, UInt8.toNat_toUInt64, UInt8.toNat_toUInt64]
  exact Int.ofNat_le.mp hspeed

/-- The interpolated speed lies between the speeds of its rows. -/
theorem fanctrlInterpolate_bounds (hlo : s.temp i < temp) (hhi : temp ≤ s.temp (i + 1))
    (hspeed : s.speed i ≤ s.speed (i + 1)) :
    s.speed i ≤ toInt32 (fanctrlInterpolate F s i temp) ∧
      toInt32 (fanctrlInterpolate F s i temp) ≤ s.speed (i + 1) := by
  obtain ⟨hx₀, hx₁⟩ := lerpInverse_fraction (F := F) hlo hhi
  have hb := toNat_toUInt64_lt (idx s.matrix.speeds (i + 1))
  obtain ⟨h₀, h₁⟩ := lerp_bounds (F := F) (lerp_args hspeed) (by omega) hx₀ hx₁
  rw [UInt8.toNat_toUInt64] at h₀ h₁
  rw [fanctrlInterpolate, toInt32_of_lt (by rw [UInt8.toNat_toUInt64] at hb; omega)]
  exact ⟨Int.ofNat_le.mpr h₀, Int.ofNat_le.mpr h₁⟩

end Interpolate

/-! ## What a step can do -/

section Step

variable {F : FloatFormat} {s s' : Fanctrl} {temp : ℤ}

/-- A call that chooses a speed either holds the remembered threshold, and then
changes nothing, or takes threshold and speed of the temperature. -/
theorem fanctrlDecide_ok {percentage : UInt64}
    (h : fanctrlDecide F s temp = .ok (percentage, s')) :
    s.rows ≠ 0 ∧ 0 ≤ temp ∧
      ((fanctrlHolds s (fanctrlTarget F s temp).1 temp ∧
          percentage = UInt64.ofInt (s.speed s.currentThreshold.toNat) ∧ s' = s) ∨
        (¬ fanctrlHolds s (fanctrlTarget F s temp).1 temp ∧
          percentage = UInt64.ofInt (fanctrlTarget F s temp).2 ∧
          s' = { s with currentThreshold := (fanctrlTarget F s temp).1 })) := by
  unfold fanctrlDecide at h
  by_cases hrows : s.rows = 0
  · rw [if_pos hrows] at h
    cases h
  · rw [if_neg hrows] at h
    by_cases hneg : temp < 0
    · rw [if_pos hneg] at h
      cases h
    · rw [if_neg hneg] at h
      refine ⟨hrows, by omega, ?_⟩
      by_cases hhold : fanctrlHolds s (fanctrlTarget F s temp).1 temp
      · rw [if_pos hhold] at h
        cases h
        exact Or.inl ⟨hhold, rfl, rfl⟩
      · rw [if_neg hhold] at h
        cases h
        exact Or.inr ⟨hhold, rfl, rfl⟩

/-- With a matrix and a reading, a speed is chosen. -/
theorem fanctrlDecide_total (hrows : s.rows ≠ 0) (htemp : 0 ≤ temp) :
    ∃ percentage s', fanctrlDecide F s temp = .ok (percentage, s') := by
  unfold fanctrlDecide
  rw [if_neg hrows, if_neg (by omega)]
  by_cases hhold : fanctrlHolds s (fanctrlTarget F s temp).1 temp
  · exact ⟨_, _, if_pos hhold⟩
  · exact ⟨_, _, if_neg hhold⟩

/-- The percentage that has been chosen goes to `hwmon_write_pwm` as a PWM value. -/
theorem fanctrlAdjust_ok {percentage : UInt64} (hd : fanctrlDecide F s temp = .ok (percentage, s'))
    (o : WriteOutcome) :
    fanctrlAdjust F o s temp = (hwmonWritePwm o (fanctrlPercentageToPwm F percentage), s') := by
  rw [fanctrlAdjust, hd]

/-- A reading below zero is what is returned, and nothing is written. -/
theorem fanctrlAdjust_neg (hrows : s.rows ≠ 0) (hneg : temp < 0) (o : WriteOutcome) :
    fanctrlAdjust F o s temp = (temp, s) := by
  rw [fanctrlAdjust, fanctrlDecide, if_neg hrows, if_pos hneg]

/-- `fanctrl_adjust` as a step of the state: none without a matrix or a reading, else
the one `fanctrlDecide` chose. -/
theorem fanctrlAdjust_next (F : FloatFormat) (o : WriteOutcome) (s : Fanctrl) (temp : ℤ) :
    ((s.rows = 0 ∨ temp < 0) ∧ (fanctrlAdjust F o s temp).2 = s) ∨
      ∃ percentage, fanctrlDecide F s temp = .ok (percentage, (fanctrlAdjust F o s temp).2) := by
  by_cases hready : s.rows ≠ 0 ∧ 0 ≤ temp
  · right
    obtain ⟨percentage, s', hd⟩ := fanctrlDecide_total (F := F) hready.1 hready.2
    exact ⟨percentage, by rw [fanctrlAdjust_ok hd, hd]⟩
  · left
    refine ⟨by omega, ?_⟩
    rcases hd : fanctrlDecide F s temp with status | ⟨percentage, s'⟩
    · rw [fanctrlAdjust, hd]
    · obtain ⟨hrows, htemp, -⟩ := fanctrlDecide_ok hd
      exact absurd ⟨hrows, htemp⟩ hready

theorem fanctrlSegment_eq_some {i : ℕ} (h : fanctrlSegment s temp = some i) :
    i + 1 < s.rows ∧ s.temp i < temp ∧ temp ≤ s.temp (i + 1) := by
  have hmem := List.mem_range.mp (List.mem_of_find?_eq_some h)
  have hp := List.find?_some h
  simp only [decide_eq_true_eq] at hp
  exact ⟨by omega, hp.1, hp.2⟩

theorem fanctrlTarget_low (h : temp ≤ s.temp 0) :
    fanctrlTarget F s temp = (-1, if s.throttle then 0 else s.speed 0) :=
  if_pos h

theorem fanctrlTarget_high (h₀ : s.temp 0 < temp) (h₁ : s.temp (s.rows - 1) < temp) :
    fanctrlTarget F s temp = ((s.rows : ℤ) - 1, s.speed (s.rows - 1)) := by
  rw [fanctrlTarget, if_neg (not_le.mpr h₀), if_neg (not_le.mpr h₁)]

theorem fanctrlTarget_mid (h₀ : s.temp 0 < temp) (h₁ : temp ≤ s.temp (s.rows - 1)) {i : ℕ}
    (hseg : fanctrlSegment s temp = some i) :
    fanctrlTarget F s temp = ((i : ℤ), toInt32 (fanctrlInterpolate F s i temp)) := by
  rw [fanctrlTarget, if_neg (not_le.mpr h₀), if_pos h₁, hseg]

/-- A temperature between the first and the last row lies in some segment, however
the rows are ordered. -/
theorem fanctrlSegment_isSome (h₀ : s.temp 0 < temp) (h₁ : temp ≤ s.temp (s.rows - 1)) :
    ∃ i, fanctrlSegment s temp = some i := by
  rcases hseg : fanctrlSegment s temp with _ | i
  · -- no segment contains it: then every row is below it, the last one included
    exfalso
    have hnone : ∀ i, i < s.rows - 1 → s.temp i < temp → s.temp (i + 1) < temp := by
      intro i hi hlt
      have := List.find?_eq_none.mp hseg i (List.mem_range.mpr hi)
      simp only [decide_eq_true_eq, not_and, not_le] at this
      exact this hlt
    have hall : ∀ i, i ≤ s.rows - 1 → s.temp i < temp := by
      intro i
      induction i with
      | zero => exact fun _ => h₀
      | succ i ih => exact fun hi => hnone i (by omega) (ih (by omega))
    have := hall (s.rows - 1) (le_refl _)
    omega
  · exact ⟨i, rfl⟩

/-- The three regions of `fanctrl_adjust`. The declared initial values of `threshold`
and `speed` are never used. -/
theorem fanctrlTarget_cases (F : FloatFormat) (s : Fanctrl) (temp : ℤ) :
    (temp ≤ s.temp 0 ∧ fanctrlTarget F s temp = (-1, if s.throttle then 0 else s.speed 0)) ∨
    (∃ i, fanctrlSegment s temp = some i ∧
      fanctrlTarget F s temp = ((i : ℤ), toInt32 (fanctrlInterpolate F s i temp))) ∨
    (s.temp (s.rows - 1) < temp ∧
      fanctrlTarget F s temp = ((s.rows : ℤ) - 1, s.speed (s.rows - 1))) := by
  rcases le_or_gt temp (s.temp 0) with hlow | hlow
  · exact Or.inl ⟨hlow, fanctrlTarget_low hlow⟩
  · rcases le_or_gt temp (s.temp (s.rows - 1)) with hhigh | hhigh
    · obtain ⟨i, hseg⟩ := fanctrlSegment_isSome hlow hhigh
      exact Or.inr (Or.inl ⟨i, hseg, fanctrlTarget_mid hlow hhigh hseg⟩)
    · exact Or.inr (Or.inr ⟨hhigh, fanctrlTarget_high hlow hhigh⟩)

/-- The threshold of a temperature is `-1` or a row. -/
theorem fanctrlTarget_threshold (F : FloatFormat) (s : Fanctrl) (temp : ℤ) :
    -1 ≤ (fanctrlTarget F s temp).1 ∧ (fanctrlTarget F s temp).1 < s.rows := by
  obtain ⟨-, heq⟩ | ⟨i, hseg, heq⟩ | ⟨-, heq⟩ := fanctrlTarget_cases F s temp
  · rw [heq]
    exact ⟨le_refl _, by omega⟩
  · rw [heq]
    have := (fanctrlSegment_eq_some hseg).1
    exact ⟨by omega, by omega⟩
  · rw [heq]
    exact ⟨by omega, by omega⟩

/-- The speed found fits an `int`. -/
theorem fanctrlTarget_snd_lt (F : FloatFormat) (s : Fanctrl) (temp : ℤ) :
    (fanctrlTarget F s temp).2 < 2 ^ 31 := by
  obtain ⟨-, heq⟩ | ⟨i, -, heq⟩ | ⟨-, heq⟩ := fanctrlTarget_cases F s temp
  · rw [heq]
    have := s.speed_le 0
    dsimp only
    split_ifs <;> omega
  · rw [heq]
    exact toInt32_lt _
  · rw [heq]
    have := s.speed_le (s.rows - 1)
    dsimp only
    omega

end Step

/-! ## The invariant of a run -/

/-- The controller is running on configuration `c`: its static variables are the
configuration's, and the remembered threshold is `-1` or a row. -/
structure Configured (c : FandConfig) (s : Fanctrl) : Prop where
  /-- as many rows -/
  rows : s.rows = c.rows
  /-- with the same temperatures -/
  temp : ∀ i, i < c.rows → s.temp i = c.temp i
  /-- and the same speeds -/
  speed : ∀ i, i < c.rows → s.speed i = c.speed i
  /-- the same hysteresis -/
  hysteresis : s.hysteresis = c.hysteresis
  /-- the same throttle setting -/
  throttle : s.throttle = c.throttle
  /-- no row is held, or one is -/
  threshold_ge : -1 ≤ s.currentThreshold
  /-- and it is a row of the matrix -/
  threshold_lt : s.currentThreshold < c.rows

theorem foldl_copyRow (mat : Vector UInt8 matrixMaxSize) (m : FanctrlMatrix) :
    ∀ n, n ≤ matrixMaxSize / 2 →
      ((List.range n).foldl (copyRow mat) m).rows = m.rows ∧
      ∀ i, i < n →
        idx ((List.range n).foldl (copyRow mat) m).temps i = idx mat (2 * i) ∧
        idx ((List.range n).foldl (copyRow mat) m).speeds i = idx mat (2 * i + 1) := by
  intro n
  induction n with
  | zero => exact fun _ => ⟨rfl, fun i hi => absurd hi (Nat.not_lt_zero i)⟩
  | succ n ih =>
    intro hn
    obtain ⟨hrows, hcopied⟩ := ih (by omega)
    rw [List.range_succ, List.foldl_append]
    refine ⟨hrows, fun i hi => ?_⟩
    simp only [List.foldl_cons, List.foldl_nil, copyRow, idx_set]
    rcases Nat.lt_succ_iff_lt_or_eq.mp hi with hlt | rfl
    · rw [if_neg (by omega), if_neg (by omega)]
      exact hcopied i hlt
    · rw [if_pos ⟨rfl, by omega⟩, if_pos ⟨rfl, by omega⟩]
      exact ⟨rfl, rfl⟩

/-- `fanctrl_configure` succeeds on at most sixteen rows and establishes the invariant. -/
theorem fanctrlConfigure_configured {c : FandConfig} (s : Fanctrl)
    (hrows : c.rows ≤ maxTempThresholds) :
    (fanctrlConfigure c s).1 = 0 ∧ Configured c (fanctrlConfigure c s).2 := by
  have hle : ¬ matrixMaxSize / 2 < c.matrixRows.toNat := Nat.not_lt.mpr hrows
  obtain ⟨hr, hcopied⟩ :=
    foldl_copyRow c.matrix { s.matrix with rows := c.matrixRows } c.matrixRows.toNat hrows
  have hset : fanctrlSetMatrix s.matrix c.matrix c.matrixRows =
      (0, (List.range c.matrixRows.toNat).foldl (copyRow c.matrix)
        { s.matrix with rows := c.matrixRows }) := if_neg hle
  unfold fanctrlConfigure
  rw [hset]
  refine ⟨rfl, ?_, ?_, ?_, rfl, rfl, le_refl _, by simp only [FandConfig.rows]; omega⟩
  · exact congrArg UInt8.toNat hr
  · intro i hi
    simp only [Fanctrl.temp, FandConfig.temp]
    rw [(hcopied i hi).1]
  · intro i hi
    simp only [Fanctrl.speed, FandConfig.speed]
    rw [(hcopied i hi).2]

namespace Configured

variable {F : FloatFormat} {c : FandConfig} {s s' : Fanctrl} {temp : ℤ}

/-- Changing the remembered threshold to a row keeps the controller configured. -/
theorem set_threshold (h : Configured c s) {k : ℤ} (hge : -1 ≤ k) (hlt : k < c.rows) :
    Configured c { s with currentThreshold := k } :=
  ⟨h.rows, h.temp, h.speed, h.hysteresis, h.throttle, hge, hlt⟩

theorem decide (h : Configured c s) {percentage : UInt64}
    (hd : fanctrlDecide F s temp = .ok (percentage, s')) : Configured c s' := by
  obtain ⟨-, -, ⟨-, -, rfl⟩ | ⟨-, -, rfl⟩⟩ := fanctrlDecide_ok hd
  · exact h
  · obtain ⟨hge, hlt⟩ := fanctrlTarget_threshold F s temp
    rw [h.rows] at hlt
    exact h.set_threshold hge hlt

theorem adjust (h : Configured c s) (o : WriteOutcome) :
    Configured c (fanctrlAdjust F o s temp).2 := by
  rcases fanctrlAdjust_next F o s temp with ⟨-, heq⟩ | ⟨percentage, hd⟩
  · rw [heq]
    exact h
  · exact h.decide hd

/-- Every run keeps the controller configured. -/
theorem run (h : Configured c s) (temps : List (WriteOutcome × ℤ)) :
    Configured c (fanctrlRun F s temps) := by
  induction temps generalizing s with
  | nil => exact h
  | cons r rest ih => exact ih (h.adjust r.1)

end Configured

end AmdgpuFand

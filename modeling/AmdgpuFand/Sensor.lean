import AmdgpuFand.PwmRange
import AmdgpuFand.Restart

/-!
# Temperature readings

A temperature comes from the DRM driver, as an `int`, or from the file `temp1_input`, as a text
that is converted to an `unsigned long` and then to an `int`. What is below zero is handed on as
the status of `fanctrl_adjust`, whether it stands for a failure or is a temperature, and the daemon
stops if the status is `FAND_FATAL_ERR`.

A failed reading is -1 and does no harm. But -32 is a temperature, in thousandths of a degree, and
`FAND_FATAL_ERR` as well. `sensor_harmless_iff` says that the sources that deliver it, a file
through one of the numerals that end up as -32, are the only ones that stop the daemon.
-/

namespace AmdgpuFand

open CLib Rounding

/-! ## Sources -/

/-- What reading a file with `fread_ulong_excl` meets -/
inductive ReadOutcome
  /-- `fopen` or `flock` fails, with `errno` set -/
  | refused (errno : ℕ) (nonzero : errno ≠ 0)
  /-- reading fails -/
  | failed
  /-- the file is open, and `text` is in it -/
  | opened (text : List Char)

def fileUlongBufsize : ℕ := 16

/-- The string in `buffer` behind the call of `strcspn`, after `fgets` has read a line from a file
that is not empty. -/
def ulongLine (text : List Char) : List Char :=
  (cstr (readLine (fileUlongBufsize - 1) text).1).takeWhile (· ≠ '\n')

/-- `fread_ulong_excl`, with the status or the value it stores -/
def freadUlongExcl : ReadOutcome → Except ℤ UInt64
  | .refused errno _ => .error errno
  | .failed => .error (-eagain)
  | .opened text =>
    match fgets fileUlongBufsize text with
    | none => .error (-eagain)
    | some _ =>
      let (status, value) := strstoul (ulongLine text)
      if status ≠ 0 then .error status else .ok value

/-- `hwmon_read_temp` -/
def hwmonReadTemp (o : ReadOutcome) : ℤ :=
  match freadUlongExcl o with
  | .error _ => -1
  | .ok temp => toInt32 temp

/-- `drm_get_temp`. The answer is missing if `ioctl` fails. -/
def drmGetTemp (answer : Option (BitVec 32)) : ℤ :=
  match answer with
  | none => -1
  | some temp => temp.toInt

/-- Where `fanctrl_get_temp` gets a temperature, which the build decides -/
inductive TempSource
  | drm (answer : Option (BitVec 32))
  | hwmon (o : ReadOutcome)

/-- `MILLIDEGC_ADJUST` -/
def millidegcAdjust : ℤ := 1000

/-- The value of `temp` in `fanctrl_get_temp` -/
def TempSource.raw : TempSource → ℤ
  | drm answer => drmGetTemp answer
  | hwmon o => hwmonReadTemp o

/-- `fanctrl_get_temp`. The division is of a number that is not negative. -/
def fanctrlGetTemp (source : TempSource) : ℤ :=
  if source.raw < 0 then source.raw else source.raw / millidegcAdjust

/-! ## Harmless readings -/

/-- Nothing has been read. -/
def TempSource.Failed : TempSource → Prop
  | drm answer => answer = none
  | hwmon o => ∃ status, freadUlongExcl o = .error status

/-- There is no temperature, or one below zero. -/
def TempSource.Bad (source : TempSource) : Prop := source.Failed ∨ source.raw < 0

/-- A reading does not stop the daemon. Only a PWM value out of range is fatal, and a bad reading is
reported and changes nothing. -/
structure Harmless (F : FloatFormat) (o : WriteOutcome) (s : Daemon) (source : TempSource) :
    Prop where
  fatal : (fanctrlAdjust F o s.world.fanctrl (fanctrlGetTemp source)).1 = fandFatalErr →
    ∃ percentage fanctrl,
      fanctrlDecide F s.world.fanctrl (fanctrlGetTemp source) = .ok (percentage, fanctrl) ∧
        pwmMax < fanctrlPercentageToPwm F percentage
  reported : source.Bad → (fanctrlAdjust F o s.world.fanctrl (fanctrlGetTemp source)).1 < 0 ∧
    (fanctrlAdjust F o s.world.fanctrl (fanctrlGetTemp source)).1 ≠ fandFatalErr
  alive : source.Bad → (s.daemonAdjustFanspeed F o (fanctrlGetTemp source)).alive = s.alive
  unchanged : source.Bad →
    (s.daemonAdjustFanspeed F o (fanctrlGetTemp source)).world.fanctrl = s.world.fanctrl

/-- A number that is -32 as an `int` -/
def IsFatalNumeral (n : Numeral) : Prop :=
  n.magnitude % 2 ^ 32 = if n.sign = .minus then 32 else 2 ^ 32 - 32

/-- The driver answers with -32, or the first line of the file is a number that becomes -32. -/
def TempSource.DeliversFatal : TempSource → Prop
  | drm answer => answer = some (-32)
  | hwmon (.opened text) => ∃ n : Numeral, n.text = ulongLine text ∧ IsFatalNumeral n
  | hwmon _ => False

/-! ## What is read -/

theorem length_ulongLine_le (text : List Char) : (ulongLine text).length ≤ 15 :=
  calc (ulongLine text).length
      ≤ (cstr (readLine (fileUlongBufsize - 1) text).1).length :=
        (List.takeWhile_sublist _).length_le
    _ ≤ (readLine (fileUlongBufsize - 1) text).1.length := (List.takeWhile_sublist _).length_le
    _ ≤ 15 := length_readLine_le _ _

/-- A number of the file is too short to overflow. -/
theorem magnitude_lt {n : Numeral} {text : List Char} (h : n.text = ulongLine text) :
    n.magnitude < 2 ^ 63 := by
  have hlen : n.digits.length ≤ 15 := by
    have hle := n.length_digits_le
    rw [h] at hle
    exact hle.trans (length_ulongLine_le text)
  calc n.magnitude < 10 ^ n.digits.length := ofDigitChars_lt n.isDigit_digits
    _ ≤ 10 ^ 15 := Nat.pow_le_pow_right (by decide) hlen
    _ < 2 ^ 63 := by decide

/-- `fread_ulong_excl` accepts the files with a number in the first line. -/
theorem freadUlongExcl_opened_iff {text : List Char} {value : UInt64} :
    freadUlongExcl (.opened text) = .ok value ↔
      ∃ n : Numeral, n.text = ulongLine text ∧ n.value = value := by
  rw [← strstoul_eq_ok_iff]
  rcases text with _ | ⟨c, text⟩
  · refine iff_of_false (fun h => by cases h) fun h => ?_
    have hempty : strstoul (ulongLine []) = (-einval, 0) := rfl
    rw [hempty] at h
    cases h
  · have hread : freadUlongExcl (.opened (c :: text)) =
        if (strstoul (ulongLine (c :: text))).1 ≠ 0 then
          .error (strstoul (ulongLine (c :: text))).1
        else .ok (strstoul (ulongLine (c :: text))).2 := rfl
    rw [hread]
    obtain ⟨status, value'⟩ := strstoul (ulongLine (c :: text))
    by_cases hstatus : status = 0
    · rw [if_neg (not_not.mpr hstatus), hstatus, Except.ok.injEq, Prod.mk.injEq]
      exact ⟨fun h => ⟨rfl, h⟩, fun h => h.2⟩
    · rw [if_pos hstatus]
      refine iff_of_false (fun h => by cases h) fun h => hstatus ?_
      rw [Prod.mk.injEq] at h
      exact h.1

theorem toInt32_eq_fatal_iff (x : UInt64) :
    toInt32 x = fandFatalErr ↔ x.toNat % 2 ^ 32 = 2 ^ 32 - 32 := by
  rw [toInt32, BitVec.toInt_setWidth, UInt64.toNat_toBitVec, Int.bmod_def, fandFatalErr]
  omega

/-- The sign is taken off in the unsigned type, and the width in the conversion. -/
theorem toInt32_value_iff {n : Numeral} (h : n.magnitude < 2 ^ 63) :
    toInt32 n.value = fandFatalErr ↔ IsFatalNumeral n := by
  rw [toInt32_eq_fatal_iff, Numeral.toNat_value_of_lt (by omega), IsFatalNumeral]
  by_cases hsign : n.sign = .minus
  · rw [if_pos hsign, if_pos hsign]
    omega
  · rw [if_neg hsign, if_neg hsign]

namespace TempSource

variable {source : TempSource}

/-- A failure is reported as -1. -/
theorem raw_of_failed (h : source.Failed) : source.raw = -1 := by
  cases source with
  | drm answer =>
    have hnone : answer = none := h
    rw [hnone]
    rfl
  | hwmon o =>
    obtain ⟨status, hread⟩ := h
    rw [raw, hwmonReadTemp, hread]

theorem raw_neg_of_bad (h : source.Bad) : source.raw < 0 := by
  rcases h with hfailed | hneg
  · rw [raw_of_failed hfailed]
    decide
  · exact hneg

/-- What ends up as `FAND_FATAL_ERR` -/
theorem raw_eq_fatal_iff : source.raw = fandFatalErr ↔ source.DeliversFatal := by
  cases source with
  | drm answer =>
    cases answer with
    | none => exact iff_of_false (by decide) fun h => by cases h
    | some temp =>
      have hminus : fandFatalErr = (-32 : BitVec 32).toInt := by decide
      change temp.toInt = fandFatalErr ↔ some temp = some (-32)
      rw [hminus, BitVec.toInt_inj, Option.some.injEq]
  | hwmon o =>
    cases o with
    | refused errno nonzero =>
      exact iff_of_false (fun h : (-1 : ℤ) = fandFatalErr => absurd h (by decide)) fun h => h
    | failed => exact iff_of_false (by decide) fun h => h
    | opened text =>
      have hmodel : (hwmon (.opened text)).raw =
          match freadUlongExcl (.opened text) with
          | .error _ => -1
          | .ok temp => toInt32 temp := rfl
      refine ⟨?_, ?_⟩
      · intro h
        rw [hmodel] at h
        rcases hread : freadUlongExcl (.opened text) with status | temp
        · rw [hread] at h
          cases h
        · rw [hread] at h
          obtain ⟨n, htext, rfl⟩ := freadUlongExcl_opened_iff.mp hread
          exact ⟨n, htext, (toInt32_value_iff (magnitude_lt htext)).mp h⟩
      · rintro ⟨n, htext, hfatal⟩
        rw [hmodel, freadUlongExcl_opened_iff.mpr ⟨n, htext, rfl⟩]
        exact (toInt32_value_iff (magnitude_lt htext)).mpr hfatal

end TempSource

/-! ## What the daemon does with it -/

section Adjust

variable {F : FloatFormat} {o : WriteOutcome} {s : Fanctrl} {temp : ℤ}

/-- A reading that is not below zero is fatal through the PWM value only. -/
theorem fanctrlAdjust_fatal (hrows : s.rows ≠ 0) (hnonneg : 0 ≤ temp)
    (h : (fanctrlAdjust F o s temp).1 = fandFatalErr) :
    ∃ percentage s', fanctrlDecide F s temp = .ok (percentage, s') ∧
      pwmMax < fanctrlPercentageToPwm F percentage := by
  obtain ⟨percentage, s', hdecide⟩ := fanctrlDecide_total (F := F) hrows hnonneg
  rw [fanctrlAdjust_ok hdecide] at h
  exact ⟨percentage, s', hdecide, (hwmonWritePwm_fatal o _).mp h⟩

end Adjust

/-- **Readings that do no harm.** With a matrix, in every state and from every source, a reading
does not stop the daemon and changes nothing when it fails or is below zero, unless the source
delivers -32, which is the number of `FAND_FATAL_ERR`. -/
theorem sensor_harmless_iff (F : FloatFormat) (o : WriteOutcome) (s : Daemon) (source : TempSource)
    (hrows : s.world.fanctrl.rows ≠ 0) :
    Harmless F o s source ↔ ¬ source.DeliversFatal := by
  rw [← TempSource.raw_eq_fatal_iff]
  by_cases hneg : source.raw < 0
  · have htemp : fanctrlGetTemp source = source.raw := if_pos hneg
    have hadjust := fanctrlAdjust_neg (F := F) hrows hneg o
    refine ⟨?_, ?_⟩
    · intro h hfatal
      obtain ⟨-, hne⟩ := h.reported (.inr hneg)
      rw [htemp, hadjust] at hne
      exact hne hfatal
    · intro hne
      refine ⟨fun hfatal => ?_, fun _ => ?_, fun _ => ?_, fun _ => ?_⟩
      · rw [htemp, hadjust] at hfatal
        exact absurd hfatal hne
      · rw [htemp, hadjust]
        exact ⟨hneg, hne⟩
      · rw [htemp, Daemon.daemonAdjustFanspeed, hadjust]
        simp [hne]
      · rw [htemp, Daemon.daemonAdjustFanspeed, hadjust]
  -- a reading that is not negative is good, and never fatal
  · have hbad : ¬ source.Bad := mt TempSource.raw_neg_of_bad hneg
    have hnonneg : 0 ≤ fanctrlGetTemp source := by
      rw [fanctrlGetTemp, if_neg hneg]
      exact Int.ediv_nonneg (not_lt.mp hneg) (by decide)
    refine iff_of_true ⟨?_, ?_, ?_, ?_⟩ ?_
    · exact fanctrlAdjust_fatal hrows hnonneg
    · exact fun h => absurd h hbad
    · exact fun h => absurd h hbad
    · exact fun h => absurd h hbad
    · intro hfatal
      rw [hfatal] at hneg
      exact hneg (by decide)

/-- A daemon whose controller has one row -/
def oneRowDaemon : Daemon :=
  { Daemon.start false true bootPlain with
    world := { bootPlain.world with
      fanctrl := { Fanctrl.static with
        matrix := ⟨1, Vector.replicate _ 50, Vector.replicate _ 20⟩ } } }

/-- A reading of -31 thousandths of a degree -/
theorem sensor_harmless_thirty_one :
    oneRowDaemon.world.fanctrl.rows ≠ 0 ∧
      Harmless binary32 ⟨true, true⟩ oneRowDaemon (.drm (some (-31))) := by
  have hrows : oneRowDaemon.world.fanctrl.rows ≠ 0 := by decide
  refine ⟨hrows, ?_⟩
  refine (sensor_harmless_iff binary32 ⟨true, true⟩ oneRowDaemon (.drm (some (-31))) hrows).mpr ?_
  intro h
  have hfatal : some (-31 : BitVec 32) = some (-32) := h
  revert hfatal
  decide

/-- A reading of -32 thousandths of a degree stops the daemon, whichever way it is read. -/
theorem reading_stops_daemon :
    oneRowDaemon.world.fanctrl.rows ≠ 0 ∧ oneRowDaemon.alive = true ∧
      (∀ source ∈ [TempSource.drm (some (-32)), .hwmon (.opened "-32\n".toList)],
        source.Bad ∧
          (fanctrlAdjust binary32 ⟨true, true⟩ oneRowDaemon.world.fanctrl
            (fanctrlGetTemp source)).1 = fandFatalErr ∧
          (oneRowDaemon.daemonAdjustFanspeed binary32 ⟨true, true⟩
            (fanctrlGetTemp source)).alive = false ∧
          ¬ Harmless binary32 ⟨true, true⟩ oneRowDaemon source) := by
  refine ⟨by decide, rfl, fun source hsource => ?_⟩
  have hraw : source.raw = -32 := by
    rcases List.mem_pair.mp hsource with rfl | rfl
    · decide
    · decide +kernel
  have hneg : source.raw < 0 := by
    rw [hraw]
    decide
  have hadjust := @fanctrlAdjust_neg binary32 oneRowDaemon.world.fanctrl (-32) (by decide)
    (by decide) ⟨true, true⟩
  have htemp : fanctrlGetTemp source = -32 := (if_pos hneg).trans hraw
  rw [htemp, Daemon.daemonAdjustFanspeed, hadjust]
  refine ⟨.inr hneg, rfl, rfl, fun h => ?_⟩
  obtain ⟨-, hne⟩ := h.reported (.inr hneg)
  rw [htemp, hadjust] at hne
  exact hne rfl

end AmdgpuFand

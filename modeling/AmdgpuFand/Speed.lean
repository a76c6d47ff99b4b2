import AmdgpuFand.Format
import AmdgpuFand.MatrixPrint
import AmdgpuFand.Sensor

/-!
# The speed that is set and the speed that is reported

`fanctrl_adjust` makes a percentage a PWM value by `lerp`, which rounds to the nearest, and
`fanctrl_get_speed` makes the PWM value a percentage by a conversion to `int`, which cuts off. A
percentage whose PWM value has been rounded down comes back one less: of 2 percent, the value is 5,
and that is reported as 1 percent.
-/

namespace AmdgpuFand

open CLib Rounding

/-! ## Reading the speed -/

/-- The conversion of a `float` to `int` -/
def truncate (q : ℚ) : ℤ := if 0 ≤ q then ⌊q⌋ else ⌈q⌉

/-- `hwmon_read_pwm` -/
def hwmonReadPwm (o : ReadOutcome) : ℤ :=
  match freadUlongExcl o with
  | .error _ => -1
  | .ok pwm => toInt32 pwm

/-- `fanctrl_get_speed` -/
def fanctrlGetSpeed (F : FloatFormat) (o : ReadOutcome) : ℤ :=
  if hwmonReadPwm o < 0 then -1
  else truncate (F.fl (100 * lerpInverse F pwmMin pwmMax (UInt64.ofInt (hwmonReadPwm o))))

/-- The file `pwm1` while the card drives its fan with this value -/
def pwmFile (pwm : UInt64) : ReadOutcome := .opened (Nat.toDigits 10 pwm.toNat ++ ['\n'])

/-- The PWM value that a step of the controller has written, if it has -/
def fanctrlWritten (F : FloatFormat) (o : WriteOutcome) (s : Fanctrl) (temp : ℤ) : Option UInt64 :=
  match fanctrlDecide F s temp with
  | .error _ => none
  | .ok (percentage, _) =>
    if hwmonWritePwm o (fanctrlPercentageToPwm F percentage) = 0 then
      some (fanctrlPercentageToPwm F percentage)
    else none

/-- What `amdgpu-fanctl` prints for a request of the speed, when the two can talk to each other -/
def requestSpeed (env : FormatEnv) (strerror : BitVec 32 → List Char) (calls : ServerCalls)
    (config : FandConfig) (buffer : Vector UInt8 ipcMaxMsgLength) (result : List UInt8) :
    Option Printed := do
  let reply ← serverRecvAndRespond calls config buffer
  let (rsp, result) ← unpackSpeed reply.bytes reply.bytes.length result
  format env strerror result ipcReqSpeed (UInt8.ofInt rsp)

/-! ## The way there and back -/

/-- A number in decimal, as it is written -/
def decimalNumeral (n : ℕ) : Numeral :=
  ⟨[], .none, Nat.toDigits 10 n, Numeral.isSpace_nil, Nat.toDigits_ne_nil,
    (isNumeral_toDigits n).2⟩

theorem decimalNumeral_value {pwm : UInt64} : (decimalNumeral pwm.toNat).value = pwm := by
  have hmagnitude : (decimalNumeral pwm.toNat).magnitude = pwm.toNat :=
    Nat.ofDigitChars_toDigits (by decide) (by decide)
  rw [Numeral.value_of_lt (by rw [hmagnitude]; exact pwm.toNat_lt), hmagnitude,
    if_neg (show (decimalNumeral pwm.toNat).sign ≠ .minus by exact Sign.noConfusion),
    UInt64.ofNat_toNat]

/-- Decimal digits are read back. -/
theorem freadUlongExcl_pwmFile {pwm : UInt64} (h : pwm.toNat ≤ 255) :
    freadUlongExcl (pwmFile pwm) = .ok pwm := by
  have hdigits := isNumeral_toDigits pwm.toNat
  have hnot : ∀ c : Char, c.isDigit = false → c ∉ Nat.toDigits 10 pwm.toNat := by
    intro c hc hmem
    rw [hdigits.2 c hmem] at hc
    cases hc
  have hlen : (Nat.toDigits 10 pwm.toNat).length ≤ 3 :=
    (Nat.length_toDigits_le_iff (by decide) (by decide)).mpr (by omega)
  refine freadUlongExcl_opened_iff.mpr ⟨decimalNumeral pwm.toNat, ?_, decimalNumeral_value⟩
  have hline : (readLine (fileUlongBufsize - 1) (Nat.toDigits 10 pwm.toNat ++ ['\n'])).1 =
      Nat.toDigits 10 pwm.toNat ++ ['\n'] := by
    rw [readLine_newline (hnot '\n' rfl) (by rw [fileUlongBufsize]; omega)]
  have hcstr : cstr (Nat.toDigits 10 pwm.toNat ++ ['\n']) = Nat.toDigits 10 pwm.toNat ++ ['\n'] :=
    cstr_eq_self fun hc => by
      rcases List.mem_append.mp hc with hmem | hmem
      · exact hnot _ rfl hmem
      · cases List.mem_singleton.mp hmem
  rw [ulongLine, hline, hcstr, List.takeWhile_append_of_pos, List.takeWhile_cons_of_neg (by simp),
    List.append_nil]
  · rfl
  · intro c hc
    rw [decide_eq_true_eq]
    rintro rfl
    exact hnot _ rfl hc

theorem hwmonReadPwm_pwmFile {pwm : UInt64} (h : pwm.toNat ≤ 255) :
    hwmonReadPwm (pwmFile pwm) = pwm.toNat := by
  rw [hwmonReadPwm, freadUlongExcl_pwmFile h]
  exact toInt32_of_lt (by omega)

/-- A percentage is rounded to the nearest PWM value. -/
theorem fanctrlPercentageToPwm_exact {v : UInt64} (hv : v.toNat ≤ 100) :
    (fanctrlPercentageToPwm exactArith v).toNat = (510 * v.toNat + 100) / 200 := by
  have hfloat : lerpFloat exactArith pwmMin pwmMax ((v.toNat : ℚ) / 100) =
      255 * ((v.toNat : ℚ) / 100) := by
    have hmin : pwmMin.toNat = 0 := rfl
    have hdiff : (pwmMax - pwmMin).toNat = 255 := rfl
    rw [lerpFloat, exactArith_fl, exactArith_fl, exactArith_fl, exactArith_fl, hmin, hdiff,
      Nat.cast_zero, zero_add, Nat.cast_ofNat]
  have hvq : (v.toNat : ℚ) ≤ 100 := by exact_mod_cast hv
  have hnonneg : (0 : ℚ) ≤ 255 * ((v.toNat : ℚ) / 100) := by positivity
  have hround : halfAway (255 * ((v.toNat : ℚ) / 100)) = ((510 * v.toNat + 100) / 200 : ℕ) := by
    have hsum : 255 * ((v.toNat : ℚ) / 100) + 1 / 2 =
        ((510 * v.toNat + 100 : ℕ) : ℚ) / (200 : ℕ) := by
      push_cast
      ring
    rw [halfAway_of_nonneg hnonneg, hsum, Rat.floor_natCast_div_natCast, Int.natCast_ediv]
  have hpwm := toNat_lerp (F := exactArith) (a := pwmMin) (b := pwmMax)
    (x := (v.toNat : ℚ) / 100) (n := 255) (by decide) (by rw [hfloat]; exact hnonneg)
    (by rw [hfloat]; push_cast; linarith)
  rw [hfloat, hround] at hpwm
  rw [fanctrlPercentageToPwm, exactArith_fl, exactArith_fl]
  exact_mod_cast hpwm

/-- A PWM value is cut off to a percentage. -/
theorem fanctrlGetSpeed_exact {pwm : UInt64} (h : pwm.toNat ≤ 255) :
    fanctrlGetSpeed exactArith (pwmFile pwm) = ((100 * pwm.toNat / 255 : ℕ) : ℤ) := by
  have hread := hwmonReadPwm_pwmFile h
  have hpwm : UInt64.ofInt (hwmonReadPwm (pwmFile pwm)) = pwm := by
    rw [hread, ← UInt64.toNat_inj]
    have hback := toNat_ofInt_of_nonneg (Int.natCast_nonneg pwm.toNat) (by omega)
    exact_mod_cast hback
  have hfrac : 100 * lerpInverse exactArith pwmMin pwmMax pwm =
      ((100 * pwm.toNat : ℕ) : ℚ) / (255 : ℕ) := by
    have hdiff : (pwmMax - pwmMin).toNat = 255 := rfl
    have hsub : (pwm - pwmMin).toNat = pwm.toNat := by
      rw [UInt64.toNat_sub_of_le _ _ (UInt64.le_iff_toNat_le.mpr (Nat.zero_le _))]
      rfl
    rw [lerpInverse, exactArith_fl, exactArith_fl, exactArith_fl, hdiff, hsub]
    push_cast
    ring
  rw [fanctrlGetSpeed, if_neg (by rw [hread]; omega), hpwm, exactArith_fl, hfrac, truncate,
    if_pos (by positivity), Rat.floor_natCast_div_natCast, Int.natCast_ediv]

/-- Rounding a hundredth and cutting off undo each other unless the rounding is down. -/
theorem round_trip_iff (v : ℕ) :
    100 * ((510 * v + 100) / 200) / 255 = v ↔ 255 * v % 100 = 0 ∨ 50 ≤ 255 * v % 100 := by
  have hdiv := Nat.div_add_mod (255 * v) 100
  have hlt := Nat.mod_lt (255 * v) (by decide : 100 > 0)
  generalize 255 * v / 100 = k at hdiv
  generalize 255 * v % 100 = r at hdiv hlt ⊢
  by_cases hup : 50 ≤ r
  · have hround : (510 * v + 100) / 200 = k + 1 := by omega
    rw [hround]
    omega
  · have hround : (510 * v + 100) / 200 = k := by omega
    rw [hround]
    omega

/-- There and back, a percentage is kept where its PWM value is not rounded down. -/
theorem fanctrlGetSpeed_percentage {v : UInt64} (hv : v.toNat ≤ 100) :
    fanctrlGetSpeed exactArith (pwmFile (fanctrlPercentageToPwm exactArith v)) = v.toNat ↔
      255 * v.toNat % 100 = 0 ∨ 50 ≤ 255 * v.toNat % 100 := by
  have hpwm := fanctrlPercentageToPwm_exact hv
  rw [fanctrlGetSpeed_exact (by omega), hpwm, Int.ofNat_inj, round_trip_iff]

/-! ## The answer of the control interface -/

/-- A speed that is not negative is printed. -/
theorem requestSpeed_eq {config : FandConfig} (hpos : 1 ≤ config.rows)
    (hrows : config.rows ≤ maxTempThresholds) {speed : BitVec 32} (hspeed : ¬ speed.toInt < 0)
    (env : FormatEnv) (strerror : BitVec 32 → List Char) (uid : UInt32) (temp : BitVec 32)
    (sent : Bool) (buffer : Vector UInt8 ipcMaxMsgLength) (result : Vector UInt8 unpackResultSize) :
    requestSpeed env strerror ⟨.request ipcReqSpeed, .ok uid, speed, temp, sent⟩ config buffer
        result.toList = some ⟨0, formatSpeed speed, []⟩ := by
  have hanswer : Answer.of ipcReqSpeed uid config speed temp = .reading speed := by
    rw [Answer.of, if_neg (by decide), if_pos rfl, Answer.ofReading, if_neg hspeed]
  have hreply := @serverRecvAndRespond_eq ⟨.request ipcReqSpeed, .ok uid, speed, temp, sent⟩ uid
    ipcReqSpeed rfl rfl config hpos hrows buffer
  have hunpack := @unpackInt_intMessage result.toList result.length_toList [] ipcRspOk speed
  rw [List.append_nil] at hunpack
  simp only [requestSpeed, hreply, hanswer, Answer.message, length_intMessage, unpackSpeed,
    Option.bind_eq_bind, Option.bind_some, hunpack, ofInt_toNat]
  rw [format, if_neg (by decide), if_neg (by decide), if_pos rfl, resultInt_leBytes]

/-- The speed that is reported is the one that was set: `fanctrl_get_speed` returns it, and the
control interface prints it whoever asks. -/
structure ReportsSpeed (config : FandConfig) (pwm : UInt64) (v : ℕ) : Prop where
  returned : fanctrlGetSpeed exactArith (pwmFile pwm) = v
  printed : ∀ (env : FormatEnv) (strerror : BitVec 32 → List Char) (uid : UInt32)
    (temp : BitVec 32) (sent : Bool) (buffer : Vector UInt8 ipcMaxMsgLength)
    (result : Vector UInt8 unpackResultSize),
    requestSpeed env strerror ⟨.request ipcReqSpeed, .ok uid,
        BitVec.ofInt 32 (fanctrlGetSpeed exactArith (pwmFile pwm)), temp, sent⟩ config buffer
        result.toList = some ⟨0, (toString v).toList ++ "%\n".toList, []⟩

/-- **Reported speeds.** For every configuration that the parser accepts, every run of
`fanctrl_adjust` and every step that chooses a percentage and writes it, the speed that is reported
is the one that was set if and only if its PWM value is not rounded down. -/
theorem reportsSpeed_iff {file : Option (List Char)} {c : FandConfig}
    (hparse : configParse file .zero = (0, c)) (s₀ : Fanctrl) (temps : List (WriteOutcome × ℤ))
    (o : WriteOutcome) (t : ℤ) {v pwm : UInt64} {s' : Fanctrl} (hv : v.toNat ≤ 100)
    (hchosen : fanctrlDecide exactArith (fanctrlRun exactArith (fanctrlConfigure c s₀).2 temps) t =
      .ok (v, s'))
    (hwritten : fanctrlWritten exactArith o
      (fanctrlRun exactArith (fanctrlConfigure c s₀).2 temps) t = some pwm) :
    ReportsSpeed c pwm v.toNat ↔ 255 * v.toNat % 100 = 0 ∨ 50 ≤ 255 * v.toNat % 100 := by
  obtain ⟨hpos, hc⟩ := configParse_withinLimits rfl hparse
  have hrows : c.rows ≤ maxTempThresholds := by
    rw [← c.rowList_length]
    exact hc.1.le
  have hpwm : fanctrlPercentageToPwm exactArith v = pwm := by
    rw [fanctrlWritten, hchosen] at hwritten
    dsimp only at hwritten
    split_ifs at hwritten
    exact Option.some.inj hwritten
  rw [← fanctrlGetSpeed_percentage hv, hpwm]
  refine ⟨fun h => h.returned, fun h => ⟨h, ?_⟩⟩
  intro env strerror uid temp sent buffer result
  have hint : (BitVec.ofInt 32 (v.toNat : ℤ)).toInt = v.toNat := by
    rw [BitVec.toInt_ofInt, Int.bmod_def]
    omega
  rw [h, requestSpeed_eq hpos hrows (by rw [hint]; omega), formatSpeed, formatInt, hint]
  rfl

/-- A file that sets the fans to 20 percent at 50 degrees -/
def fileTwentyPercent : List Char := "matrix=('50::20'\n'60::50')\n".toList

def configTwentyPercent : FandConfig := (configParse (some fileTwentyPercent) .zero).2

theorem reportsSpeed_twenty : ReportsSpeed configTwentyPercent 51 20 := by
  refine (@reportsSpeed_iff (some fileTwentyPercent) configTwentyPercent
    (Prod.ext (by decide +kernel) rfl) .static [(⟨true, true⟩, 45)] ⟨true, true⟩ 48 20 51
    (fanctrlRun exactArith (fanctrlConfigure configTwentyPercent .static).2
      [(⟨true, true⟩, 45)]) (by decide) ?_ ?_).mpr (by decide)
  · decide +kernel
  · decide +kernel

/-- A file that sets the fans to 2 percent at 50 degrees -/
def fileTwoPercent : List Char := "matrix=('50::2'\n'60::50')\n".toList

def configTwoPercent : FandConfig := (configParse (some fileTwoPercent) .zero).2

/-- Two percent are written as 5 and reported as 1 percent. -/
theorem reportsSpeed_two :
    configParse (some fileTwoPercent) .zero = (0, configTwoPercent) ∧
      fanctrlWritten exactArith ⟨true, true⟩ (fanctrlConfigure configTwoPercent .static).2 48 =
        some 5 ∧
      fanctrlGetSpeed exactArith (pwmFile 5) = 1 ∧ ¬ ReportsSpeed configTwoPercent 5 2 := by
  have hspeed : fanctrlGetSpeed exactArith (pwmFile 5) = 1 :=
    fanctrlGetSpeed_exact (by decide)
  refine ⟨Prod.ext (by decide +kernel) rfl, by decide +kernel, hspeed, fun h => ?_⟩
  have hreturned := h.returned
  rw [hspeed] at hreturned
  exact absurd hreturned (by decide)

end AmdgpuFand

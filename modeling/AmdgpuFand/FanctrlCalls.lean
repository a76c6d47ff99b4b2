import AmdgpuFand.PwmRange
import AmdgpuFand.Server

/-!
# Runs of the fan controller across reloads

The daemon calls `fanctrl_configure` at every start, restart and reload and `fanctrl_adjust` in
between, so the remembered threshold outlives the matrix it belonged to. `Fanctrl.Ready` is what
keeps `matrix.temps[current_threshold]` in range over any mixture of the two calls: the threshold
is reset by the one and set to a row of the present matrix by the other.

It is established by the first `fanctrl_configure`. Before that the matrix is empty, and the test
for it stands in front of everything that reads the threshold.
-/

namespace AmdgpuFand

open Rounding

/-! ## Calls -/

/-- A call of the controller -/
inductive FanctrlCall
  | configure (config : FandConfig)
  | adjust (o : WriteOutcome) (temp : ℤ)

namespace Fanctrl

/-- The state behind a call -/
def call (s : Fanctrl) : FanctrlCall → Fanctrl
  | .configure config => (fanctrlConfigure config s).2
  | .adjust o temp => (fanctrlAdjust binary32 o s temp).2

/-- The state behind a sequence of calls -/
def calls (s : Fanctrl) (cs : List FanctrlCall) : Fanctrl :=
  cs.foldl call s

/-- The threshold that is held is none or a row of the matrix, and the matrix fits its arrays. -/
structure Ready (s : Fanctrl) : Prop where
  rows_le : s.rows ≤ maxTempThresholds
  threshold_ge : -1 ≤ s.currentThreshold
  threshold_lt : s.currentThreshold < s.rows

variable {s : Fanctrl}

theorem rows_copyRows (mat : Vector UInt8 matrixMaxSize) (m : FanctrlMatrix) (is : List ℕ) :
    (is.foldl (copyRow mat) m).rows = m.rows := by
  induction is generalizing m with
  | nil => rfl
  | cons i is ih => exact ih (copyRow mat m i)

/-- A matrix that does not fit is not taken. -/
theorem rows_configure_le (config : FandConfig) (h : s.rows ≤ maxTempThresholds) :
    (fanctrlConfigure config s).2.rows ≤ maxTempThresholds := by
  simp only [fanctrlConfigure, fanctrlSetMatrix, Fanctrl.rows]
  split_ifs with hlt
  · exact h
  · rw [rows_copyRows]
    exact Nat.le_of_not_lt hlt

theorem ready_configure (config : FandConfig) (h : s.rows ≤ maxTempThresholds) :
    (s.call (.configure config)).Ready := by
  refine ⟨rows_configure_le config h, le_refl _, ?_⟩
  exact lt_of_lt_of_le (by decide : (-1 : ℤ) < 0) (Int.natCast_nonneg _)

/-- An adjustment keeps the matrix and takes its threshold from it. -/
theorem adjust_cases (o : WriteOutcome) (temp : ℤ) :
    s.call (.adjust o temp) = s ∨
      ∃ k : ℤ, -1 ≤ k ∧ k < s.rows ∧
        s.call (.adjust o temp) = { s with currentThreshold := k } := by
  obtain ⟨-, heq⟩ | ⟨percentage, hd⟩ := fanctrlAdjust_next binary32 o s temp
  · exact .inl heq
  · obtain ⟨-, -, ⟨-, -, heq⟩ | ⟨-, -, heq⟩⟩ := fanctrlDecide_ok hd
    · exact .inl heq
    · obtain ⟨hge, hlt⟩ := fanctrlTarget_threshold binary32 s temp
      exact .inr ⟨_, hge, hlt, heq⟩

theorem Ready.call (h : s.Ready) (c : FanctrlCall) : (s.call c).Ready := by
  cases c with
  | configure config => exact ready_configure config h.rows_le
  | adjust o temp =>
    obtain heq | ⟨k, hge, hlt, heq⟩ := adjust_cases (s := s) o temp
    · rw [heq]
      exact h
    · rw [heq]
      exact ⟨h.rows_le, hge, hlt⟩

theorem rows_call_le (h : s.rows ≤ maxTempThresholds) (c : FanctrlCall) :
    (s.call c).rows ≤ maxTempThresholds := by
  cases c with
  | configure config => exact rows_configure_le config h
  | adjust o temp =>
    obtain heq | ⟨k, -, -, heq⟩ := adjust_cases (s := s) o temp
    · rw [heq]
      exact h
    · rw [heq]
      exact h

/-- Calls keep a controller ready, and the first `fanctrl_configure` among them makes it so. -/
theorem ready_calls {cs : List FanctrlCall} (h : s.rows ≤ maxTempThresholds)
    (hready : s.Ready ∨ ∃ config, .configure config ∈ cs) : (s.calls cs).Ready := by
  induction cs generalizing s with
  | nil =>
    obtain hready | ⟨config, hmem⟩ := hready
    · exact hready
    · cases hmem
  | cons c cs ih =>
    refine ih (rows_call_le h c) ?_
    obtain hready | ⟨config, hmem⟩ := hready
    · exact .inl (hready.call c)
    · rcases List.mem_cons.mp hmem with rfl | hmem
      · exact .inl (ready_configure config h)
      · exact .inr ⟨config, hmem⟩

/-- Without a configuration there is no matrix. -/
theorem calls_unconfigured {cs : List FanctrlCall} (hrows : s.rows = 0)
    (h : ∀ config, .configure config ∉ cs) : s.calls cs = s := by
  induction cs with
  | nil => rfl
  | cons c cs ih =>
    have hstep : s.call c = s := by
      cases c with
      | configure config => exact absurd (List.mem_cons_self ..) (h config)
      | adjust o temp =>
        have hdecide : fanctrlDecide binary32 s temp = .error fandFatalErr := if_pos hrows
        rw [call, fanctrlAdjust, hdecide]
    rw [calls, List.foldl_cons, hstep]
    exact ih fun config hmem => h config (List.mem_cons_of_mem c hmem)

end Fanctrl

/-! ## Between two thresholds -/

theorem binary32_pos {q : ℚ} (h : 0 < q) : 0 < binary32.fl q := by
  have hround : binary32.fl q = roundPos q := round32_of_pos h
  rw [hround]
  exact roundPos_pos h

/-- What the search finds for a temperature between two thresholds, and what `lerp_inverse` is
called with: no subtraction wraps, the divisor is not zero, and the fraction is one. -/
structure SegmentFound (s : Fanctrl) (temp : ℤ) (i : ℕ) : Prop where
  segment : fanctrlSegment s temp = some i
  next_row : i + 1 < s.rows
  above : s.temp i < temp
  below : temp ≤ s.temp (i + 1)
  args_lt : (idx s.matrix.temps i).toUInt64 < UInt64.ofInt temp
  args_le : UInt64.ofInt temp ≤ (idx s.matrix.temps (i + 1)).toUInt64
  frac_pos : 0 < lerpInverse binary32 (idx s.matrix.temps i).toUInt64
    (idx s.matrix.temps (i + 1)).toUInt64 (UInt64.ofInt temp)
  frac_le : lerpInverse binary32 (idx s.matrix.temps i).toUInt64
    (idx s.matrix.temps (i + 1)).toUInt64 (UInt64.ofInt temp) ≤ 1
  /-- the initial values of `threshold` and `speed` are overwritten -/
  target : fanctrlTarget binary32 s temp = ((i : ℤ), toInt32 (fanctrlInterpolate binary32 s i temp))

/-- However the rows are ordered, a temperature above the first and not above the last lies
between two that follow each other. -/
theorem segmentFound {s : Fanctrl} {temp : ℤ} (hlow : s.temp 0 < temp)
    (hhigh : temp ≤ s.temp (s.rows - 1)) : ∃ i, SegmentFound s temp i := by
  obtain ⟨i, hseg⟩ := fanctrlSegment_isSome hlow hhigh
  obtain ⟨hrow, habove, hbelow⟩ := fanctrlSegment_eq_some hseg
  obtain ⟨hlt, hle⟩ := lerpInverse_args habove hbelow
  have hab := UInt64.lt_of_lt_of_le hlt hle
  have hpos : ∀ {a b : UInt64}, a < b → (0 : ℚ) < ((b - a).toNat : ℚ) := by
    intro a b h
    rw [UInt64.toNat_sub_of_le _ _ (UInt64.le_of_lt h)]
    exact_mod_cast Nat.sub_pos_of_lt (UInt64.lt_iff_toNat_lt.mp h)
  refine ⟨i, hseg, hrow, habove, hbelow, hlt, hle, ?_, (lerpInverse_fraction habove hbelow).2,
    fanctrlTarget_mid hlow hhigh hseg⟩
  exact binary32_pos (div_pos (binary32_pos (hpos hlt)) (binary32_pos (hpos hab)))

/-- **`fanctrl_adjust` is well defined.** Over every sequence of calls: once there has been a
`fanctrl_configure`, the threshold that is held indexes the matrix, and every temperature between
the first and the last row is interpolated on a segment that contains it. Before, an adjustment
reports the empty matrix. -/
theorem fanctrlCalls_wellDefined (cs : List FanctrlCall) :
    ((∃ config, .configure config ∈ cs) →
      (Fanctrl.static.calls cs).Ready ∧
      ∀ temp, (Fanctrl.static.calls cs).temp 0 < temp →
        temp ≤ (Fanctrl.static.calls cs).temp ((Fanctrl.static.calls cs).rows - 1) →
        ∃ i, SegmentFound (Fanctrl.static.calls cs) temp i) ∧
    ((∀ config, .configure config ∉ cs) →
      ∀ o temp, fanctrlAdjust binary32 o (Fanctrl.static.calls cs) temp =
        (fandFatalErr, Fanctrl.static)) := by
  refine ⟨fun h => ⟨?_, fun temp => segmentFound⟩, fun h o temp => ?_⟩
  · exact Fanctrl.ready_calls (by decide) (.inr h)
  · rw [Fanctrl.calls_unconfigured rfl h]
    rfl

/-- The static variables start out with the threshold 0 and no rows. -/
theorem static_threshold_not_a_row :
    ¬ (-1 ≤ (Fanctrl.static.calls []).currentThreshold ∧
      (Fanctrl.static.calls []).currentThreshold < (Fanctrl.static.calls []).rows) := by
  decide

/-! ## What the parser accepts -/

/-- The consumers of a configuration can carry it. -/
structure FandConfig.Carried (c : FandConfig) : Prop where
  rows_pos : 1 ≤ c.rows
  rows_le : c.rows ≤ maxTempThresholds
  speeds_le : ∀ i, i < c.rows → (idx c.matrix (2 * i + 1)).toNat ≤ 100
  /-- `fanctrl_configure` takes it -/
  configures : ∀ s, (fanctrlConfigure c s).1 = 0
  /-- `fanctrl_adjust` never reports an empty matrix on it, -/
  nonempty : ∀ F s temps, (fanctrlRun F (fanctrlConfigure c s).2 temps).rows ≠ 0
  /-- but returns what comes of writing the speed that it has chosen, -/
  adjusts : ∀ F s temps o t, 0 ≤ t → ∃ v s',
    fanctrlDecide F (fanctrlRun F (fanctrlConfigure c s).2 temps) t = .ok (v, s') ∧
      fanctrlAdjust F o (fanctrlRun F (fanctrlConfigure c s).2 temps) t =
        (hwmonWritePwm o (fanctrlPercentageToPwm F v), s')
  /-- or the error of the reading. -/
  no_reading : ∀ F s temps o t, t < 0 →
    fanctrlAdjust F o (fanctrlRun F (fanctrlConfigure c s).2 temps) t =
      (t, fanctrlRun F (fanctrlConfigure c s).2 temps)
  /-- `pack_matrix` has room for it -/
  packs : ∀ buffer : Vector UInt8 ipcMaxMsgLength,
    Holds (matrixMessage c.matrixRows (c.matrix.toList.take (2 * c.rows)))
      (packMatrix buffer.toList ipcMaxMsgLength c.matrix.toList c.matrixRows)
  /-- and the length byte that it computes is the length of the message -/
  length_byte : (UInt8.ofNat (1 + 1 * (c.matrixRows.toNat * 2 + 2))).toNat =
    (matrixMessage c.matrixRows (c.matrix.toList.take (2 * c.rows))).length

/-- **What `config_parse` accepts can be carried**, whatever the record held besides having no
rows. -/
theorem configParse_carried (file : Option (List Char)) (data c : FandConfig)
    (hdata : data.matrixRows = 0) (hparse : configParse file data = (0, c)) : c.Carried := by
  obtain ⟨hpos, hlimits⟩ := configParse_withinLimits hdata hparse
  have hlt : c.rows < maxTempThresholds := by
    rw [← c.rowList_length]
    exact hlimits.1
  have hconf := fun s => fanctrlConfigure_configured s hlt.le
  have hlen : (c.matrix.toList.take (2 * c.rows)).length = 2 * c.rows := by
    rw [List.length_take, Vector.length_toList, min_eq_left]
    simp only [matrixMaxSize, maxTempThresholds] at hlt ⊢
    omega
  have hnonempty : ∀ F s temps, (fanctrlRun F (fanctrlConfigure c s).2 temps).rows ≠ 0 := by
    intro F s temps
    rw [((hconf s).2.run temps).rows]
    exact hpos.ne'
  refine ⟨hpos, hlt.le, fun i hi => hlimits.speed_le hi, fun s => (hconf s).1, hnonempty,
    fun F s temps o t ht => ?_,
    fun F s temps o t ht => fanctrlAdjust_neg (hnonempty F s temps) ht o,
    fun buffer => holds_packMatrix buffer hpos hlt.le, ?_⟩
  · obtain ⟨v, s', hdecide⟩ := fanctrlDecide_total (hnonempty F s temps) ht
    exact ⟨v, s', hdecide, fanctrlAdjust_ok hdecide o⟩
  · rw [length_matrixMessage, hlen, ← FandConfig.rows, UInt8.toNat_ofNat', Nat.mod_eq_of_lt]
    · omega
    · simp only [maxTempThresholds] at hlt
      omega

/-- A record without rows that otherwise is not empty -/
theorem configParse_carried_rising :
    (configParse (some fileRisingSpeed) { FandConfig.zero with interval := 7 }).2.Carried :=
  configParse_carried (some fileRisingSpeed) { FandConfig.zero with interval := 7 } _ rfl
    (Prod.ext (by decide +kernel) rfl)

end AmdgpuFand

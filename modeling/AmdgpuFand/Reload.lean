import AmdgpuFand.Fanctrl
import AmdgpuFand.Settings

/-!
# Reloading the configuration

The daemon parses its configuration file on three occasions: when it starts, into a record
of zeros; on `SIGHUP` or when the file changes, into the local variable `tmpdata` of
`daemon_reload`, whose contents are whatever was on the stack; and when it restarts, into
the record of the configuration that was running. The parser stores what the file says and
leaves the rest of the record alone, so the three agree on a file exactly if nothing is
left: the file is rejected on its own account, or it has all four settings
(`daemonReload_agrees`).
-/

namespace AmdgpuFand

/-- `daemon_reload`, with the initial contents of its local variable: the status, the
running configuration and the controller afterwards. -/
def daemonReload (file : Option (List Char)) (tmpdata data : FandConfig) (s : Fanctrl) :
    ℤ × FandConfig × Fanctrl :=
  let parsed := configParse file tmpdata
  if parsed.1 ≠ 0 then (-1, data, s)
  else
    let configured := fanctrlConfigure parsed.2 s
    if configured.1 ≠ 0 then (fandFatalErr, parsed.2, configured.2)
    else (0, parsed.2, configured.2)

/-! ## Records that agree -/

/-- Two records agree on a setting. The entries of the matrix behind its last row are not
part of it. -/
def ConfigKey.Agree (a b : FandConfig) : ConfigKey → Prop
  | interval => a.interval = b.interval
  | hysteresis => a.hysteresis = b.hysteresis
  | matrix =>
    a.matrixRows = b.matrixRows ∧ ∀ i, i < 2 * b.rows → idx a.matrix i = idx b.matrix i
  | throttle => a.throttle = b.throttle

/-- Two records hold the same configuration. -/
def FandConfig.Same (a b : FandConfig) : Prop := ∀ k : ConfigKey, k.Agree a b

theorem ConfigKey.Agree.symm {k : ConfigKey} {a b : FandConfig} (h : k.Agree a b) :
    k.Agree b a := by
  cases k with
  | interval | hysteresis | throttle => exact Eq.symm h
  | matrix =>
    obtain ⟨hrows, hmat⟩ := h
    refine ⟨hrows.symm, fun i hi => (hmat i ?_).symm⟩
    rwa [FandConfig.rows, ← hrows]

theorem ConfigKey.Agree.trans {k : ConfigKey} {a b c : FandConfig} (hab : k.Agree a b)
    (hbc : k.Agree b c) : k.Agree a c := by
  cases k with
  | interval | hysteresis | throttle => exact Eq.trans hab hbc
  | matrix =>
    obtain ⟨hrows, hmat⟩ := hab
    obtain ⟨hrows', hmat'⟩ := hbc
    refine ⟨hrows.trans hrows', fun i hi => ?_⟩
    rw [hmat i (by rwa [FandConfig.rows, hrows']), hmat' i hi]

section Apply

variable {k : ConfigKey} {s : Setting} {ss : List Setting} {a b : FandConfig}

/-- A setting is stored in the same way in every record. -/
theorem Setting.apply_agree (hs : s.Valid) (h : k.Agree a b ∨ s.key = k) :
    k.Agree (s.apply a) (s.apply b) := by
  cases s with
  | interval x | hysteresis x | throttle x =>
    cases k with
    | interval | hysteresis | throttle | matrix =>
      first
        | rfl
        | exact h.resolve_right (by simp [Setting.key])
  | matrix rows =>
    obtain ⟨-, hlen, -⟩ := hs
    obtain ⟨hta, hha, hia⟩ := a.setRows_fields 0 rows
    obtain ⟨htb, hhb, hib⟩ := b.setRows_fields 0 rows
    cases k with
    | interval => exact hia.trans ((h.resolve_right (by simp [Setting.key])).trans hib.symm)
    | hysteresis => exact hha.trans ((h.resolve_right (by simp [Setting.key])).trans hhb.symm)
    | throttle => exact hta.trans ((h.resolve_right (by simp [Setting.key])).trans htb.symm)
    | matrix =>
      refine ⟨rfl, fun i hi => ?_⟩
      have hlen' : 0 + rows.length ≤ maxTempThresholds := by rw [Nat.zero_add]; exact hlen.le
      have hcount : (UInt8.ofNat rows.length).toNat = rows.length :=
        UInt8.toNat_ofNat_of_lt' (lt_trans hlen (by decide))
      simp only [Setting.apply, FandConfig.rows, hcount] at hi
      have ha := (a.setRows_matrix hlen').2 (i / 2) (by omega)
      have hb := (b.setRows_matrix hlen').2 (i / 2) (by omega)
      rw [Nat.zero_add] at ha hb
      simp only [Setting.apply]
      rcases Nat.mod_two_eq_zero_or_one i with heven | hodd
      · rw [show i = 2 * (i / 2) by omega, ha.1, hb.1]
      · rw [show i = 2 * (i / 2) + 1 by omega, ha.2, hb.2]

/-- A setting changes no other. -/
theorem Setting.apply_frame (h : s.key ≠ k) : k.Agree (s.apply a) a := by
  cases s with
  | interval x | hysteresis x | throttle x =>
    cases k with
    | interval | hysteresis | throttle =>
      first
        | rfl
        | exact absurd rfl h
    | matrix => exact ⟨rfl, fun _ _ => rfl⟩
  | matrix rows =>
    obtain ⟨ht, hh, hi⟩ := a.setRows_fields 0 rows
    cases k with
    | interval => exact hi
    | hysteresis => exact hh
    | throttle => exact ht
    | matrix => exact absurd rfl h

/-- Records that differ only in what the settings say become the same. -/
theorem foldl_agree (hs : ∀ s ∈ ss, s.Valid) (h : k.Agree a b ∨ k ∈ ss.map Setting.key) :
    k.Agree (ss.foldl Setting.apply a) (ss.foldl Setting.apply b) := by
  induction ss generalizing a b with
  | nil => exact h.resolve_right (by simp)
  | cons s ss ih =>
    have hvalid := hs s (List.mem_cons_self ..)
    refine ih (fun t ht => hs t (List.mem_cons_of_mem s ht)) ?_
    rcases h with h | h
    · exact Or.inl (Setting.apply_agree hvalid (Or.inl h))
    · rw [List.map_cons, List.mem_cons] at h
      rcases h with rfl | h
      · exact Or.inl (Setting.apply_agree hvalid (Or.inr rfl))
      · exact Or.inr h

/-- What the settings do not say stays as it was. -/
theorem foldl_frame (h : k ∉ ss.map Setting.key) : k.Agree (ss.foldl Setting.apply a) a := by
  induction ss generalizing a with
  | nil =>
    cases k with
    | interval | hysteresis | throttle => rfl
    | matrix => exact ⟨rfl, fun _ _ => rfl⟩
  | cons s ss ih =>
    rw [List.map_cons, List.mem_cons, not_or] at h
    exact (ih h.2).trans (Setting.apply_frame (Ne.symm h.1))

/-- A matrix among the settings leaves at least one row. -/
theorem foldl_rows (hs : ∀ s ∈ ss, s.Valid) (h : ConfigKey.matrix ∈ ss.map Setting.key) :
    (ss.foldl Setting.apply a).matrixRows ≠ 0 := by
  induction ss generalizing a with
  | nil => simp at h
  | cons s ss ih =>
    by_cases hlater : ConfigKey.matrix ∈ ss.map Setting.key
    · exact ih (fun t ht => hs t (List.mem_cons_of_mem s ht)) hlater
    · -- the last matrix of the list: nothing behind it changes the number of rows
      rw [List.foldl_cons, (foldl_frame hlater).1]
      rw [List.map_cons, List.mem_cons] at h
      have hkey := h.resolve_right hlater
      have hvalid := hs s (List.mem_cons_self ..)
      cases s with
      | interval x | hysteresis x | throttle x => cases hkey
      | matrix rows =>
        obtain ⟨hne, hlen, -⟩ := hvalid
        intro hzero
        have hcount : (UInt8.ofNat rows.length).toNat = rows.length :=
          UInt8.toNat_ofNat_of_lt' (lt_trans hlen (by decide))
        have hnil : rows.length = 0 := by
          rw [← hcount]
          exact congrArg UInt8.toNat hzero
        exact hne (List.eq_nil_of_length_eq_zero hnil)

/-- and at most fifteen, whatever was in the record. -/
theorem foldl_rows_lt (hs : ∀ s ∈ ss, s.Valid) (h : ConfigKey.matrix ∈ ss.map Setting.key) :
    (ss.foldl Setting.apply a).rows < maxTempThresholds := by
  have hzero : FandConfig.zero.WithinLimits := ⟨by decide, by decide⟩
  rw [FandConfig.rows, (foldl_agree hs (b := .zero) (Or.inr h)).1, ← FandConfig.rows,
    ← FandConfig.rowList_length]
  exact (foldl_withinLimits hs hzero).1

end Apply

/-! ## The three occasions -/

/-- The controller reads nothing but the configuration. -/
theorem fanctrlConfigure_same {a b : FandConfig} (h : a.Same b) (s : Fanctrl) :
    fanctrlConfigure a s = fanctrlConfigure b s := by
  obtain ⟨hrows, hmat⟩ := h .matrix
  have hcopy : ∀ m, (List.range b.matrixRows.toNat).foldl (copyRow a.matrix) m =
      (List.range b.matrixRows.toNat).foldl (copyRow b.matrix) m := by
    intro m
    refine List.foldl_ext _ _ m fun m i hi => ?_
    have hlt : i < b.rows := List.mem_range.mp hi
    simp only [copyRow, hmat (2 * i) (by omega), hmat (2 * i + 1) (by omega)]
  have hset : fanctrlSetMatrix s.matrix a.matrix a.matrixRows =
      fanctrlSetMatrix s.matrix b.matrix b.matrixRows := by
    simp only [fanctrlSetMatrix, hrows, hcopy]
  have hhyst : a.hysteresis = b.hysteresis := h .hysteresis
  have hthrottle : a.throttle = b.throttle := h .throttle
  simp only [fanctrlConfigure, hset, hhyst, hthrottle]

/-- Reload and restart do with the file what a start would do. -/
structure ReloadAgrees (file : Option (List Char)) (data tmpdata : FandConfig) (s : Fanctrl) :
    Prop where
  /-- a file that does not start the daemon is not loaded, and nothing changes -/
  rejected : (configParse file .zero).1 ≠ 0 →
    (daemonReload file tmpdata data s).1 ≠ 0 ∧ (daemonReload file tmpdata data s).2 = (data, s)
  /-- a file that does is loaded, with the configuration it would start with -/
  accepted : ∀ c, configParse file .zero = (0, c) →
    (daemonReload file tmpdata data s).1 = 0 ∧
      (daemonReload file tmpdata data s).2.1.Same c ∧
      (daemonReload file tmpdata data s).2.2 = (fanctrlConfigure c s).2 ∧
      (configParse file data).1 = 0 ∧ (configParse file data).2.Same c

section Agrees

variable {file : Option (List Char)} {tmpdata data : FandConfig} {s : Fanctrl}

theorem daemonReload_rejected (h : (configParse file tmpdata).1 ≠ 0) :
    daemonReload file tmpdata data s = (-1, data, s) :=
  if_pos h

/-- A parse that succeeds, from whatever record, is installed. -/
theorem daemonReload_accepted {c : FandConfig} (h : configParse file tmpdata = (0, c))
    (hrows : c.rows ≤ maxTempThresholds) :
    daemonReload file tmpdata data s = (0, c, (fanctrlConfigure c s).2) := by
  simp only [daemonReload, h, ne_eq, not_true_eq_false, if_false,
    (fanctrlConfigure_configured s hrows).1]

/-- A file with an error in it is rejected on all three occasions. -/
theorem reloadAgrees_of_error (h : configSettings file = none) :
    ReloadAgrees file data tmpdata s := by
  refine ⟨fun _ => ?_, fun c hc => ?_⟩
  · rw [daemonReload_rejected (configParse_none h tmpdata)]
    exact ⟨(by decide : (-1 : ℤ) ≠ 0), rfl⟩
  · exact absurd (congrArg Prod.fst hc) (configParse_none h .zero)

/-- A file with all settings leaves nothing of the record it is read into. -/
theorem reloadAgrees_of_complete {ss : List Setting} (hss : configSettings file = some ss)
    (hall : ∀ k, k ∈ ss.map Setting.key) : ReloadAgrees file data tmpdata s := by
  have hvalid := configSettings_valid hss
  have hsame : ∀ a b : FandConfig,
      (ss.foldl Setting.apply a).Same (ss.foldl Setting.apply b) :=
    fun a b k => foldl_agree hvalid (Or.inr (hall k))
  have hparse : ∀ a, configParse file a = (0, ss.foldl Setting.apply a) := by
    intro a
    rw [configParse_some hss, if_neg (foldl_rows hvalid (hall .matrix))]
  refine ⟨fun hrej => absurd (by rw [hparse]) hrej, fun c hc => ?_⟩
  rw [hparse] at hc
  cases hc
  rw [daemonReload_accepted (hparse tmpdata) (foldl_rows_lt hvalid (hall .matrix)).le, hparse]
  exact ⟨rfl, hsame tmpdata .zero, by rw [fanctrlConfigure_same (hsame tmpdata .zero)], rfl,
    hsame data .zero⟩

/-- Contents of the stack that no field of a record of zeros agrees with. -/
def stackGarbage : FandConfig := ⟨true, 1, 1, 1, Vector.replicate matrixMaxSize 0⟩

/-- A setting that the file does not have comes from the stack. -/
theorem not_reloadAgrees_of_missing {ss : List Setting} (hss : configSettings file = some ss)
    {k : ConfigKey} (hk : k ∉ ss.map Setting.key) :
    ¬ ReloadAgrees file data stackGarbage s := by
  intro hagrees
  have hvalid := configSettings_valid hss
  by_cases hmatrix : ConfigKey.matrix ∈ ss.map Setting.key
  · have hparse : ∀ a, configParse file a = (0, ss.foldl Setting.apply a) := by
      intro a
      rw [configParse_some hss, if_neg (foldl_rows hvalid hmatrix)]
    obtain ⟨-, hsame, -⟩ := hagrees.accepted _ (hparse .zero)
    rw [daemonReload_accepted (hparse stackGarbage) (foldl_rows_lt hvalid hmatrix).le] at hsame
    have hfield : k.Agree stackGarbage .zero :=
      (foldl_frame hk).symm.trans ((hsame k).trans (foldl_frame hk))
    cases k with
    | interval => exact absurd hfield (by decide : stackGarbage.interval ≠ 0)
    | hysteresis => exact absurd hfield (by decide : stackGarbage.hysteresis ≠ 0)
    | throttle => exact absurd hfield (by decide : stackGarbage.throttle ≠ false)
    | matrix => exact hk hmatrix
  · -- no matrix: the start fails, but the reload takes the number of rows from the stack
    have hzero : (ss.foldl Setting.apply FandConfig.zero).matrixRows = 0 :=
      (foldl_frame hmatrix).1
    have hone : (ss.foldl Setting.apply stackGarbage).matrixRows = 1 := (foldl_frame hmatrix).1
    have hstart : (configParse file .zero).1 = -1 := by rw [configParse_some hss, if_pos hzero]
    obtain ⟨hfail, -⟩ := hagrees.rejected (by rw [hstart]; decide)
    have hparse : configParse file stackGarbage = (0, ss.foldl Setting.apply stackGarbage) := by
      rw [configParse_some hss, if_neg (by rw [hone]; decide)]
    rw [daemonReload_accepted hparse (by rw [FandConfig.rows, hone]; decide)] at hfail
    exact hfail rfl

end Agrees

/-- Reload and restart agree with a start, for everything that may be on the stack,
exactly if the file has an error in it or all four settings. -/
theorem daemonReload_agrees (file : Option (List Char)) (data : FandConfig) (s : Fanctrl) :
    (∀ tmpdata, ReloadAgrees file data tmpdata s) ↔
      ∀ ss, configSettings file = some ss → ∀ k, k ∈ ss.map Setting.key := by
  refine ⟨fun h ss hss k => ?_, fun h tmpdata => ?_⟩
  · by_contra hk
    exact not_reloadAgrees_of_missing hss hk (h stackGarbage)
  · rcases hss : configSettings file with _ | ss
    · exact reloadAgrees_of_error hss
    · exact reloadAgrees_of_complete hss (h ss hss)

/-- A configuration without an interval. -/
def fileWithoutInterval : List Char :=
  "hysteresis=3\naggressive_throttle=false\nmatrix=('50::20'\n'60::50')\n".toList

/-- It is loaded with the interval on the stack. -/
theorem daemonReload_takes_garbage :
    ¬ ReloadAgrees (some fileWithoutInterval) .zero { FandConfig.zero with interval := 7 }
      .static := by
  intro h
  obtain ⟨-, hsame, -⟩ := h.accepted (configParse (some fileWithoutInterval) .zero).2
    (Prod.ext (by decide +kernel) rfl)
  have hinterval : (daemonReload (some fileWithoutInterval)
      { FandConfig.zero with interval := 7 } .zero .static).2.1.interval =
        (configParse (some fileWithoutInterval) .zero).2.interval := hsame .interval
  revert hinterval
  decide +kernel

end AmdgpuFand

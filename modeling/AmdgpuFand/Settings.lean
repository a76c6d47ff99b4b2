import AmdgpuFand.Config

/-!
# What a configuration file says

A file that the parser gets through is a list of settings, and the parser stores them one
after the other: `configSettings` reads the list off the lines without looking at the
record, and `configParseLoop_some` says that the parser's loop is the list applied
to the record it was given. Everything about the contents of the record afterwards is then
a statement about lists of settings.

The list is also where the limits come from: a matrix that is accepted has between one and
fifteen rows and no speed above 100 (`configParse_withinLimits`).
-/

namespace AmdgpuFand

open CLib

/-! ## Settings -/

/-- A setting with its value. -/
inductive Setting where
  | interval (x : UInt16)
  | hysteresis (x : UInt8)
  | matrix (rows : List (UInt8 × UInt8))
  | throttle (b : Bool)

/-- The key that a setting belongs to. -/
def Setting.key : Setting → ConfigKey
  | interval _ => .interval
  | hysteresis _ => .hysteresis
  | matrix _ => .matrix
  | throttle _ => .throttle

/-- Writing rows into the matrix, from row `i` on. -/
def FandConfig.setRows (data : FandConfig) : ℕ → List (UInt8 × UInt8) → FandConfig
  | _, [] => data
  | i, row :: rows => (data.setRow i row).setRows (i + 1) rows

/-- Storing a setting. -/
def Setting.apply (data : FandConfig) : Setting → FandConfig
  | interval x => { data with interval := x }
  | hysteresis x => { data with hysteresis := x }
  | matrix rows => { data.setRows 0 rows with matrixRows := UInt8.ofNat rows.length }
  | throttle b => { data with throttle := b }

/-! ## Values -/

/-- The rows that the loop of `config_set_matrix` finds, with `n` rows of the array left. -/
def matrixRows : ℕ → Option (List Char) → Option (List (UInt8 × UInt8))
  | 0, _ => some []
  | _ + 1, none => some []
  | n + 1, some value =>
    match configMatrixRow value with
    | none => none
    | some row => (matrixRows n (strchr ';' (value.drop 1))).map (row :: ·)

/-- Rows that are found where one is expected begin with that one. -/
theorem matrixRows_succ_eq_some {n : ℕ} {value : List Char} {rows : List (UInt8 × UInt8)}
    (h : matrixRows (n + 1) (some value) = some rows) :
    ∃ row rest, configMatrixRow value = some row ∧
      matrixRows n (strchr ';' (value.drop 1)) = some rest ∧ rows = row :: rest := by
  simp only [matrixRows] at h
  rcases hrow : configMatrixRow value with _ | row
  · rw [hrow] at h
    cases h
  · rw [hrow] at h
    obtain ⟨rest, hrest, rfl⟩ := Option.map_eq_some_iff.mp h
    exact ⟨row, rest, rfl, hrest, rfl⟩

/-- The setting that a handler makes of a value, if it accepts it. -/
def ConfigKey.read : ConfigKey → List Char → Option Setting
  | interval, value =>
    if (strstoulRange value 0 65535).1 ≠ 0 then none
    else some (.interval (strstoulRange value 0 65535).2.toUInt16)
  | hysteresis, value =>
    if (strstoulRange value 0 255).1 ≠ 0 then none
    else some (.hysteresis (strstoulRange value 0 255).2.toUInt8)
  | matrix, value =>
    match matrixRows maxTempThresholds (some value) with
    | none => none
    | some rows => if rows.length = maxTempThresholds then none else some (.matrix rows)
  | throttle, value =>
    if value = ['t', 'r', 'u', 'e'] then some (.throttle true)
    else if value = ['f', 'a', 'l', 's', 'e'] then some (.throttle false)
    else none

/-- A matrix that is accepted has fewer rows than there is room for. -/
theorem ConfigKey.read_matrix_eq_some {value : List Char} {s : Setting}
    (h : ConfigKey.matrix.read value = some s) :
    ∃ rows, matrixRows maxTempThresholds (some value) = some rows ∧
      rows.length ≠ maxTempThresholds ∧ s = .matrix rows := by
  simp only [ConfigKey.read] at h
  rcases hrows : matrixRows maxTempThresholds (some value) with _ | rows
  · rw [hrows] at h
    cases h
  · rw [hrows] at h
    dsimp only at h
    split_ifs at h with hlen
    cases h
    exact ⟨rows, rfl, hlen, rfl⟩

theorem ConfigKey.read_key {k : ConfigKey} {value : List Char} {s : Setting}
    (h : k.read value = some s) : s.key = k := by
  cases k with
  | interval | hysteresis =>
    simp only [ConfigKey.read] at h
    split_ifs at h
    cases h
    rfl
  | matrix =>
    obtain ⟨rows, -, -, rfl⟩ := ConfigKey.read_matrix_eq_some h
    rfl
  | throttle =>
    simp only [ConfigKey.read] at h
    split_ifs at h with h₁ h₂
    · cases h
      rfl
    · cases h
      rfl

/-- The loop of `config_set_matrix` stores the rows it finds. -/
theorem configSetMatrixLoop_some {n i : ℕ} {value : Option (List Char)} {data : FandConfig}
    {rows : List (UInt8 × UInt8)} (h : matrixRows n value = some rows) :
    configSetMatrixLoop n i value data = (0, i + rows.length, data.setRows i rows) := by
  induction n generalizing i value data rows with
  | zero =>
    cases h
    rfl
  | succ n ih =>
    cases value with
    | none =>
      cases h
      rfl
    | some value =>
      obtain ⟨row, rest, hrow, hrest, rfl⟩ := matrixRows_succ_eq_some h
      simp only [configSetMatrixLoop, hrow, ih hrest, List.length_cons, FandConfig.setRows]
      rw [Nat.add_assoc, Nat.add_comm 1]

/-- Without a row where one is expected, it fails. -/
theorem configSetMatrixLoop_none {n i : ℕ} {value : Option (List Char)}
    (h : matrixRows n value = none) (data : FandConfig) :
    (configSetMatrixLoop n i value data).1 = -1 := by
  induction n generalizing i value data with
  | zero => cases h
  | succ n ih =>
    cases value with
    | none => cases h
    | some value =>
      simp only [matrixRows] at h
      rcases hrow : configMatrixRow value with _ | row
      · simp only [configSetMatrixLoop, hrow]
      · rw [hrow] at h
        simp only [configSetMatrixLoop, hrow]
        exact ih (Option.map_eq_none_iff.mp h) _

/-- A handler that accepts a value stores its setting. -/
theorem ConfigKey.handler_some {k : ConfigKey} {value : List Char} {s : Setting}
    (h : k.read value = some s) (data : FandConfig) : k.handler data value = (0, s.apply data) := by
  cases k with
  | interval =>
    simp only [ConfigKey.read] at h
    split_ifs at h with hr
    cases h
    exact if_neg hr
  | hysteresis =>
    simp only [ConfigKey.read] at h
    split_ifs at h with hr
    cases h
    exact if_neg hr
  | matrix =>
    obtain ⟨rows, hrows, hlen, rfl⟩ := ConfigKey.read_matrix_eq_some h
    simp only [ConfigKey.handler, configSetMatrix, configSetMatrixLoop_some hrows, ne_eq,
      not_true_eq_false, if_false, Nat.zero_add, if_neg hlen, Setting.apply]
  | throttle =>
    simp only [ConfigKey.read] at h
    split_ifs at h with h₁ h₂
    · cases h
      exact if_pos h₁
    · cases h
      exact (if_neg h₁).trans (if_pos h₂)

/-- A handler that does not, fails whatever the record. -/
theorem ConfigKey.handler_none {k : ConfigKey} {value : List Char} (h : k.read value = none)
    (data : FandConfig) : (k.handler data value).1 ≠ 0 := by
  cases k with
  | interval =>
    simp only [ConfigKey.read] at h
    split_ifs at h with hr
    simp only [ConfigKey.handler, configSetInterval, if_pos hr]
    exact hr
  | hysteresis =>
    simp only [ConfigKey.read] at h
    split_ifs at h with hr
    simp only [ConfigKey.handler, configSetHysteresis, if_pos hr]
    exact hr
  | matrix =>
    simp only [ConfigKey.read] at h
    rcases hr : matrixRows maxTempThresholds (some value) with _ | rows
    -- a row is refused, or there are rows left over
    · have hloop := configSetMatrixLoop_none (i := 0) hr data
      simp only [ConfigKey.handler, configSetMatrix]
      rw [if_pos (by rw [hloop]; decide), hloop]
      decide
    · rw [hr] at h
      dsimp only at h
      split_ifs at h with hlen
      simp only [ConfigKey.handler, configSetMatrix, configSetMatrixLoop_some hr, ne_eq,
        not_true_eq_false, if_false, Nat.zero_add, if_pos hlen]
      decide
  | throttle =>
    simp only [ConfigKey.read] at h
    split_ifs at h with h₁ h₂
    simp only [ConfigKey.handler, configSetThrottle, if_neg h₁, if_neg h₂]
    decide

/-! ## Files -/

/-- The settings on the lines, or none if the parser stops at an error. -/
def configSettingsLoop : ℕ → List (List Char) → Option (List Setting)
  | 0, _ => some []
  | _ + 1, [] => some []
  | n + 1, line :: fp =>
    if configLineEmpty (configLine line) then configSettingsLoop n fp
    else
      match configSetting (configLine line) fp with
      | none => none
      | some (k, value, fp) =>
        match k.read value with
        | none => none
        | some s => (configSettingsLoop n fp).map (s :: ·)

/-- The settings of a file. -/
def configSettings (file : Option (List Char)) : Option (List Setting) :=
  file.bind fun text =>
    configSettingsLoop (linesOf configBufferSize text).length (linesOf configBufferSize text)

/-- The settings from a line on: the line is empty, or the first setting begins in it. -/
theorem configSettingsLoop_cons_eq_some {n : ℕ} {line : List Char} {fp : List (List Char)}
    {ss : List Setting} (h : configSettingsLoop (n + 1) (line :: fp) = some ss) :
    (configLineEmpty (configLine line) ∧ configSettingsLoop n fp = some ss) ∨
      (¬ configLineEmpty (configLine line) ∧ ∃ k value fp' s rest,
        configSetting (configLine line) fp = some (k, value, fp') ∧ k.read value = some s ∧
          configSettingsLoop n fp' = some rest ∧ ss = s :: rest) := by
  simp only [configSettingsLoop] at h
  by_cases hempty : configLineEmpty (configLine line)
  · rw [if_pos hempty] at h
    exact .inl ⟨hempty, h⟩
  · rw [if_neg hempty] at h
    rcases hset : configSetting (configLine line) fp with _ | ⟨k, value, fp'⟩
    · rw [hset] at h
      cases h
    · rw [hset] at h
      dsimp only at h
      rcases hread : k.read value with _ | s
      · rw [hread] at h
        cases h
      · rw [hread] at h
        obtain ⟨rest, hrest, rfl⟩ := Option.map_eq_some_iff.mp h
        exact .inr ⟨hempty, k, value, fp', s, rest, rfl, hread, hrest, rfl⟩

theorem configParseLoop_some {n : ℕ} {fp : List (List Char)} {ss : List Setting}
    (h : configSettingsLoop n fp = some ss) (data : FandConfig) :
    configParseLoop n fp data = (0, ss.foldl Setting.apply data) := by
  induction n generalizing fp ss data with
  | zero =>
    cases h
    rfl
  | succ n ih =>
    cases fp with
    | nil =>
      cases h
      rfl
    | cons line fp =>
      simp only [configParseLoop]
      obtain ⟨hempty, hrest⟩ | ⟨hempty, k, value, fp', s, rest, hset, hread, hrest, rfl⟩ :=
        configSettingsLoop_cons_eq_some h
      · rw [if_pos hempty]
        exact ih hrest data
      · rw [if_neg hempty, hset]
        dsimp only
        rw [ConfigKey.handler_some hread, if_neg (by simp), ih hrest]
        rfl

theorem configParseLoop_none {n : ℕ} {fp : List (List Char)}
    (h : configSettingsLoop n fp = none) (data : FandConfig) :
    (configParseLoop n fp data).1 ≠ 0 := by
  induction n generalizing fp data with
  | zero => cases h
  | succ n ih =>
    cases fp with
    | nil => cases h
    | cons line fp =>
      simp only [configSettingsLoop] at h
      simp only [configParseLoop]
      by_cases hempty : configLineEmpty (configLine line)
      · rw [if_pos hempty] at h ⊢
        exact ih h data
      · rw [if_neg hempty] at h ⊢
        rcases hset : configSetting (configLine line) fp with _ | ⟨k, value, fp⟩
        · exact (by decide : (-1 : ℤ) ≠ 0)
        · rw [hset] at h
          dsimp only at h ⊢
          rcases hread : k.read value with _ | s
          · rw [if_pos (ConfigKey.handler_none hread data)]
            exact ConfigKey.handler_none hread data
          · rw [hread] at h
            rw [ConfigKey.handler_some hread, if_neg (by simp)]
            exact ih (Option.map_eq_none_iff.mp h) _

/-- A file the parser gets through is its settings, stored in order. -/
theorem configParse_some {file : Option (List Char)} {ss : List Setting}
    (h : configSettings file = some ss) (data : FandConfig) :
    configParse file data =
      if (ss.foldl Setting.apply data).matrixRows = 0 then (-1, ss.foldl Setting.apply data)
      else (0, ss.foldl Setting.apply data) := by
  obtain ⟨text, rfl, htext⟩ := Option.bind_eq_some_iff.mp h
  simp only [configParse, configParseLoop_some htext, ne_eq, not_true_eq_false, if_false]

/-- A file with an error in it is rejected whatever the record. -/
theorem configParse_none {file : Option (List Char)} (h : configSettings file = none)
    (data : FandConfig) : (configParse file data).1 ≠ 0 := by
  cases file with
  | none => simp [configParse]
  | some text =>
    have hloop : (configParseLoop (linesOf configBufferSize text).length
        (linesOf configBufferSize text) data).1 ≠ 0 := configParseLoop_none h data
    simp only [configParse, if_pos hloop]
    exact hloop

/-- What the parser accepts. -/
theorem configParse_ok {file : Option (List Char)} {data c : FandConfig}
    (h : configParse file data = (0, c)) :
    ∃ ss, configSettings file = some ss ∧ c = ss.foldl Setting.apply data ∧ c.matrixRows ≠ 0 := by
  rcases hss : configSettings file with _ | ss
  · exact absurd (congrArg Prod.fst h) (configParse_none hss data)
  · rw [configParse_some hss] at h
    split_ifs at h with hrows
    · cases h
    · cases h
      exact ⟨ss, rfl, rfl, hrows⟩

/-! ## Limits -/

/-- What a handler lets through: a matrix has one to fifteen rows and no speed above 100. -/
def Setting.Valid : Setting → Prop
  | matrix rows => rows ≠ [] ∧ rows.length < maxTempThresholds ∧ ∀ row ∈ rows, row.2.toNat ≤ 100
  | _ => True

theorem configNumber_le {ds : List Char} {high : UInt64} {x : UInt8}
    (h : configNumber ds high = some x) (hhigh : high.toNat ≤ 255) : x.toNat ≤ high.toNat := by
  simp only [configNumber] at h
  split_ifs at h with hbuf hr
  cases h
  obtain ⟨-, hle⟩ := strstoulRange_mem (not_not.mp hr)
  rw [UInt64.le_iff_toNat_le] at hle
  rw [UInt64.toNat_toUInt8, Nat.mod_eq_of_lt (by omega)]
  exact hle

theorem configMatrixRow_le {value : List Char} {row : UInt8 × UInt8}
    (h : configMatrixRow value = some row) : row.2.toNat ≤ 100 := by
  simp only [configMatrixRow] at h
  split at h
  · cases h
  · split at h
    · cases h
    · split at h
      · cases h
      · next hspeed =>
        cases h
        exact configNumber_le hspeed (by decide)

theorem matrixRows_length {n : ℕ} {value : Option (List Char)} {rows : List (UInt8 × UInt8)}
    (h : matrixRows n value = some rows) :
    rows.length ≤ n ∧ ∀ row ∈ rows, row.2.toNat ≤ 100 := by
  induction n generalizing value rows with
  | zero =>
    cases h
    exact ⟨le_refl _, by simp⟩
  | succ n ih =>
    cases value with
    | none =>
      cases h
      exact ⟨Nat.zero_le _, by simp⟩
    | some value =>
      obtain ⟨row, rest, hrow, hrest, rfl⟩ := matrixRows_succ_eq_some h
      obtain ⟨hlen, hle⟩ := ih hrest
      refine ⟨Nat.succ_le_succ hlen, ?_⟩
      rintro r (_ | ⟨_, hr⟩)
      · exact configMatrixRow_le hrow
      · exact hle r hr

theorem ConfigKey.read_valid {k : ConfigKey} {value : List Char} {s : Setting}
    (h : k.read value = some s) : s.Valid := by
  have hkey := ConfigKey.read_key h
  cases s with
  | interval x | hysteresis x | throttle b => trivial
  | matrix rows =>
    obtain rfl : k = .matrix := hkey.symm
    obtain ⟨found, hfound, hlen, heq⟩ := ConfigKey.read_matrix_eq_some h
    cases heq
    obtain ⟨hle, hspeed⟩ := matrixRows_length hfound
    refine ⟨?_, lt_of_le_of_ne hle hlen, hspeed⟩
    -- the first row is read before the loop looks for a separator
    obtain ⟨row, rest, -, -, rfl⟩ := matrixRows_succ_eq_some hfound
    exact List.cons_ne_nil row rest

theorem configSettingsLoop_valid {n : ℕ} {fp : List (List Char)} {ss : List Setting}
    (h : configSettingsLoop n fp = some ss) : ∀ s ∈ ss, s.Valid := by
  induction n generalizing fp ss with
  | zero =>
    cases h
    simp
  | succ n ih =>
    cases fp with
    | nil =>
      cases h
      simp
    | cons line fp =>
      obtain ⟨-, hrest⟩ | ⟨-, k, value, fp', s, rest, -, hread, hrest, rfl⟩ :=
        configSettingsLoop_cons_eq_some h
      · exact ih hrest
      · rintro t (_ | ⟨_, ht⟩)
        · exact ConfigKey.read_valid hread
        · exact ih hrest t ht

theorem configSettings_valid {file : Option (List Char)} {ss : List Setting}
    (h : configSettings file = some ss) : ∀ s ∈ ss, s.Valid := by
  obtain ⟨text, -, htext⟩ := Option.bind_eq_some_iff.mp h
  exact configSettingsLoop_valid htext

/-! ## Rows -/

namespace FandConfig

/-- The rows of the matrix. -/
def rowList (c : FandConfig) : List (ℕ × ℕ) :=
  (List.range c.rows).map fun i => (c.temp i, c.speed i)

@[simp] theorem rowList_length (c : FandConfig) : c.rowList.length = c.rows := by
  simp [rowList]

theorem setRow_matrix (data : FandConfig) {i : ℕ} (row : UInt8 × UInt8)
    (hi : i < maxTempThresholds) (k : ℕ) :
    idx (data.setRow i row).matrix k =
      if k = 2 * i then row.1 else if k = 2 * i + 1 then row.2 else idx data.matrix k := by
  simp only [setRow, idx_set, Nat.mul_comm i 2, matrixMaxSize, maxTempThresholds] at hi ⊢
  by_cases h₁ : k = 2 * i + 1
  · rw [if_pos ⟨h₁.symm, by omega⟩, if_neg (by omega), if_pos h₁]
  · by_cases h₀ : k = 2 * i
    · rw [if_neg (by omega), if_pos ⟨h₀.symm, by omega⟩, if_pos h₀]
    · rw [if_neg (by omega), if_neg (by omega), if_neg h₀, if_neg h₁]

/-- Rows are written one after the other, and nothing before them is touched. -/
theorem setRows_matrix (data : FandConfig) {i : ℕ} {rows : List (UInt8 × UInt8)}
    (hlen : i + rows.length ≤ maxTempThresholds) :
    (∀ k, k < 2 * i → idx (data.setRows i rows).matrix k = idx data.matrix k) ∧
      ∀ j (hj : j < rows.length),
        idx (data.setRows i rows).matrix (2 * (i + j)) = rows[j].1 ∧
          idx (data.setRows i rows).matrix (2 * (i + j) + 1) = rows[j].2 := by
  induction rows generalizing data i with
  | nil => exact ⟨fun k _ => rfl, fun j hj => absurd hj (Nat.not_lt_zero j)⟩
  | cons row rows ih =>
    rw [List.length_cons] at hlen
    obtain ⟨hframe, hrows⟩ := ih (data.setRow i row) (i := i + 1) (by omega)
    refine ⟨fun k hk => ?_, fun j hj => ?_⟩
    · rw [setRows, hframe k (by omega), setRow_matrix data row (by omega), if_neg (by omega),
        if_neg (by omega)]
    · rw [setRows]
      cases j with
      | zero =>
        rw [hframe _ (by omega), hframe _ (by omega), setRow_matrix data row (by omega),
          setRow_matrix data row (by omega), if_pos (by omega), if_neg (by omega),
          if_pos (by omega)]
        exact ⟨rfl, rfl⟩
      | succ j =>
        rw [List.length_cons] at hj
        have := hrows j (by omega)
        rwa [show i + 1 + j = i + (j + 1) by omega] at this

theorem setRows_fields (data : FandConfig) (i : ℕ) (rows : List (UInt8 × UInt8)) :
    (data.setRows i rows).throttle = data.throttle ∧
      (data.setRows i rows).hysteresis = data.hysteresis ∧
      (data.setRows i rows).interval = data.interval := by
  induction rows generalizing data i with
  | nil => exact ⟨rfl, rfl, rfl⟩
  | cons row rows ih => exact ih (data.setRow i row) (i + 1)

/-- Storing a matrix makes its rows the rows of the record. -/
theorem rowList_matrix (data : FandConfig) {rows : List (UInt8 × UInt8)}
    (hlen : rows.length ≤ maxTempThresholds) :
    ((Setting.matrix rows).apply data).rowList =
      rows.map fun row => (row.1.toNat, row.2.toNat) := by
  have hrows : ((Setting.matrix rows).apply data).rows = rows.length := by
    simp only [Setting.apply, FandConfig.rows]
    exact UInt8.toNat_ofNat_of_lt' (lt_of_le_of_lt hlen (by decide))
  refine List.ext_getElem (by simp [rowList, hrows]) fun j h₁ h₂ => ?_
  rw [List.length_map] at h₂
  obtain ⟨ht, hs⟩ := (setRows_matrix data (i := 0) (by rwa [Nat.zero_add])).2 j h₂
  simp only [rowList, List.getElem_map, List.getElem_range, FandConfig.temp, FandConfig.speed,
    Setting.apply]
  rw [Nat.zero_add] at ht hs
  rw [ht, hs]

end FandConfig

/-- At most fifteen rows, and no speed above 100. -/
def FandConfig.WithinLimits (c : FandConfig) : Prop :=
  c.rowList.length < maxTempThresholds ∧ ∀ row ∈ c.rowList, row.2 ≤ 100

theorem Setting.apply_withinLimits {data : FandConfig} {s : Setting} (hs : s.Valid)
    (h : data.WithinLimits) : (s.apply data).WithinLimits := by
  cases s with
  | interval x | hysteresis x | throttle b => exact h
  | matrix rows =>
    obtain ⟨-, hlen, hspeed⟩ := hs
    rw [FandConfig.WithinLimits, FandConfig.rowList_matrix data hlen.le, List.length_map]
    refine ⟨hlen, ?_⟩
    rintro _ hrow
    obtain ⟨row, hmem, rfl⟩ := List.mem_map.mp hrow
    exact hspeed row hmem

theorem foldl_withinLimits {data : FandConfig} {ss : List Setting} (hs : ∀ s ∈ ss, s.Valid)
    (h : data.WithinLimits) : (ss.foldl Setting.apply data).WithinLimits := by
  induction ss generalizing data with
  | nil => exact h
  | cons s ss ih =>
    exact ih (fun t ht => hs t (List.mem_cons_of_mem s ht))
      (Setting.apply_withinLimits (hs s (List.mem_cons_self ..)) h)

/-- A configuration that the parser accepts, started on a record without rows, is within
the limits. -/
theorem configParse_withinLimits {file : Option (List Char)} {data c : FandConfig}
    (hdata : data.matrixRows = 0) (h : configParse file data = (0, c)) :
    0 < c.rows ∧ c.WithinLimits := by
  obtain ⟨ss, hss, rfl, hrows⟩ := configParse_ok h
  refine ⟨?_, foldl_withinLimits (configSettings_valid hss) ?_⟩
  · rw [FandConfig.rows, Nat.pos_iff_ne_zero]
    exact fun h0 => hrows (UInt8.toNat_inj.mp h0)
  · simp [FandConfig.WithinLimits, FandConfig.rowList, FandConfig.rows, hdata]

end AmdgpuFand

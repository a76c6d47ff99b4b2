import AmdgpuFand.Joining
import AmdgpuFand.MatrixPrint

/-!
# How far the parser comes

`configReach` says where `config_parse` is when it has read some of the lines of a file: between
two settings, inside a matrix, or at an error. Between settings it goes on with the next line
(`configParseLoop_between`), inside a matrix with the loop of `config_append_matrix_rows`
(`configParseLoop_inside`), and behind an error it reads nothing more (`configParseLoop_stopped`).

What the loop sees of a line is the text it takes off it, and nothing else
(`configAppendLoop_cons`).
-/

namespace AmdgpuFand

open CLib Ere

/-! ## How far the parser has come -/

/-- Where the parser is when the lines it was given are used up. -/
inductive Reach where
  | between
  | inside
  | stopped
  deriving DecidableEq, Repr

/-- The loop of `config_append_matrix_rows` has not come to an end with these lines. -/
def appendOpen (valsize : ℕ) : List (List Char) → ℕ → Joined → Bool
  | [], _, _ => true
  | buffer :: fp, matrixRows, j =>
    if matrixMaxSize / 2 < matrixRows + 1 then false
    else if (j.putSeparator valsize).pos < 0 then false
    else
      match submatch mpatMid 1 (cstr buffer) with
      | some row =>
        if ((j.putSeparator valsize).putRow valsize row).pos < 0 then false
        else appendOpen valsize fp (matrixRows + 1) ((j.putSeparator valsize).putRow valsize row)
      | none =>
        match submatch mpatEnd 1 (cstr buffer) with
        | some _ => false
        | none => appendOpen valsize fp (matrixRows + 1) (j.putSeparator valsize)

/-- The value begins a matrix that these lines do not end. -/
def matrixOpen (value : List Char) (valsize : ℕ) (fp : List (List Char)) : Bool :=
  match submatch mpatStart 1 value with
  | none => false
  | some row =>
    let buffer := strsncpyStr row configBufferSize row.length
    if buffer.1 < 0 then false
    else
      let pos := strscpyStr buffer.2 valsize
      if pos.1 < 0 then false else appendOpen valsize fp 0 ⟨pos.2, pos.1⟩

/-- The setting on a line begins a matrix that the lines behind it do not end. -/
def settingOpen (buffer : List Char) (fp : List (List Char)) : Bool :=
  match configPair buffer with
  | none => false
  | some (key, value) =>
    if key = ConfigKey.matrix.name then matrixOpen value configBufferSize fp else false

/-- How far the parser comes with at most `n` lines that are not part of a matrix. -/
def configReach : ℕ → List (List Char) → Reach
  | 0, _ => .between
  | _ + 1, [] => .between
  | n + 1, line :: fp =>
    if configLineEmpty (configLine line) then configReach n fp
    else if settingOpen (configLine line) fp then .inside
    else
      match configSetting (configLine line) fp with
      | none => .stopped
      | some (k, value, fp) =>
        match k.read value with
        | none => .stopped
        | some _ => configReach n fp

/-! ## Inside a matrix -/

section Loop

variable {valsize k : ℕ} {j : Joined} {line : List Char} {fp : List (List Char)}

/-- What is taken off a line says which of the patterns found it. -/
theorem submatch_takenText (line : List Char) :
    submatch mpatMid 1 (cstr line) =
        (if takenText line = [] ∨ ')' ∈ takenText line then none else some (takenText line)) ∧
      submatch mpatEnd 1 (cstr line) =
        if ')' ∈ takenText line then some (takenText line) else none := by
  rcases hmid : submatch mpatMid 1 (cstr line) with _ | row
  · rcases hend : submatch mpatEnd 1 (cstr line) with _ | row
    · have htaken : takenText line = [] := by simp only [takenText, hmid, hend]
      rw [htaken]
      exact ⟨rfl, rfl⟩
    · obtain ⟨w, rfl, -⟩ := submatch_end.mp hend
      have htaken : takenText line = w.text ++ [')'] := by simp only [takenText, hmid, hend]
      have hparen : ')' ∈ w.text ++ [')'] := by simp
      rw [htaken, if_pos (Or.inr hparen), if_pos hparen]
      exact ⟨rfl, rfl⟩
  · obtain ⟨w, rfl, hw⟩ := submatch_mid.mp hmid
    have htaken : takenText line = w.text := by simp only [takenText, hmid]
    have hend : submatch mpatEnd 1 (cstr line) = none := LineHas.not_closes (o := some w) hw
    rw [htaken, if_neg (not_or.mpr ⟨w.text_ne_nil, w.paren_not_mem⟩), if_neg w.paren_not_mem]
    exact ⟨rfl, hend⟩

/-- The loop sees of a line what it takes off it. -/
theorem configAppendLoop_cons (valsize k : ℕ) (j : Joined) (line : List Char)
    (fp : List (List Char)) :
    configAppendLoop valsize (line :: fp) k j =
      if matrixMaxSize / 2 < k + 1 ∨ (j.putSeparator valsize).pos < 0 then none
      else if takenText line = [] then configAppendLoop valsize fp (k + 1) (j.putSeparator valsize)
      else if ((j.putSeparator valsize).putRow valsize (takenText line)).pos < 0 then none
      else if ')' ∈ takenText line then
        some (((j.putSeparator valsize).putRow valsize (takenText line)).value, fp)
      else configAppendLoop valsize fp (k + 1)
        ((j.putSeparator valsize).putRow valsize (takenText line)) := by
  obtain ⟨hmid, hend⟩ := submatch_takenText line
  rw [configAppendLoop]
  simp only [ite_or, hmid, hend]
  by_cases hnone : takenText line = []
  · simp [hnone]
  · by_cases hclose : ')' ∈ takenText line
    · simp [hnone, hclose]
    · simp [hnone, hclose]

/-- That is also what decides whether it goes on. -/
theorem appendOpen_cons (valsize k : ℕ) (j : Joined) (line : List Char)
    (fp : List (List Char)) :
    appendOpen valsize (line :: fp) k j =
      if matrixMaxSize / 2 < k + 1 ∨ (j.putSeparator valsize).pos < 0 then false
      else if takenText line = [] then appendOpen valsize fp (k + 1) (j.putSeparator valsize)
      else if ((j.putSeparator valsize).putRow valsize (takenText line)).pos < 0 ∨
          ')' ∈ takenText line then false
      else appendOpen valsize fp (k + 1)
        ((j.putSeparator valsize).putRow valsize (takenText line)) := by
  obtain ⟨hmid, hend⟩ := submatch_takenText line
  rw [appendOpen]
  simp only [ite_or, hmid, hend]
  by_cases hnone : takenText line = []
  · simp [hnone]
  · by_cases hclose : ')' ∈ takenText line
    · simp [hnone, hclose]
    · simp [hnone, hclose]

/-- What the loop goes on with: the position is inside the buffer, and nothing has closed the
matrix. -/
structure Joined.Open (valsize : ℕ) (j : Joined) : Prop where
  room : ∃ pos : ℕ, j.pos = pos ∧ pos < valsize
  value : ')' ∉ j.value

/-- A copy leaves the text open if it leaves room and copies no parenthesis: -/
theorem Joined.Open.put (hj : j.Open valsize) {copied : ℤ × List Char}
    (hroom : ∃ pos : ℕ, (j.put copied).pos = pos ∧ pos < valsize) (hcopied : ')' ∉ copied.2) :
    (j.put copied).Open valsize := by
  refine ⟨hroom, fun hmem => ?_⟩
  rcases List.mem_append.mp hmem with hmem | hmem
  · exact hj.value (List.mem_of_mem_take hmem)
  · exact hcopied hmem

/-- that of the separator does, -/
theorem Joined.Open.putSeparator (hj : j.Open valsize)
    (hpos : ¬ (j.putSeparator valsize).pos < 0) : (j.putSeparator valsize).Open valsize := by
  obtain ⟨pos, hj', hlt⟩ := hj.room
  refine hj.put ⟨_, (putSeparator_pos hj' hlt).2 hpos, pieceStep_lt hlt⟩ fun hmem => ?_
  exact absurd (mem_strscpyStr hmem) (by decide)

/-- and that of a row from the middle of a matrix. -/
theorem Joined.Open.putRow (hj : j.Open valsize) {row : List Char} (hrow : ')' ∉ row)
    (hpos : ¬ (j.putRow valsize row).pos < 0) : (j.putRow valsize row).Open valsize := by
  obtain ⟨pos, hj', hlt⟩ := hj.room
  exact hj.put ⟨_, (putRow_pos hj' hlt row).2 hpos, pieceStep_lt hlt⟩ fun hmem =>
    hrow (mem_strsncpyStr hmem)

/-- A loop that has not come to an end goes on at the lines behind. -/
theorem configAppendLoop_open (hj : j.Open valsize) (h : appendOpen valsize fp k j = true) :
    ∃ (k' : ℕ) (j' : Joined), j'.Open valsize ∧ ∀ more,
      appendOpen valsize (fp ++ more) k j = appendOpen valsize more k' j' ∧
        configAppendLoop valsize (fp ++ more) k j = configAppendLoop valsize more k' j' := by
  induction fp generalizing k j with
  | nil => exact ⟨k, j, hj, fun more => ⟨rfl, rfl⟩⟩
  | cons line fp ih =>
    rw [appendOpen_cons] at h
    split_ifs at h with hstop hnone hend
    · obtain ⟨k', j', hj', hmore⟩ := ih (hj.putSeparator (not_or.mp hstop).2) h
      refine ⟨k', j', hj', fun more => ?_⟩
      rw [List.cons_append, appendOpen_cons, configAppendLoop_cons, if_neg hstop, if_neg hstop,
        if_pos hnone, if_pos hnone]
      exact hmore more
    · obtain ⟨hrow, hclose⟩ := not_or.mp hend
      obtain ⟨k', j', hj', hmore⟩ :=
        ih ((hj.putSeparator (not_or.mp hstop).2).putRow hclose hrow) h
      refine ⟨k', j', hj', fun more => ?_⟩
      rw [List.cons_append, appendOpen_cons, configAppendLoop_cons, if_neg hstop, if_neg hstop,
        if_neg hnone, if_neg hnone, if_neg hend, if_neg hrow, if_neg hclose]
      exact hmore more

/-- Lines of which the same is taken are the same to the loop; a line that closes the matrix is
the last one it sees. -/
theorem configAppendLoop_congr {p p' : List (List Char)} (h : p.map takenText = p'.map takenText)
    (hopen : ∀ line ∈ p.dropLast, ')' ∉ takenText line) (more : List (List Char)) :
    configAppendLoop valsize (p ++ more) k j = configAppendLoop valsize (p' ++ more) k j := by
  induction p generalizing p' k j with
  | nil =>
    obtain rfl := List.map_eq_nil_iff.mp h.symm
    rfl
  | cons line p ih =>
    obtain ⟨line', p', rfl, htaken, hp⟩ := List.map_eq_cons_iff.mp h.symm
    have hrest : ∀ k j, configAppendLoop valsize (p ++ more) k j =
        configAppendLoop valsize (p' ++ more) k j := by
      intro k j
      refine ih hp.symm fun l hl => hopen l ?_
      cases p with
      | nil => cases hl
      | cons l' p => exact List.mem_cons_of_mem line hl
    rw [List.cons_append, List.cons_append, configAppendLoop_cons, configAppendLoop_cons, htaken]
    split_ifs with hstop hnone hrow hclose
    · rfl
    · exact hrest _ _
    · rfl
    -- the line closes the matrix, so there is none behind it
    · cases p with
      | nil =>
        obtain rfl := List.map_eq_nil_iff.mp hp
        rfl
      | cons l p => exact absurd hclose (hopen line (List.mem_cons_self ..))
    · exact hrest _ _

/-- A loop that stops at a line that has nothing to take stops whatever comes. -/
theorem configAppendLoop_probe (h : appendOpen valsize [['#']] k j = false)
    (more : List (List Char)) : configAppendLoop valsize more k j = none := by
  cases more with
  | nil => rfl
  | cons line more =>
    -- nothing is taken off this line, so the loop stops for its count or its separator
    have htaken : takenText ['#'] = [] := by decide
    rw [appendOpen_cons, if_pos htaken] at h
    split_ifs at h with hstop
    · rw [configAppendLoop_cons, if_pos hstop]
    · cases h

end Loop

/-! ## Settings -/

section Append

variable {valsize : ℕ} {value buffer : List Char} {fp : List (List Char)}

/-- A loop that has come to an end does not go on with the lines behind, -/
theorem appendOpen_append {k : ℕ} {j : Joined} (h : appendOpen valsize fp k j = false)
    (more : List (List Char)) : appendOpen valsize (fp ++ more) k j = false := by
  induction fp generalizing k j with
  | nil => cases h
  | cons line fp ih =>
    rw [appendOpen_cons] at h
    rw [List.cons_append, appendOpen_cons]
    split_ifs at h ⊢ with hstop hnone hend
    · rfl
    · exact ih h
    · rfl
    · exact ih h

/-- and neither does a matrix -/
theorem matrixOpen_append (h : matrixOpen value valsize fp = false) (more : List (List Char)) :
    matrixOpen value valsize (fp ++ more) = false := by
  simp only [matrixOpen] at h ⊢
  rcases hstart : submatch mpatStart 1 value with _ | row
  · rfl
  · rw [hstart] at h
    dsimp only at h ⊢
    split_ifs at h ⊢ with hbuffer hpos
    · rfl
    · rfl
    · exact appendOpen_append h more

/-- or a setting. -/
theorem settingOpen_append (h : settingOpen buffer fp = false) (more : List (List Char)) :
    settingOpen buffer (fp ++ more) = false := by
  simp only [settingOpen] at h ⊢
  rcases hpair : configPair buffer with _ | ⟨key, value⟩
  · rfl
  · rw [hpair] at h
    dsimp only at h ⊢
    split_ifs at h ⊢ with hkey
    · exact matrixOpen_append h more
    · rfl

/-- What the loop returns does not depend on the lines behind the matrix. -/
theorem configAppendLoop_append {k : ℕ} {j : Joined} (h : appendOpen valsize fp k j = false)
    (more : List (List Char)) :
    configAppendLoop valsize (fp ++ more) k j =
      (configAppendLoop valsize fp k j).map fun r => (r.1, r.2 ++ more) := by
  induction fp generalizing k j with
  | nil => cases h
  | cons line fp ih =>
    rw [appendOpen_cons] at h
    rw [List.cons_append, configAppendLoop_cons, configAppendLoop_cons]
    split_ifs at h with hstop hnone hend
    · rw [if_pos hstop, if_pos hstop]
      rfl
    · rw [if_neg hstop, if_neg hstop, if_pos hnone, if_pos hnone]
      exact ih h
    · rw [if_neg hstop, if_neg hstop, if_neg hnone, if_neg hnone]
      split_ifs with hrow hclose
      · rfl
      · rfl
      · exact absurd hend (not_or.mpr ⟨hrow, hclose⟩)
    · obtain ⟨hrow, hclose⟩ := not_or.mp hend
      rw [if_neg hstop, if_neg hstop, if_neg hnone, if_neg hnone, if_neg hrow, if_neg hrow,
        if_neg hclose, if_neg hclose]
      exact ih h

/-- What is joined does not, -/
theorem configAppendMatrixRows_append (h : matrixOpen value valsize fp = false)
    (more : List (List Char)) :
    configAppendMatrixRows value valsize (fp ++ more) =
      (configAppendMatrixRows value valsize fp).map fun r => (r.1, r.2 ++ more) := by
  simp only [matrixOpen] at h
  simp only [configAppendMatrixRows]
  rcases hstart : submatch mpatStart 1 value with _ | row
  · rfl
  · rw [hstart] at h
    dsimp only at h ⊢
    split_ifs at h ⊢ with hbuffer hpos
    · rfl
    · rfl
    · exact configAppendLoop_append h more

/-- and what is read of a setting does not. -/
theorem configSetting_append (h : settingOpen buffer fp = false) (more : List (List Char)) :
    configSetting buffer (fp ++ more) =
      (configSetting buffer fp).map fun r => (r.1, r.2.1, r.2.2 ++ more) := by
  simp only [settingOpen] at h
  simp only [configSetting]
  rcases hpair : configPair buffer with _ | ⟨key, value⟩
  · rfl
  · rw [hpair] at h
    dsimp only at h ⊢
    have hvalue : configValue key value (fp ++ more) =
        (configValue key value fp).map fun r => (r.1, r.2 ++ more) := by
      simp only [configValue]
      split_ifs at h ⊢ with hkey
      · exact configAppendMatrixRows_append h more
      · rfl
    rw [hvalue]
    rcases configValue key value fp with _ | ⟨value', fp'⟩
    · rfl
    · rcases hfind : configMap.find? (fun k => k.name = key) with _ | k
      · simp only [Option.map_some, hfind, Option.map_none]
      · simp only [Option.map_some, hfind]

/-- The row of the first line leaves a matrix open. -/
theorem open_header {w : RowText}
    (hpos : ¬ (strscpyStr (strsncpyStr ('(' :: w.text) configBufferSize
      ('(' :: w.text).length).2 valsize).1 < 0) :
    (Joined.mk (strscpyStr (strsncpyStr ('(' :: w.text) configBufferSize
      ('(' :: w.text).length).2 valsize).2 (strscpyStr (strsncpyStr ('(' :: w.text) configBufferSize
      ('(' :: w.text).length).2 valsize).1).Open valsize := by
  refine ⟨?_, fun hmem => ?_⟩
  · rw [strscpyStr] at hpos ⊢
    split_ifs at hpos ⊢ with hfits
    · exact ⟨_, rfl, hfits⟩
    · exact absurd (show (-e2big : ℤ) < 0 by decide) hpos
  · rcases List.mem_cons.mp (mem_strsncpyStr (mem_strscpyStr hmem)) with hparen | hparen
    · exact absurd hparen (by decide)
    · exact w.paren_not_mem hparen

/-- A setting whose matrix is not closed goes on at the lines behind. -/
theorem configSetting_open (h : settingOpen buffer fp = true) :
    ∃ (k : ℕ) (j : Joined), j.Open configBufferSize ∧ ∀ more,
      settingOpen buffer (fp ++ more) = appendOpen configBufferSize more k j ∧
        configSetting buffer (fp ++ more) =
          (configAppendLoop configBufferSize more k j).map fun r => (.matrix, r.1, r.2) := by
  simp only [settingOpen] at h
  rcases hpair : configPair buffer with _ | ⟨key, value⟩
  · rw [hpair] at h
    cases h
  · rw [hpair] at h
    dsimp only at h
    split_ifs at h with hkey
    subst hkey
    simp only [matrixOpen] at h
    rcases hstart : submatch mpatStart 1 value with _ | row
    · rw [hstart] at h
      cases h
    · rw [hstart] at h
      dsimp only at h
      split_ifs at h with hbuffer hpos
      obtain ⟨w, rfl, -⟩ := submatch_start.mp hstart
      obtain ⟨k, j, hj, hmore⟩ := configAppendLoop_open (open_header hpos) h
      refine ⟨k, j, hj, fun more => ?_⟩
      obtain ⟨hopen, hloop⟩ := hmore more
      refine ⟨?_, ?_⟩
      · simp only [settingOpen, hpair, if_true, matrixOpen, hstart, if_neg hbuffer, if_neg hpos,
          hopen]
      · simp only [configSetting, hpair, configValue, if_true, configAppendMatrixRows, hstart,
          if_neg hbuffer, if_neg hpos, hloop]
        rcases configAppendLoop configBufferSize more k j with _ | ⟨text, rest⟩
        · rfl
        · rfl

/-- The lines behind a setting are the lines behind its own, or those behind the line that
closes the matrix. -/
theorem configSetting_rest {k : ConfigKey} {rest : List (List Char)}
    (h : configSetting buffer fp = some (k, value, rest)) :
    rest = fp ∨ ∃ lines line last, fp = lines ++ line :: rest ∧ LineCloses line last ∧
      lines.length + 1 ≤ maxTempThresholds := by
  obtain ⟨v, -, hvalue⟩ := configSetting_some h
  simp only [configValue] at hvalue
  split_ifs at hvalue with hkey
  · obtain ⟨-, lines, -, line, last, -, hfp, -, hlast, hcount⟩ :=
      configAppendMatrixRows_lines hvalue
    exact Or.inr ⟨lines, line, last, hfp, hlast, hcount⟩
  · cases hvalue
    exact Or.inl rfl

/-- A setting does not add lines, so that the number of lines is fuel enough for the rest. -/
theorem configSetting_length {k : ConfigKey} {rest : List (List Char)}
    (h : configSetting buffer fp = some (k, value, rest)) : rest.length ≤ fp.length := by
  obtain rfl | ⟨lines, line, -, rfl, -, -⟩ := configSetting_rest h
  · exact le_refl _
  · rw [List.length_append, List.length_cons]
    omega

end Append

/-- A line with a setting has an equals sign. -/
theorem equals_mem_of_configPair {buffer : List Char} {pair : List Char × List Char}
    (h : configPair buffer = some pair) : '=' ∈ buffer := by
  rcases hm : regexec valregex buffer with _ | ps
  · rw [configPair, hm] at h
    cases h
  · obtain ⟨pre, suf, htext, hmatch⟩ := regexec_matches hm
    have hstart : (pre.length == 0) = true := hmatch.1
    rw [hstart] at hmatch
    obtain ⟨lead, key, gap, gap', quote, value, quote', tail, -, -, -, -, -, -, -, -, -, -, -, -,
      rfl, -⟩ := matches_valregex.mp hmatch
    rw [htext]
    simp

/-! ## Lines -/

/-- What the parser makes of a matrix and the lines behind it. -/
def parseMatrix (n : ℕ) (data : FandConfig) :
    Option (List Char × List (List Char)) → ℤ × FandConfig
  | none => (-1, data)
  | some (value, fp) =>
    if (configSetMatrix data value).1 ≠ 0 then configSetMatrix data value
    else configParseLoop n fp (configSetMatrix data value).2

/-- What the parser does at a line between settings, with the lines `fp` and any others behind -/
inductive FirstLine (line : List Char) (fp : List (List Char)) : Prop
  /-- the line is blank, or a setting is stored, and the parser goes on behind it -/
  | goesOn (rest : List (List Char)) (store : FandConfig → FandConfig)
      (hlen : rest.length ≤ fp.length)
      (hreach : ∀ n more, configReach (n + 1) (line :: (fp ++ more)) = configReach n (rest ++ more))
      (hloop : ∀ n more data, configParseLoop (n + 1) (line :: (fp ++ more)) data =
        configParseLoop n (rest ++ more) (store data))
  /-- there is no setting, or its value is refused -/
  | fails (hreach : ∀ n more, configReach (n + 1) (line :: (fp ++ more)) = .stopped)
      (hloop : ∀ data, ∃ r : ℤ × FandConfig, r.1 ≠ 0 ∧
        ∀ n more, configParseLoop (n + 1) (line :: (fp ++ more)) data = r)
  /-- a matrix begins that the lines `fp` do not end -/
  | opens (k : ℕ) (j : Joined) (hj : j.Open configBufferSize)
      (hinside : ∀ n, configReach (n + 1) (line :: fp) = .inside)
      (hreach : ∀ n more, appendOpen configBufferSize more k j = true →
        configReach (n + 1) (line :: (fp ++ more)) = .inside)
      (hloop : ∀ n more data, configParseLoop (n + 1) (line :: (fp ++ more)) data =
        parseMatrix n data (configAppendLoop configBufferSize more k j))

theorem firstLine (line : List Char) (fp : List (List Char)) : FirstLine line fp := by
  by_cases hempty : configLineEmpty (configLine line) = true
  · exact .goesOn fp id (le_refl _) (fun n more => by rw [configReach, if_pos hempty])
      (fun n more data => by rw [configParseLoop, if_pos hempty, id])
  by_cases hopen : settingOpen (configLine line) fp = true
  · obtain ⟨k, j, hj, hmore⟩ := configSetting_open hopen
    refine .opens k j hj (fun n => ?_) (fun n more hin => ?_) (fun n more data => ?_)
    · rw [configReach, if_neg hempty, if_pos hopen]
    · rw [configReach, if_neg hempty, (hmore more).1, if_pos hin]
    · rw [configParseLoop, if_neg hempty, (hmore more).2]
      rcases configAppendLoop configBufferSize more k j with _ | ⟨value, rest⟩
      · rfl
      · rfl
  -- the setting is read to its end, whatever stands behind
  have hclosed := eq_false_of_ne_true hopen
  have happend := configSetting_append hclosed
  have hnot : ∀ more, ¬ settingOpen (configLine line) (fp ++ more) = true := fun more => by
    rw [settingOpen_append hclosed]
    exact Bool.false_ne_true
  rcases hset : configSetting (configLine line) fp with _ | ⟨key, value, rest⟩
  · refine .fails (fun n more => ?_)
      (fun data => ⟨(-1, data), (by decide : (-1 : ℤ) ≠ 0), fun n more => ?_⟩)
    · rw [configReach, if_neg hempty, if_neg (hnot more), happend, hset]
      rfl
    · rw [configParseLoop, if_neg hempty, happend, hset]
      rfl
  rcases hread : key.read value with _ | s
  · have hfails := ConfigKey.handler_none hread
    refine .fails (fun n more => ?_)
      (fun data => ⟨key.handler data value, hfails data, fun n more => ?_⟩)
    · rw [configReach, if_neg hempty, if_neg (hnot more), happend, hset]
      simp only [Option.map_some, hread]
    · rw [configParseLoop, if_neg hempty, happend, hset]
      exact if_pos (hfails data)
  · refine .goesOn rest s.apply (configSetting_length hset) (fun n more => ?_)
      (fun n more data => ?_)
    · rw [configReach, if_neg hempty, if_neg (hnot more), happend, hset]
      simp only [Option.map_some, hread]
    · rw [configParseLoop, if_neg hempty, happend, hset]
      simp only [Option.map_some, ConfigKey.handler_some hread, ne_eq, not_true_eq_false, if_false]

section Reached

variable {m : ℕ} {fp : List (List Char)}

/-- Between two settings the parser goes on with the next line. -/
theorem configParseLoop_between (hm : fp.length ≤ m) (h : configReach m fp = .between)
    (data : FandConfig) :
    ∃ k ≤ fp.length, (∀ n more, configReach (n + k) (fp ++ more) = configReach n more) ∧
      ∃ data', ∀ n more,
        configParseLoop (n + k) (fp ++ more) data = configParseLoop n more data' := by
  induction m generalizing fp data with
  | zero =>
    obtain rfl := List.eq_nil_of_length_eq_zero (Nat.le_zero.mp hm)
    exact ⟨0, le_refl _, fun n more => rfl, data, fun n more => rfl⟩
  | succ m ih =>
    cases fp with
    | nil => exact ⟨0, le_refl _, fun n more => rfl, data, fun n more => rfl⟩
    | cons line fp =>
      rw [List.length_cons] at hm ⊢
      cases firstLine line fp with
      | goesOn rest store hlen hreach hloop =>
        have hrest := hreach m []
        rw [List.append_nil, List.append_nil, h] at hrest
        obtain ⟨k, hk, hreach', data', hloop'⟩ := ih (by omega) hrest.symm (store data)
        refine ⟨k + 1, by omega, fun n more => ?_, data', fun n more => ?_⟩
        · rw [← Nat.add_assoc, List.cons_append, hreach, hreach']
        · rw [← Nat.add_assoc, List.cons_append, hloop, hloop']
      | fails hreach =>
        have hstopped := hreach m []
        rw [List.append_nil, h] at hstopped
        cases hstopped
      | opens k j hj hinside =>
        rw [hinside] at h
        cases h

/-- Behind an error it stays there, -/
theorem configReach_stopped (hm : fp.length ≤ m) (h : configReach m fp = .stopped) {n : ℕ}
    (hn : fp.length ≤ n) (more : List (List Char)) : configReach n (fp ++ more) = .stopped := by
  induction m generalizing fp n with
  | zero => cases h
  | succ m ih =>
    cases fp with
    | nil => cases h
    | cons line fp =>
      rw [List.length_cons] at hm hn
      obtain ⟨n, rfl⟩ := Nat.exists_eq_succ_of_ne_zero (Nat.ne_zero_of_lt hn)
      rw [List.cons_append]
      cases firstLine line fp with
      | goesOn rest store hlen hreach =>
        have hrest := hreach m []
        rw [List.append_nil, List.append_nil, h] at hrest
        rw [hreach]
        exact ih (by omega) hrest.symm (by omega)
      | fails hreach => exact hreach n more
      | opens k j hj hinside =>
        rw [hinside] at h
        cases h

/-- and reads nothing more. -/
theorem configParseLoop_stopped (hm : fp.length ≤ m) (h : configReach m fp = .stopped)
    (data : FandConfig) :
    ∃ r : ℤ × FandConfig, r.1 ≠ 0 ∧
      ∀ n more, fp.length ≤ n → configParseLoop n (fp ++ more) data = r := by
  induction m generalizing fp data with
  | zero => cases h
  | succ m ih =>
    cases fp with
    | nil => cases h
    | cons line fp =>
      rw [List.length_cons] at hm ⊢
      cases firstLine line fp with
      | goesOn rest store hlen hreach hloop =>
        have hrest := hreach m []
        rw [List.append_nil, List.append_nil, h] at hrest
        -- the error is behind this line
        obtain ⟨r, hr, hloop'⟩ := ih (by omega) hrest.symm (store data)
        refine ⟨r, hr, fun n more hn => ?_⟩
        obtain ⟨n, rfl⟩ := Nat.exists_eq_succ_of_ne_zero (Nat.ne_zero_of_lt hn)
        rw [List.cons_append, hloop, hloop' n more (by omega)]
      | fails _ hloop =>
        obtain ⟨r, hr, hloop'⟩ := hloop data
        refine ⟨r, hr, fun n more hn => ?_⟩
        obtain ⟨n, rfl⟩ := Nat.exists_eq_succ_of_ne_zero (Nat.ne_zero_of_lt hn)
        exact hloop' n more
      | opens k j hj hinside =>
        rw [hinside] at h
        cases h

/-- Inside a matrix the parser goes on with the loop of `config_append_matrix_rows`. -/
theorem configParseLoop_inside (hm : fp.length ≤ m) (h : configReach m fp = .inside)
    (data : FandConfig) :
    ∃ i ≤ fp.length, ∃ (data' : FandConfig) (k : ℕ) (j : Joined), j.Open configBufferSize ∧
      ∀ n more,
        (appendOpen configBufferSize more k j = true → configReach (n + i) (fp ++ more) = .inside) ∧
        configParseLoop (n + i) (fp ++ more) data =
          parseMatrix n data' (configAppendLoop configBufferSize more k j) := by
  induction m generalizing fp data with
  | zero => cases h
  | succ m ih =>
    cases fp with
    | nil => cases h
    | cons line fp =>
      rw [List.length_cons] at hm ⊢
      cases firstLine line fp with
      | goesOn rest store hlen hreach hloop =>
        have hrest := hreach m []
        rw [List.append_nil, List.append_nil, h] at hrest
        obtain ⟨i, hi, data', k, j, hj, hmore⟩ := ih (by omega) hrest.symm (store data)
        refine ⟨i + 1, by omega, data', k, j, hj, fun n more => ?_⟩
        rw [← Nat.add_assoc, List.cons_append, hreach, hloop]
        exact hmore n more
      | fails hreach =>
        have hstopped := hreach m []
        rw [List.append_nil, h] at hstopped
        cases hstopped
      | opens k j hj hinside hreach hloop =>
        exact ⟨1, Nat.le_add_left 1 _, data, k, j, hj, fun n more =>
          ⟨hreach n more, hloop n more data⟩⟩

end Reached

/-! ## Whole lists of lines -/

/-- Where the parser is when it has read these lines. -/
def reachAt (fp : List (List Char)) : Reach := configReach fp.length fp

section ReachAt

variable {fp : List (List Char)}

/-- An error is final. -/
theorem reachAt_stopped (h : reachAt fp = .stopped) (more : List (List Char)) :
    reachAt (fp ++ more) = .stopped :=
  configReach_stopped (le_refl _) h (by simp) more

/-- One line is enough fuel for one line. -/
theorem configReach_line (n : ℕ) (line : List Char) :
    configReach (n + 1) [line] = reachAt [line] := by
  have hnil : ∀ n, configReach n [] = .between := fun n => by cases n <;> rfl
  rw [reachAt, List.length_singleton, configReach, configReach, hnil, hnil]
  split_ifs with hempty hopen
  · rfl
  · rfl
  · rcases hset : configSetting (configLine line) [] with _ | ⟨key, value, rest⟩
    · rfl
    · obtain rfl := List.eq_nil_of_length_eq_zero (Nat.le_zero.mp (configSetting_length hset))
      dsimp only
      rw [hnil, hnil]

/-- A line is read the same between settings and in front of a file. -/
theorem reachAt_between (h : reachAt fp = .between) (line : List Char) :
    reachAt (fp ++ [line]) = reachAt [line] := by
  obtain ⟨k, hk, hreach, -⟩ := configParseLoop_between (le_refl _) h .zero
  have hfuel : (fp ++ [line]).length = (fp.length - k) + 1 + k := by
    rw [List.length_append, List.length_singleton]
    omega
  rw [reachAt, hfuel, hreach, configReach_line]

/-- Where the parser does not come to look at a line behind these, it is at an error. -/
theorem configParseLoop_stops (h : reachAt (fp ++ [['#']]) = .stopped) (data : FandConfig) :
    ∃ r : ℤ × FandConfig, r.1 ≠ 0 ∧
      ∀ n more, fp.length ≤ n → configParseLoop n (fp ++ more) data = r := by
  cases hreach : reachAt fp with
  | stopped => exact configParseLoop_stopped (le_refl _) hreach data
  | between =>
    rw [reachAt_between hreach] at h
    exact absurd h (by decide)
  | inside =>
    obtain ⟨i, hi, data', k, j, -, hloop⟩ := configParseLoop_inside (le_refl _) hreach data
    have hprobe : appendOpen configBufferSize [['#']] k j = false := by
      refine eq_false_of_ne_true fun hopen => ?_
      have hfuel : (fp ++ [['#']]).length = fp.length + 1 - i + i := by
        rw [List.length_append, List.length_singleton]
        omega
      rw [reachAt, hfuel, (hloop _ _).1 hopen] at h
      cases h
    refine ⟨(-1, data'), (by decide : (-1 : ℤ) ≠ 0), fun n more hn => ?_⟩
    obtain ⟨n, rfl⟩ := Nat.exists_eq_add_of_le' (hi.trans hn)
    rw [(hloop n more).2, configAppendLoop_probe hprobe]
    rfl

end ReachAt

end AmdgpuFand

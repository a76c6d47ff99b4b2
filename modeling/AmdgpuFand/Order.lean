import AmdgpuFand.Reach
import Mathlib.Data.List.Nodup

/-!
# The order of the settings

The loop of `config_append_matrix_rows` takes its lines from the stream that `config_parse` reads
its own from, until one of them closes the matrix. A block of lines that it leaves nothing of is
read the same wherever it stands (`configSettings_append`), and settings with different keys are
stored in different fields, so that blocks can be put in any order, with blank lines and comments
between them (`configParse_order`).
-/

namespace AmdgpuFand

open CLib Ere

/-! ## Lines that are read alike -/

/-- The parser does not tell the lines apart, neither between settings nor in a matrix. -/
structure Alike (line line' : List Char) : Prop where
  buffer : configLine line' = configLine line
  mid : submatch mpatMid 1 (cstr line') = submatch mpatMid 1 (cstr line)
  ends : submatch mpatEnd 1 (cstr line') = submatch mpatEnd 1 (cstr line)

/-- Nor does it tell the files apart: there may be one more line at the end that says nothing. -/
inductive FilesAlike : List (List Char) → List (List Char) → Prop
  | nil : FilesAlike [] []
  | blank {line : List Char} (hempty : configLineEmpty (configLine line) = true)
      (hmid : submatch mpatMid 1 (cstr line) = none)
      (hends : submatch mpatEnd 1 (cstr line) = none) : FilesAlike [] [line]
  | cons {line line' : List Char} {fp fp' : List (List Char)} (hline : Alike line line')
      (hrest : FilesAlike fp fp') : FilesAlike (line :: fp) (line' :: fp')

theorem FilesAlike.refl (fp : List (List Char)) : FilesAlike fp fp := by
  induction fp with
  | nil => exact .nil
  | cons line fp ih => exact .cons ⟨rfl, rfl, rfl⟩ ih

/-- Files that end alike are alike behind the same lines. -/
theorem FilesAlike.append (fp : List (List Char)) {rest rest' : List (List Char)}
    (h : FilesAlike rest rest') : FilesAlike (fp ++ rest) (fp ++ rest') := by
  induction fp with
  | nil => exact h
  | cons line fp ih => exact .cons ⟨rfl, rfl, rfl⟩ ih

section Alike

variable {fp fp' : List (List Char)}

/-- Two results of reading ahead are alike. -/
def RestAlike {α : Type} (r r' : Option (α × List (List Char))) : Prop :=
  (r = none ∧ r' = none) ∨
    ∃ x rest rest', r = some (x, rest) ∧ r' = some (x, rest') ∧ FilesAlike rest rest'

theorem RestAlike.none {α : Type} : RestAlike (α := α) none none := Or.inl ⟨rfl, rfl⟩

/-- The loop joins the same rows of files that are alike. -/
theorem configAppendLoop_alike (h : FilesAlike fp fp') (valsize k : ℕ) (j : Joined) :
    RestAlike (configAppendLoop valsize fp k j) (configAppendLoop valsize fp' k j) := by
  induction h generalizing k j with
  | nil => exact .none
  | blank hempty hmid hends =>
    have hnone : ∀ line, submatch mpatMid 1 (cstr line) = none →
        submatch mpatEnd 1 (cstr line) = none → configAppendLoop valsize [line] k j = none := by
      intro line hmid hends
      rw [configAppendLoop, hmid, hends]
      split_ifs <;> rfl
    rw [hnone _ hmid hends]
    exact .none
  | cons hline hrest ih =>
    rw [configAppendLoop, configAppendLoop, hline.mid, hline.ends]
    split_ifs with hcount hsep
    · exact .none
    · exact .none
    · rcases submatch mpatMid 1 (cstr _) with _ | row
      · rcases submatch mpatEnd 1 (cstr _) with _ | row
        · exact ih _ _
        · dsimp only
          split_ifs
          · exact .none
          · exact Or.inr ⟨_, _, _, rfl, rfl, hrest⟩
      · dsimp only
        split_ifs
        · exact .none
        · exact ih _ _

theorem configSetting_alike (h : FilesAlike fp fp') (buffer : List Char) :
    (configSetting buffer fp = none ∧ configSetting buffer fp' = none) ∨
      ∃ k value rest rest', configSetting buffer fp = some (k, value, rest) ∧
        configSetting buffer fp' = some (k, value, rest') ∧ FilesAlike rest rest' := by
  rw [configSetting, configSetting]
  rcases configPair buffer with _ | ⟨key, value⟩
  · exact Or.inl ⟨rfl, rfl⟩
  · dsimp only
    have hvalue : RestAlike (configValue key value fp) (configValue key value fp') := by
      rw [configValue, configValue]
      split_ifs
      · rw [configAppendMatrixRows, configAppendMatrixRows]
        rcases submatch mpatStart 1 value with _ | row
        · exact .none
        · dsimp only
          split_ifs
          · exact .none
          · exact .none
          · exact configAppendLoop_alike h _ _ _
      · exact Or.inr ⟨value, fp, fp', rfl, rfl, h⟩
    rcases hvalue with ⟨hnone, hnone'⟩ | ⟨value, rest, rest', hsome, hsome', hrest⟩
    · rw [hnone, hnone']
      exact Or.inl ⟨rfl, rfl⟩
    · rw [hsome, hsome']
      dsimp only
      rcases hfind : configMap.find? fun k => k.name = key with _ | k
      · simp only [hfind]
        exact Or.inl ⟨trivial, trivial⟩
      · simp only [hfind]
        exact Or.inr ⟨k, value, rest, rest', rfl, rfl, hrest⟩

theorem configSettingsLoop_nil (n : ℕ) : configSettingsLoop n [] = some [] := by
  cases n <;> rfl

/-- Files that are alike have the same settings, however many lines the loop may still read. -/
theorem configSettingsLoop_alike {n m : ℕ} (h : FilesAlike fp fp') (hn : fp.length ≤ n)
    (hm : fp'.length ≤ m) : configSettingsLoop n fp = configSettingsLoop m fp' := by
  induction n generalizing m fp fp' with
  | zero =>
    obtain rfl := List.eq_nil_of_length_eq_zero (Nat.le_zero.mp hn)
    cases h with
    | nil => rw [configSettingsLoop_nil, configSettingsLoop_nil]
    | blank hempty _ _ =>
      obtain ⟨m, rfl⟩ := Nat.exists_eq_succ_of_ne_zero (Nat.ne_zero_of_lt hm)
      rw [configSettingsLoop_nil, configSettingsLoop, if_pos hempty, configSettingsLoop_nil]
  | succ n ih =>
    cases h with
    | nil => rw [configSettingsLoop_nil, configSettingsLoop_nil]
    | blank hempty _ _ =>
      obtain ⟨m, rfl⟩ := Nat.exists_eq_succ_of_ne_zero (Nat.ne_zero_of_lt hm)
      rw [configSettingsLoop_nil, configSettingsLoop, if_pos hempty, configSettingsLoop_nil]
    | cons hline hrest =>
      rw [List.length_cons] at hn hm
      obtain ⟨m, rfl⟩ := Nat.exists_eq_succ_of_ne_zero (Nat.ne_zero_of_lt hm)
      rw [configSettingsLoop, configSettingsLoop, hline.buffer]
      split_ifs
      · exact ih hrest (Nat.le_of_succ_le_succ hn) (Nat.le_of_succ_le_succ hm)
      · rcases configSetting_alike hrest (configLine _) with
          ⟨hnone, hnone'⟩ | ⟨k, value, rest, rest', hset, hset', hbehind⟩
        · rw [hnone, hnone']
        · have hlen := configSetting_length hset
          have hlen' := configSetting_length hset'
          rw [hset, hset']
          dsimp only
          rw [@ih rest rest' m hbehind (by omega) (by omega)]

end Alike

/-! ## One text behind the other -/

section Append

variable {fp more : List (List Char)} {ss : List Setting}

/-- A matrix that is read has ended. -/
theorem appendOpen_of_some {valsize k : ℕ} {j : Joined} {r : List Char × List (List Char)}
    (h : configAppendLoop valsize fp k j = some r) : appendOpen valsize fp k j = false := by
  induction fp generalizing k j with
  | nil => cases h
  | cons line fp ih =>
    rw [configAppendLoop] at h
    rw [appendOpen]
    split_ifs at h ⊢ with hcount hsep
    rcases hmid : submatch mpatMid 1 (cstr line) with _ | row
    · rw [hmid] at h
      rcases hend : submatch mpatEnd 1 (cstr line) with _ | row
      · rw [hend] at h
        exact ih h
      · rfl
    · rw [hmid] at h
      dsimp only at h ⊢
      split_ifs at h ⊢ with hrow
      exact ih h

theorem settingOpen_of_some {buffer : List Char}
    {r : ConfigKey × List Char × List (List Char)} (h : configSetting buffer fp = some r) :
    settingOpen buffer fp = false := by
  obtain ⟨k, value, rest⟩ := r
  obtain ⟨v, hpair, hvalue⟩ := configSetting_some h
  rw [settingOpen, hpair]
  dsimp only
  rw [configValue] at hvalue
  split_ifs at hvalue ⊢ with hkey
  · rw [configAppendMatrixRows] at hvalue
    rw [matrixOpen]
    rcases hstart : submatch mpatStart 1 v with _ | row
    · rfl
    · rw [hstart] at hvalue
      dsimp only at hvalue ⊢
      split_ifs at hvalue ⊢
      exact appendOpen_of_some hvalue
  · rfl

/-- With enough fuel for the lines, more of it makes no difference. -/
theorem configSettingsLoop_fuel {n m : ℕ} (hn : fp.length ≤ n) (hm : fp.length ≤ m) :
    configSettingsLoop n fp = configSettingsLoop m fp :=
  configSettingsLoop_alike (FilesAlike.refl fp) hn hm

/-- Lines that are read to their end are read the same in front of others. -/
theorem configSettingsLoop_append {n m : ℕ} (hn : fp.length ≤ n)
    (h : configSettingsLoop n fp = some ss) (hm : (fp ++ more).length ≤ m) :
    configSettingsLoop m (fp ++ more) = (configSettingsLoop m more).map (ss ++ ·) := by
  induction n generalizing m fp ss with
  | zero =>
    obtain rfl := List.eq_nil_of_length_eq_zero (Nat.le_zero.mp hn)
    cases h
    exact Option.map_id'.symm
  | succ n ih =>
    cases fp with
    | nil =>
      cases h
      exact Option.map_id'.symm
    | cons line fp =>
      rw [List.length_cons] at hn
      rw [List.cons_append, List.length_cons] at hm
      obtain ⟨m, rfl⟩ := Nat.exists_eq_succ_of_ne_zero (Nat.ne_zero_of_lt hm)
      have hroom : (fp ++ more).length ≤ m := Nat.le_of_succ_le_succ hm
      rw [List.length_append] at hroom
      have hmore : configSettingsLoop m more = configSettingsLoop (m + 1) more :=
        configSettingsLoop_fuel (by omega) (by omega)
      rw [List.cons_append, configSettingsLoop, ← hmore]
      obtain ⟨hempty, hrest⟩ | ⟨hempty, k, value, rest, s, ss, hset, hread, hrest, rfl⟩ :=
        configSettingsLoop_cons_eq_some h
      · rw [if_pos hempty]
        exact ih (Nat.le_of_succ_le_succ hn) hrest (Nat.le_of_succ_le_succ hm)
      · have hlen := configSetting_length hset
        -- the setting is read to its end, so nothing behind the file is seen
        rw [if_neg hempty, configSetting_append (settingOpen_of_some hset), hset]
        simp only [Option.map_some, hread]
        rw [ih (by omega) hrest (by rw [List.length_append]; omega), Option.map_map]
        rfl

end Append

/-- **A text is read the same wherever it stands**: if it is read to its end when it is a file of
its own, its settings come before those of the text behind it. -/
theorem configSettings_append {text : List Char} {ss : List Setting}
    (h : configSettings (some (text ++ ['\n'])) = some ss) (s : List Char) :
    configSettings (some (text ++ '\n' :: s)) = (configSettings (some s)).map (ss ++ ·) := by
  rw [configSettings, Option.bind_some] at h
  have hlines : linesOf configBufferSize (text ++ '\n' :: s) =
      linesOf configBufferSize (text ++ ['\n']) ++ linesOf configBufferSize s :=
    @linesOf_append (configBufferSize - 1) (by decide) text s
  rw [configSettings, configSettings, Option.bind_some, Option.bind_some, hlines,
    configSettingsLoop_append (le_refl _) h (le_refl _)]
  congr 1
  exact configSettingsLoop_fuel (by rw [List.length_append]; omega) (le_refl _)

/-! ## The end of the file -/

/-- A newline at the end does not change what a line ends in. -/
theorem EndsIn.newline {w s : List Char} (hw : EndsSolid w) :
    EndsIn w (s ++ ['\n']) ↔ EndsIn w s := by
  refine ⟨?_, ?_⟩
  · rintro ⟨pre, suf, heq, hsuf⟩
    obtain ⟨u, x, rfl, hx⟩ := hw
    rcases List.eq_nil_or_concat' suf with rfl | ⟨suf, y, rfl⟩
    · rw [List.append_nil, ← List.append_assoc] at heq
      obtain rfl := List.singleton_inj.mp (List.append_inj_right' heq rfl)
      cases hx
    · rw [← List.append_assoc] at heq
      exact ⟨pre, suf, List.append_inj_left' heq rfl, fun c hc => hsuf c (by simp [hc])⟩
  · rintro ⟨pre, suf, rfl, hsuf⟩
    refine ⟨pre, suf ++ ['\n'], by simp, ?_⟩
    intro c hc
    obtain hc | hc := List.mem_append.mp hc
    · exact hsuf c hc
    · rw [List.mem_singleton.mp hc]
      decide

/-- A line pattern does not look at the newline. -/
theorem submatch_newline {o c : List Char} (hc : ∀ x ∈ c, isSpace x = false) (s : List Char) :
    submatch (linePattern o c) 1 (s ++ ['\n']) = submatch (linePattern o c) 1 s := by
  refine Option.ext fun row => ?_
  rw [submatch_linePattern hc, submatch_linePattern hc]
  refine exists_congr fun w => and_congr_right ?_
  rintro rfl
  exact EndsIn.newline (endsSolid_row o hc w)

/-- Neither does the parser. -/
theorem alike_newline (line : List Char) : Alike line (line ++ ['\n']) := by
  have hcut : cstr (line ++ ['\n']) = cstr line ∨ cstr (line ++ ['\n']) = cstr line ++ ['\n'] := by
    rw [cstr, cstr, List.takeWhile_append]
    split_ifs with hall
    · rw [(List.takeWhile_prefix _).eq_of_length hall]
      exact Or.inr rfl
    · exact Or.inl rfl
  obtain heq | heq := hcut
  · exact ⟨by rw [configLine, heq, configLine], by rw [heq], by rw [heq]⟩
  · refine ⟨?_, ?_, ?_⟩
    · rw [configLine, configLine, heq, configReplaceChar, configReplaceChar, List.takeWhile_append]
      split_ifs with hall
      · rw [List.takeWhile_cons_of_neg (by decide), List.append_nil,
          (List.takeWhile_prefix _).eq_of_length hall]
      · rfl
    · rw [heq]
      exact @submatch_newline [] [] (by simp) (cstr line)
    · rw [heq]
      exact @submatch_newline [] [')'] (by simp [isSpace]) (cstr line)

/-- Whether the last line ends in a newline makes no difference. -/
theorem configSettings_newline (text : List Char) :
    configSettings (some (text ++ ['\n'])) = configSettings (some text) := by
  have hroom : 0 < configBufferSize - 1 := by decide
  obtain ⟨hrest, hlen⟩ := pieces_rest hroom text
  have hlines : ∀ s, linesOf configBufferSize (text ++ s) =
      (pieces (configBufferSize - 1) text).1 ++
      linesOf configBufferSize ((pieces (configBufferSize - 1) text).2 ++ s) :=
    linesOf_pieces hroom text
  have halike : FilesAlike (linesOf configBufferSize (pieces (configBufferSize - 1) text).2)
      (linesOf configBufferSize ((pieces (configBufferSize - 1) text).2 ++ ['\n'])) := by
    rcases hpiece : (pieces (configBufferSize - 1) text).2 with _ | ⟨c, rest⟩
    · refine .blank (by decide) ?_ ?_
      · exact @submatch_newline [] [] (by simp) []
      · exact @submatch_newline [] [')'] (by simp [isSpace]) []
    · rw [hpiece] at hrest hlen
      rw [linesOf_last (List.cons_ne_nil c rest) hrest (by omega) (by decide),
        @linesOf_line configBufferSize _ [] hrest (by omega)]
      exact .cons (alike_newline _) .nil
  rw [configSettings, configSettings, Option.bind_some, Option.bind_some]
  refine (configSettingsLoop_alike ?_ (le_refl _) (le_refl _)).symm
  have hwhole := hlines []
  rw [List.append_nil, List.append_nil] at hwhole
  rw [hwhole, hlines]
  exact halike.append _

/-! ## Blocks -/

/-- A blank line, or a line with a comment, without its newline. -/
structure Filler where
  space : List Char
  comment : List Char
  blank : ∀ c ∈ space, c = ' ' ∨ c = '\t' ∨ c = '\r' ∨ c = '\x0c'
  hash : comment = [] ∨ ∃ tail, comment = '#' :: tail
  one_line : '\n' ∉ comment
  short : (space ++ comment).length < configBufferSize

/-- The lines of a setting behind its first one: none, or the rows of a matrix, one on a line, of
which the last closes it. -/
inductive RowLines : ConfigKey → List (List Char) → Prop
  | none {k : ConfigKey} (hk : k ≠ .matrix) : RowLines k []
  | rows {rows : List (List Char)} {last : List Char} {w : RowText}
      (hrows : ∀ line ∈ rows, ∃ w, LineHas line (some w)) (hlast : LineCloses last w) :
      RowLines .matrix (rows ++ [last])

/-- The lines of a setting that its handler accepts. Lines are those of `fgets`, and the first one
has the key, so what stands behind more than 254 blanks is no block. -/
structure SettingBlock where
  /-- the lines, without the newline of the last one -/
  text : List Char
  key : ConfigKey
  /-- the line with the key -/
  line : List Char
  /-- the rows of a matrix -/
  rows : List (List Char)
  /-- white space that had no room in the buffer -/
  blank : List (List Char)
  /-- the value on the line with the key -/
  written : List Char
  /-- the value for the handler -/
  value : List Char
  lines : linesOf configBufferSize (text ++ ['\n']) = line :: (rows ++ blank)
  layout : RowLines key rows
  empty : ∀ line ∈ blank, configLineEmpty (configLine line) = true
  pair : configPair (configLine line) = some (key.name, written)
  joined : (configValue key.name written rows).map Prod.fst = some value
  accepted : (key.handler .zero value).1 = 0

/-- A part of a file. -/
inductive FilePart where
  | filler (f : Filler)
  | block (b : SettingBlock)

/-- The part as it is written, without the newline of its last line. -/
def FilePart.text : FilePart → List Char
  | filler f => f.space ++ f.comment
  | block b => b.text

/-- A file of such parts, with or without a newline at its end. -/
def fileText : List FilePart → Bool → List Char
  | [], _ => []
  | [part], false => part.text
  | part :: parts, newline => part.text ++ '\n' :: fileText parts newline

/-- The settings in it. -/
def settingBlocks (parts : List FilePart) : List SettingBlock :=
  parts.filterMap fun
    | .filler _ => none
    | .block b => some b

/-- Blank lines have no settings. -/
theorem configSettingsLoop_empty {n : ℕ} {fp : List (List Char)}
    (hfp : ∀ line ∈ fp, configLineEmpty (configLine line) = true) :
    configSettingsLoop n fp = some [] := by
  induction n generalizing fp with
  | zero => rfl
  | succ n ih =>
    cases fp with
    | nil => rfl
    | cons line fp =>
      rw [configSettingsLoop, if_pos (hfp line (List.mem_cons_self ..))]
      exact ih fun l hl => hfp l (List.mem_cons_of_mem line hl)

/-- The parser passes over a filler. -/
theorem Filler.settings (f : Filler) : configSettings (some (f.space ++ f.comment)) = some [] := by
  rcases htext : f.space ++ f.comment with _ | ⟨c, text⟩
  · rfl
  · have hspace : '\n' ∉ f.space := by
      intro h
      have := f.blank '\n' h
      simp at this
    have hnewline : '\n' ∉ c :: text := by
      rw [← htext, List.mem_append, not_or]
      exact ⟨hspace, f.one_line⟩
    have hshort := f.short
    rw [htext] at hshort
    -- the line is cut off at the hash
    have hcut : ∀ p : Char → Bool, p '#' = false → ∀ d ∈ (c :: text).takeWhile p, d ∈ f.space := by
      intro p hp d hd
      rw [← htext, List.takeWhile_append] at hd
      split_ifs at hd with hall
      · obtain hd | hd := List.mem_append.mp hd
        · exact hd
        · obtain hhash | ⟨tail, hhash⟩ := f.hash
          · rw [hhash] at hd
            cases hd
          · rw [hhash, List.takeWhile_cons_of_neg (by simp [hp])] at hd
            cases hd
      · exact (List.takeWhile_prefix p).subset hd
    have hempty : configLineEmpty (configLine (c :: text)) = true := by
      refine List.all_eq_true.mpr fun d hd => ?_
      simp only [configLine, configStripComments, configReplaceChar, cstr,
        List.takeWhile_takeWhile] at hd
      obtain rfl | rfl | rfl | rfl := f.blank d (hcut _ (by decide) d hd)
      · decide
      · decide
      · decide
      · decide
    rw [configSettings, Option.bind_some,
      linesOf_last (List.cons_ne_nil c text) hnewline hshort (by decide)]
    exact configSettingsLoop_empty (by simpa using hempty)

namespace SettingBlock

variable (b : SettingBlock)

/-- The handler makes a setting of the value. -/
theorem read_isSome : (b.key.read b.value).isSome = true := by
  rcases hread : b.key.read b.value with _ | s
  · exact absurd b.accepted (ConfigKey.handler_none hread _)
  · rfl

/-- The setting. -/
def setting : Setting := (b.key.read b.value).get b.read_isSome

theorem read_eq : b.key.read b.value = some b.setting := (Option.some_get _).symm

/-- The setting of a block is one of its key. -/
theorem setting_key : b.setting.key = b.key := ConfigKey.read_key b.read_eq

/-- The parser takes the rows of the block, and leaves nothing of them. -/
theorem configValue_rows : configValue b.key.name b.written b.rows = some (b.value, []) := by
  obtain ⟨⟨value, rest⟩, hvalue, heq⟩ := Option.map_eq_some_iff.mp b.joined
  obtain rfl : value = b.value := heq
  rw [hvalue]
  suffices hrest : rest = [] by rw [hrest]
  have hlayout := b.layout
  rw [configValue] at hvalue
  generalize b.rows = lines at hlayout hvalue
  generalize b.key = k at hlayout hvalue
  cases hlayout with
  | none hk =>
    rw [if_neg (mt ConfigKey.name_eq_matrix.mp hk)] at hvalue
    exact (congrArg Prod.snd (Option.some.inj hvalue)).symm
  | @rows rows last w hrows hlast =>
    rw [if_pos rfl] at hvalue
    obtain ⟨-, lines, -, line, v, -, hlines, -, hcloses, -⟩ := configAppendMatrixRows_lines hvalue
    rcases List.eq_nil_or_concat' rest with rfl | ⟨rest, x, rfl⟩
    · rfl
    · -- the line that closes the matrix would be one of the rows before the last
      rw [← List.cons_append, ← List.append_assoc] at hlines
      have hmem : line ∈ rows := by
        rw [List.append_inj_left' hlines rfl]
        simp
      obtain ⟨u, hu⟩ := hrows line hmem
      have hends := hcloses.submatch_end
      rw [hu.not_closes] at hends
      cases hends

/-- The parser reads a block as its key and value, whatever follows. -/
theorem configSetting_line (more : List (List Char)) :
    configSetting (configLine b.line) (b.rows ++ more) = some (b.key, b.value, more) := by
  have hset : configSetting (configLine b.line) b.rows = some (b.key, b.value, []) := by
    have hfind : configMap.find? (fun k => k.name = b.key.name) = some b.key := by
      cases b.key with
      | interval | hysteresis | matrix | throttle => rfl
    simp only [configSetting, b.pair, b.configValue_rows, hfind]
  rw [configSetting_append (settingOpen_of_some hset), hset]
  rfl

/-- **A block is one setting** when it is a file of its own. -/
theorem settings : configSettings (some (b.text ++ ['\n'])) = some [b.setting] := by
  have hnonempty : ¬ configLineEmpty (configLine b.line) = true := by
    intro hempty
    have hequals := List.all_eq_true.mp hempty '=' (equals_mem_of_configPair b.pair)
    exact absurd hequals (by decide)
  rw [configSettings, Option.bind_some, b.lines, List.length_cons, configSettingsLoop,
    if_neg hnonempty, b.configSetting_line]
  simp only [b.read_eq, configSettingsLoop_empty b.empty, Option.map_some]

end SettingBlock

/-- Every setting on one line is a block, -/
theorem SettingBlock.exists_line {k : ConfigKey} {line value : List Char} (hk : k ≠ .matrix)
    (hnewline : '\n' ∉ line) (hlen : line.length + 2 ≤ configBufferSize)
    (hpair : configPair (configLine line) = some (k.name, value))
    (haccepted : (k.handler .zero value).1 = 0) :
    ∃ b : SettingBlock, b.text = line ∧ b.key = k := by
  refine ⟨⟨line, k, line ++ ['\n'], [], [], value, value, linesOf_line hnewline hlen, .none hk,
    ?_, ?_, ?_, haccepted⟩, rfl, rfl⟩
  · simp
  · rw [(alike_newline line).buffer, hpair]
  · rw [configValue, if_neg (mt ConfigKey.name_eq_matrix.mp hk)]
    rfl

/-- and so is every matrix of two to fifteen rows in the documented layout. -/
theorem SettingBlock.exists_printMatrix {first last : ℕ × ℕ} {rows : List (ℕ × ℕ)}
    (hrows : ∀ row ∈ first :: (rows ++ [last]), row.1 ≤ 255 ∧ row.2 ≤ 100)
    (hmax : (first :: (rows ++ [last])).length < maxTempThresholds) :
    ∃ b : SettingBlock, b.text = printMatrix (first :: (rows ++ [last])) false ∧
      b.key = .matrix := by
  have hfirst := hrows first (by simp)
  have hmid : ∀ row ∈ rows, row.1 ≤ 255 ∧ row.2 ≤ 100 := fun row hrow => hrows row (by simp [hrow])
  have hlast := hrows last (by simp)
  have hcount : rows.length + 1 < maxTempThresholds :=
    Nat.lt_of_succ_le (le_of_lt (by simpa using hmax))
  obtain ⟨line, hclose, hlines⟩ := linesOf_printMatrix true hfirst hmid hlast
  have happend := configAppendMatrixRows_print hfirst hmid hlast hcount hclose
  have hjoined : (configValue ConfigKey.matrix.name ('(' :: (printRow first).text)
      (rows.map (fun row => (printRow row).text ++ ['\n']) ++ [line])).map Prod.fst =
        some (joinedText (printRow first) (rows.map fun row => some (printRow row))
          (printRow last)) := by
    rw [configValue, if_pos rfl, happend, Option.map_some]
  -- every line has its row, and the last closes the matrix
  have hlayout :
      RowLines .matrix (rows.map (fun row => (printRow row).text ++ ['\n']) ++ [line]) := by
    refine .rows ?_ hclose
    intro line hline
    obtain ⟨row, -, rfl⟩ := List.mem_map.mp hline
    exact ⟨_, printRow_line row⟩
  have hpair : configPair (configLine (printHeader first ++ ['\n'])) =
      some (ConfigKey.matrix.name, '(' :: (printRow first).text) := by
    rw [configLine_printHeader, configPair_printHeader hfirst]
  obtain ⟨rs, -, hread⟩ := read_printed hrows hmax.le
  rw [if_neg hmax.ne] at hread
  refine ⟨{
    text := printMatrix (first :: (rows ++ [last])) false
    key := .matrix
    line := printHeader first ++ ['\n']
    rows := rows.map (fun row => (printRow row).text ++ ['\n']) ++ [line]
    blank := []
    written := '(' :: (printRow first).text
    value := joinedText (printRow first) (rows.map fun row => some (printRow row)) (printRow last)
    lines := ?_
    layout := hlayout
    empty := by simp
    pair := hpair
    joined := hjoined
    accepted := ?_ }, rfl, rfl⟩
  · rw [List.append_nil, ← hlines, printMatrix, printMatrix]
    simp
  · rw [ConfigKey.handler_some hread]

/-! ## Files -/

/-- The settings of one part of a file -/
theorem FilePart.settings (part : FilePart) :
    configSettings (some (part.text ++ ['\n'])) =
      some ((settingBlocks [part]).map SettingBlock.setting) := by
  cases part with
  | filler f => exact (configSettings_newline _).trans f.settings
  | block b => exact b.settings

/-- The settings of a file are those of its blocks, in order. -/
theorem configSettings_fileText (parts : List FilePart) (newline : Bool) :
    configSettings (some (fileText parts newline)) =
      some ((settingBlocks parts).map SettingBlock.setting) := by
  induction parts with
  | nil => cases newline <;> rfl
  | cons part parts ih =>
    have hcons : settingBlocks (part :: parts) = settingBlocks [part] ++ settingBlocks parts := by
      cases part with
      | filler f => rfl
      | block b => rfl
    have happend : configSettings (some (part.text ++ '\n' :: fileText parts newline)) =
        some ((settingBlocks (part :: parts)).map SettingBlock.setting) := by
      rw [configSettings_append part.settings, ih, hcons, List.map_append]
      rfl
    cases parts with
    | nil =>
      cases newline with
      | true => exact happend
      | false => exact (configSettings_newline _).symm.trans part.settings
    | cons next parts => exact happend

/-! ## The order -/

/-- What does not touch the rows can be done before or after they are stored. -/
theorem FandConfig.setRows_comm {f : FandConfig → FandConfig}
    (hf : ∀ data i row, (f data).setRow i row = f (data.setRow i row)) (data : FandConfig) (i : ℕ)
    (rows : List (UInt8 × UInt8)) : (f data).setRows i rows = f (data.setRows i rows) := by
  induction rows generalizing data i with
  | nil => rfl
  | cons row rows ih => rw [setRows, setRows, hf, ih]

/-- Settings with different keys are stored in different fields. -/
theorem Setting.apply_comm {s t : Setting} (h : s.key ≠ t.key) (data : FandConfig) :
    t.apply (s.apply data) = s.apply (t.apply data) := by
  have hmatrix : ∀ {u : Setting} rows, u.key ≠ .matrix → ∀ data,
      (Setting.matrix rows).apply (u.apply data) = u.apply ((Setting.matrix rows).apply data) := by
    intro u rows hu data
    have hrows := FandConfig.setRows_comm (f := u.apply) (by
      intro data i row
      cases u with
      | interval x | hysteresis x | throttle b => rfl
      | matrix rows => exact absurd rfl hu) data 0 rows
    cases u with
    | interval x | hysteresis x | throttle b => simp only [Setting.apply] at hrows ⊢; rw [hrows]
    | matrix rows => exact absurd rfl hu
  cases s with
  | matrix rows => exact (hmatrix rows (Ne.symm h) data).symm
  | interval x =>
    cases t with
    | interval y => exact absurd rfl h
    | matrix rows => exact hmatrix rows h data
    | hysteresis y | throttle c => rfl
  | hysteresis x =>
    cases t with
    | hysteresis y => exact absurd rfl h
    | matrix rows => exact hmatrix rows h data
    | interval y | throttle c => rfl
  | throttle b =>
    cases t with
    | throttle c => exact absurd rfl h
    | matrix rows => exact hmatrix rows h data
    | interval y | hysteresis y => rfl

/-- Blocks with different keys are stored the same in any order. -/
theorem foldl_settings_perm {bs bs' : List SettingBlock} (hperm : bs.Perm bs')
    (hkeys : (bs.map SettingBlock.key).Nodup) (data : FandConfig) :
    (bs'.map SettingBlock.setting).foldl Setting.apply data =
      (bs.map SettingBlock.setting).foldl Setting.apply data := by
  refine ((hperm.map _).foldl_eq' ?_ data).symm
  intro s hs t ht z
  obtain ⟨b, hb, rfl⟩ := List.mem_map.mp hs
  obtain ⟨c, hc, rfl⟩ := List.mem_map.mp ht
  by_cases hkey : b.key = c.key
  · rw [List.inj_on_of_nodup_map hkeys hb hc hkey]
  · refine Setting.apply_comm ?_ z
    rwa [b.setting_key, c.setting_key]

/-- **The order of the settings does not matter**: files that have the same blocks in any order,
with different keys and any blank lines and comments between them, are parsed with the same
result. -/
theorem configParse_order {parts parts' : List FilePart}
    (hperm : (settingBlocks parts).Perm (settingBlocks parts'))
    (hkeys : ((settingBlocks parts).map SettingBlock.key).Nodup) (newline newline' : Bool)
    (data : FandConfig) :
    configParse (some (fileText parts' newline')) data =
      configParse (some (fileText parts newline)) data := by
  rw [configParse_some (configSettings_fileText parts' newline'),
    configParse_some (configSettings_fileText parts newline), foldl_settings_perm hperm hkeys]

/-- A block with an interval. -/
def intervalBlock : SettingBlock where
  text := "interval = 5  # seconds".toList
  key := .interval
  line := "interval = 5  # seconds\n".toList
  rows := []
  blank := []
  written := ['5']
  value := ['5']
  lines := by decide +kernel
  layout := .none (by decide)
  empty := by simp
  pair := by decide +kernel
  joined := rfl
  accepted := by decide +kernel

/-- A block with a matrix. -/
def matrixBlock : SettingBlock where
  text := "matrix=('50::20'\n'60::40'\n'80::100')".toList
  key := .matrix
  line := "matrix=('50::20'\n".toList
  rows := ["'60::40'\n".toList] ++ ["'80::100')\n".toList]
  blank := []
  written := "('50::20'".toList
  value := "('50::20';'60::40';'80::100')".toList
  lines := by decide +kernel
  layout := by
    refine .rows (w := printRow (80, 100)) ?_ (printRow_closes (Or.inr rfl))
    intro line hline
    rw [List.mem_singleton.mp hline]
    exact ⟨_, printRow_line (60, 40)⟩
  empty := by simp
  pair := by decide +kernel
  joined := by decide +kernel
  accepted := by decide +kernel

/-- A comment that looks like the end of a matrix. -/
def commentLine : Filler where
  space := [' ']
  comment := "# '90::100')".toList
  blank := by simp
  hash := Or.inr ⟨_, rfl⟩
  one_line := by decide
  short := by decide

/-- A setting, a matrix and a comment in two orders -/
theorem configParse_order_swapped :
    ([intervalBlock, matrixBlock].map SettingBlock.key).Nodup ∧
      configParse (some (fileText
          [.block matrixBlock, .filler commentLine, .block intervalBlock] false)) .zero =
        configParse (some (fileText
          [.filler commentLine, .block intervalBlock, .block matrixBlock] true)) .zero ∧
      (configParse (some (fileText
        [.filler commentLine, .block intervalBlock, .block matrixBlock] true)) .zero).1 = 0 := by
  have hkeys : ([intervalBlock, matrixBlock].map SettingBlock.key).Nodup := by decide
  have horder := @configParse_order
    [.filler commentLine, .block intervalBlock, .block matrixBlock]
    [.block matrixBlock, .filler commentLine, .block intervalBlock]
    (List.Perm.swap _ _ _) hkeys true false .zero
  exact ⟨hkeys, horder, by decide +kernel⟩

end AmdgpuFand

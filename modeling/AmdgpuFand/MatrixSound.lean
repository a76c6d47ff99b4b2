import AmdgpuFand.MatrixText

/-!
# What is written in a matrix and what is stored

The rows that are written in a matrix block are the literals on its lines, in front of any
comment. The parser looks at the lines in another way: it takes the row that a line ends
in, comment or not, and where a line ends in none, `config_append_matrix_rows` leaves an
empty segment that `config_set_matrix` fills with the row of the next line.

So the stored rows are the written ones if every line of the block is a row and nothing
else, and only then, unless two wrongs happen to make a right: see
`configParse_matrix_sound`.
-/

namespace AmdgpuFand

open CLib Ere

/-! ## Literals -/

/-- The numbers of the literal that the text begins with. -/
def literalAt : List Char → Option (ℕ × ℕ)
  | '\x27' :: s =>
    match s.dropWhile Char.isDigit with
    | ':' :: ':' :: r =>
      match r.dropWhile Char.isDigit with
      | '\x27' :: _ =>
        if s.takeWhile Char.isDigit = [] ∨ r.takeWhile Char.isDigit = [] then none
        else some (Nat.ofDigitChars 10 (s.takeWhile Char.isDigit) 0,
          Nat.ofDigitChars 10 (r.takeWhile Char.isDigit) 0)
      | _ => none
    | _ => none
  | _ => none

/-- The literals in a text, from left to right. -/
def literals : List Char → List (ℕ × ℕ)
  | [] => []
  | c :: s => (literalAt (c :: s)).toList ++ literals s

theorem literals_skip {u r : List Char} (hu : '\x27' ∉ u) : literals (u ++ r) = literals r := by
  induction u with
  | nil => rfl
  | cons c u ih =>
    rw [List.mem_cons, not_or] at hu
    have hnone : literalAt (c :: (u ++ r)) = none := by
      unfold literalAt
      split
      · next heq =>
        obtain ⟨rfl, -⟩ := List.cons.inj heq
        exact absurd rfl hu.1
      · rfl
    rw [List.cons_append, literals, hnone, ih hu.2]
    rfl

theorem takeWhile_numeral {a r : List Char} {x : Char} (ha : ∀ c ∈ a, c.isDigit = true)
    (hx : x.isDigit = false) :
    (a ++ x :: r).takeWhile Char.isDigit = a ∧ (a ++ x :: r).dropWhile Char.isDigit = x :: r := by
  rw [List.takeWhile_append_of_pos ha, List.dropWhile_append_of_pos ha,
    List.takeWhile_cons_of_neg (by simp [hx]), List.dropWhile_cons_of_neg (by simp [hx]),
    List.append_nil]
  exact ⟨rfl, rfl⟩

theorem literalAt_text (w : RowText) (r : List Char) :
    literalAt (w.text ++ r) = some w.value := by
  obtain ⟨htake, hdrop⟩ := takeWhile_numeral (r := ':' :: (w.speed ++ '\x27' :: r))
    w.temp_numeral.2 (by decide : (':' : Char).isDigit = false)
  obtain ⟨htake', hdrop'⟩ := takeWhile_numeral (r := r) w.speed_numeral.2
    (by decide : ('\x27' : Char).isDigit = false)
  rw [RowText.text_append]
  simp only [literalAt, hdrop, hdrop', htake, htake', w.temp_numeral.1, w.speed_numeral.1,
    or_self, if_false, RowText.value]

/-- A row is one literal. -/
theorem literals_text (w : RowText) (r : List Char) :
    literals (w.text ++ r) = w.value :: literals ('\x27' :: r) := by
  have hquote : ∀ {a : List Char}, IsNumeral a → '\x27' ∉ a :=
    fun ha hmem => absurd (ha.2 '\x27' hmem) (by decide)
  have hinner : literals (w.temp ++ ':' :: ':' :: (w.speed ++ '\x27' :: r)) =
      literals ('\x27' :: r) := by
    have hsplit : w.temp ++ ':' :: ':' :: (w.speed ++ '\x27' :: r) =
        (w.temp ++ ':' :: ':' :: w.speed) ++ '\x27' :: r := by simp
    rw [hsplit, literals_skip (by simp [hquote w.temp_numeral, hquote w.speed_numeral])]
  have hat := literalAt_text w r
  rw [RowText.text_append] at hat ⊢
  rw [literals, hat, hinner]
  rfl

/-! ## Blocks -/

/-- A matrix in a file: the line with the key, and the lines up to the one that closes
it. A line is what one `fgets` reads, so of a longer one every 255 characters are a line. -/
structure MatrixBlock where
  header : List Char
  lines : List (List Char)
  deriving DecidableEq

/-- The lines up to the one that closes the matrix, and those behind it. -/
def spanBlock : List (List Char) → List (List Char) × List (List Char)
  | [] => ([], [])
  | line :: fp =>
    if (submatch mpatEnd 1 (cstr line)).isSome then ([line], fp)
    else (line :: (spanBlock fp).1, (spanBlock fp).2)

/-- The matrix blocks on the lines. -/
def matrixBlocksLoop : ℕ → List (List Char) → List MatrixBlock
  | 0, _ => []
  | _ + 1, [] => []
  | n + 1, line :: fp =>
    if configLineEmpty (configLine line) then matrixBlocksLoop n fp
    else
      match configPair (configLine line) with
      | none => matrixBlocksLoop n fp
      | some (key, _) =>
        if key = ConfigKey.matrix.name then
          ⟨line, (spanBlock fp).1⟩ :: matrixBlocksLoop n (spanBlock fp).2
        else matrixBlocksLoop n fp

/-- The matrix blocks of a file. -/
def matrixBlocks (text : List Char) : List MatrixBlock :=
  matrixBlocksLoop (linesOf configBufferSize text).length (linesOf configBufferSize text)

/-- The rows written on a line, in front of any comment. -/
def writtenRows (line : List Char) : List (ℕ × ℕ) := literals (configLine line)

/-- The text that the parser takes off a line of the block. -/
def takenText (line : List Char) : List Char :=
  match submatch mpatMid 1 (cstr line) with
  | some row => row
  | none =>
    match submatch mpatEnd 1 (cstr line) with
    | some row => row
    | none => []

namespace MatrixBlock

/-- The rows written in a block. -/
def written (block : MatrixBlock) : List (ℕ × ℕ) :=
  writtenRows block.header ++ block.lines.flatMap writtenRows

/-- The text that the parser takes off the first line. -/
def headerText (block : MatrixBlock) : List Char :=
  match configPair (configLine block.header) with
  | none => []
  | some (_, value) =>
    match submatch mpatStart 1 value with
    | none => []
    | some row => row

/-- What is joined of a block. -/
def joined (block : MatrixBlock) : List Char :=
  block.headerText ++ block.lines.flatMap fun line => ';' :: takenText line

/-- The joined text fits the buffer. -/
def Fits (block : MatrixBlock) : Prop := block.joined.length < configBufferSize

/-- Every line has one row in front of any comment, and it is the one that the parser takes. What
is compared are the values: a comment that ends in the same row once more does no harm. -/
structure RowOnEveryLine (block : MatrixBlock) : Prop where
  header : ∃ row, writtenRows block.header = [row] ∧ literals block.headerText = [row]
  lines : ∀ line ∈ block.lines,
    ∃ row, writtenRows line = [row] ∧ literals (takenText line) = [row]

/-- No line has more than one row. -/
structure AtMostOneRow (block : MatrixBlock) : Prop where
  header : (writtenRows block.header).length ≤ 1
  lines : ∀ line ∈ block.lines, (writtenRows line).length ≤ 1

end MatrixBlock

/-! ## The lines of a block -/

theorem takenText_has {line : List Char} {o : Option RowText} (h : LineHas line o) :
    takenText line = (o.map RowText.text).getD [] ∧
      literals (takenText line) = (o.map RowText.value).toList := by
  cases o with
  | none =>
    have htaken : takenText line = [] := by simp only [takenText, h.1, h.2]
    rw [htaken]
    exact ⟨rfl, rfl⟩
  | some w =>
    have htaken : takenText line = w.text := by simp only [takenText, h.submatch_mid]
    have hliterals := literals_text w []
    rw [List.append_nil] at hliterals
    rw [htaken, hliterals]
    exact ⟨rfl, rfl⟩

theorem takenText_closes {line : List Char} {w : RowText} (h : LineCloses line w) :
    takenText line = w.text ++ [')'] ∧ literals (takenText line) = [w.value] := by
  have htaken : takenText line = w.text ++ [')'] := by
    simp only [takenText, h.submatch_mid, h.submatch_end]
  rw [htaken, literals_text]
  exact ⟨rfl, rfl⟩

theorem LineHas.not_closes {line : List Char} {o : Option RowText} (h : LineHas line o) :
    submatch mpatEnd 1 (cstr line) = none := by
  cases o with
  | none => exact h.2
  | some w =>
    rcases hend : submatch mpatEnd 1 (cstr line) with _ | row
    · rfl
    · obtain ⟨v, rfl, hv⟩ := submatch_end.mp hend
      have hmid := h.submatch_mid
      rw [LineCloses.submatch_mid hv] at hmid
      cases hmid

theorem spanBlock_lines {lines : List (List Char)} {segments : List (Option RowText)}
    (hlines : List.Forall₂ LineHas lines segments) {line : List Char} {last : RowText}
    (hlast : LineCloses line last) (rest : List (List Char)) :
    spanBlock (lines ++ line :: rest) = (lines ++ [line], rest) := by
  induction hlines with
  | nil => simp [spanBlock, hlast.submatch_end]
  | cons hline _ ih => simp [spanBlock, hline.not_closes, ih]

/-- The text joined of a block. -/
theorem flatMap_takenText {lines : List (List Char)} {segments : List (Option RowText)}
    (hlines : List.Forall₂ LineHas lines segments) {line : List Char} {last : RowText}
    (hlast : LineCloses line last) :
    (lines ++ [line]).flatMap (fun line => ';' :: takenText line) = segmentsText segments last := by
  induction hlines with
  | nil => simp [segmentsText, (takenText_closes hlast).1]
  | @cons line' o lines segments hline _ ih =>
    rw [List.cons_append, List.flatMap_cons, ih, (takenText_has hline).1]
    cases o with
    | none => rfl
    | some w => simp [segmentsText]

/-! ## Blocks and settings -/

/-- The parser makes a setting of a block. -/
def BlockReads (block : MatrixBlock) (s : Setting) : Prop :=
  ∃ value text rest, configPair (configLine block.header) = some (ConfigKey.matrix.name, value) ∧
    configAppendMatrixRows value configBufferSize (block.lines ++ rest) = some (text, rest) ∧
    ConfigKey.matrix.read text = some s

theorem configSetting_some {buffer value : List Char} {fp rest : List (List Char)} {k : ConfigKey}
    (h : configSetting buffer fp = some (k, value, rest)) :
    ∃ v, configPair buffer = some (k.name, v) ∧ configValue k.name v fp = some (value, rest) := by
  simp only [configSetting] at h
  rcases hpair : configPair buffer with _ | ⟨key, v⟩
  · rw [hpair] at h
    cases h
  · rw [hpair] at h
    dsimp only at h
    rcases hvalue : configValue key v fp with _ | ⟨value', rest'⟩
    · rw [hvalue] at h
      cases h
    · rw [hvalue] at h
      dsimp only at h
      rcases hfind : configMap.find? (fun k => k.name = key) with _ | k'
      · rw [hfind] at h
        cases h
      · rw [hfind] at h
        cases h
        obtain rfl : k.name = key := by simpa using List.find?_some hfind
        exact ⟨v, rfl, hvalue⟩

theorem ConfigKey.name_eq_matrix {k : ConfigKey} :
    k.name = ConfigKey.matrix.name ↔ k = .matrix := by
  cases k with
  | matrix => simp
  | interval | hysteresis | throttle => decide

/-- The matrix settings of a file are its blocks. -/
theorem matrixBlocksLoop_settings {n : ℕ} {fp : List (List Char)} {ss : List Setting}
    (h : configSettingsLoop n fp = some ss) :
    List.Forall₂ BlockReads (matrixBlocksLoop n fp) (ss.filter fun s => s.key = .matrix) := by
  induction n generalizing fp ss with
  | zero =>
    cases h
    exact .nil
  | succ n ih =>
    cases fp with
    | nil =>
      cases h
      exact .nil
    | cons line fp =>
      simp only [matrixBlocksLoop]
      obtain ⟨hempty, hrest⟩ | ⟨hempty, k, value, rest, s, ss, hset, hread, hss, rfl⟩ :=
        configSettingsLoop_cons_eq_some h
      · rw [if_pos hempty]
        exact ih hrest
      · rw [if_neg hempty]
        obtain ⟨v, hpair, hvalue⟩ := configSetting_some hset
        have hkey := ConfigKey.read_key hread
        simp only [hpair]
        -- a matrix takes its block, any other setting its line
        by_cases hmatrix : k = .matrix
        · subst hmatrix
          rw [configValue, if_pos rfl] at hvalue
          obtain ⟨first, lines, segments, last', last, -, rfl, hlines, hlast, -⟩ :=
            configAppendMatrixRows_lines hvalue
          have hspan := spanBlock_lines hlines hlast rest
          rw [if_pos rfl, hspan, List.filter_cons_of_pos (by simpa using hkey)]
          refine .cons ⟨v, value, rest, hpair, ?_, hread⟩ (ih hss)
          simpa using hvalue
        · have hname : k.name ≠ ConfigKey.matrix.name := fun h =>
            hmatrix (ConfigKey.name_eq_matrix.mp h)
          rw [configValue, if_neg hname] at hvalue
          cases hvalue
          rw [if_neg hname, List.filter_cons_of_neg (by simpa [hkey] using hmatrix)]
          exact ih hss

theorem Setting.rowList_apply {s : Setting} {data : FandConfig} (h : s.key ≠ .matrix) :
    (s.apply data).rowList = data.rowList := by
  cases s with
  | interval x | hysteresis x | throttle x => rfl
  | matrix rows => exact absurd rfl h

theorem foldl_rowList {ss : List Setting} {data : FandConfig}
    (h : ∀ s ∈ ss, s.key ≠ .matrix) : (ss.foldl Setting.apply data).rowList = data.rowList := by
  induction ss generalizing data with
  | nil => rfl
  | cons s ss ih =>
    rw [List.foldl_cons, ih fun t ht => h t (List.mem_cons_of_mem s ht),
      Setting.rowList_apply (h s (List.mem_cons_self ..))]

/-- With one matrix among the settings, its rows are the ones stored. -/
theorem foldl_rowList_matrix {ss : List Setting} {data : FandConfig}
    {rows : List (UInt8 × UInt8)} (hlen : rows.length < maxTempThresholds)
    (h : ss.filter (fun s => s.key = .matrix) = [.matrix rows]) :
    (ss.foldl Setting.apply data).rowList = rows.map fun row => (row.1.toNat, row.2.toNat) := by
  induction ss generalizing data with
  | nil => cases h
  | cons s ss ih =>
    by_cases hs : s.key = .matrix
    · rw [List.filter_cons_of_pos (by simpa using hs)] at h
      obtain ⟨rfl, hnil⟩ := List.cons.inj h
      rw [List.foldl_cons, foldl_rowList, FandConfig.rowList_matrix data hlen.le]
      intro t ht hkey
      have hmem : t ∈ ss.filter fun s => s.key = .matrix :=
        List.mem_filter.mpr ⟨ht, by simpa using hkey⟩
      rw [hnil] at hmem
      cases hmem
    · rw [List.filter_cons_of_neg (by simpa using hs)] at h
      exact ih h

/-! ## Stored rows -/

/-- What the parser makes of a block that fits the buffer. -/
theorem BlockReads.rows {block : MatrixBlock} {s : Setting} (h : BlockReads block s)
    (hfits : block.Fits) :
    ∃ first segments last lines line rows,
      literals block.headerText = [RowText.value first] ∧ block.lines = lines ++ [line] ∧
      List.Forall₂ LineHas lines segments ∧ LineCloses line last ∧
      s = .matrix rows ∧ rows.length < maxTempThresholds ∧
      rows.map (fun row => (row.1.toNat, row.2.toNat)) =
        first.value :: (segmentRows segments last).map RowText.value := by
  obtain ⟨value, text, rest, hpair, happend, hread⟩ := h
  obtain ⟨first, lines, segments, line, last, hfirst, hsplit, hlines, hlast, hcount⟩ :=
    configAppendMatrixRows_lines happend
  have hblock : block.lines = lines ++ [line] :=
    List.append_cancel_right (by simpa using hsplit)
  have hheader : block.headerText = '(' :: first.text := by
    simp only [MatrixBlock.headerText, hpair, submatch_start.mpr ⟨first, rfl, hfirst⟩]
  have hjoined : block.joined = joinedText first segments last := by
    rw [MatrixBlock.joined, hheader, hblock, flatMap_takenText hlines hlast]
    rfl
  rw [MatrixBlock.Fits, hjoined] at hfits
  have htext := configAppendMatrixRows_text hfirst hlines hlast hcount
    (lt_of_le_of_lt (header_length_le ..) hfits) hfits rest
  rw [← hsplit, happend] at htext
  cases htext
  obtain ⟨rows, rfl, hlen, hvalue⟩ := read_joined hread
  refine ⟨first, segments, last, lines, line, rows, ?_, hblock, hlines, hlast, rfl, hlen, hvalue⟩
  rw [hheader]
  have hopen := literals_skip (u := ['(']) (r := first.text) (by decide)
  have hrow := literals_text first []
  rw [List.append_nil] at hrow
  rw [List.singleton_append] at hopen
  rw [hopen, hrow]
  rfl

section Lines

variable {lines : List (List Char)} {segments : List (Option RowText)} {line : List Char}
  {last : RowText}

/-- Where every line is a row, no segment is empty. -/
theorem segmentRows_of_row_on_every_line (hlines : List.Forall₂ LineHas lines segments)
    (hlast : LineCloses line last)
    (h : ∀ l ∈ lines ++ [line], ∃ row, writtenRows l = [row] ∧ literals (takenText l) = [row]) :
    (segmentRows segments last).map RowText.value = (lines ++ [line]).flatMap writtenRows := by
  induction hlines with
  | nil =>
    obtain ⟨row, hwritten, htaken⟩ := h line (by simp)
    rw [(takenText_closes hlast).2] at htaken
    simp [segmentRows, hwritten, htaken]
  | @cons l o lines segments hline _ ih =>
    obtain ⟨row, hwritten, htaken⟩ := h l (by simp)
    rw [(takenText_has hline).2] at htaken
    cases o with
    | none => cases htaken
    | some w =>
      cases htaken
      rw [segmentRows, List.map_cons, ih fun l' hl' => h l' (List.mem_cons_of_mem l hl'),
        List.cons_append, List.flatMap_cons, hwritten]
      rfl

theorem segmentRows_length (hlines : List.Forall₂ LineHas lines segments) :
    (segmentRows segments last).length = lines.length + 1 := by
  induction hlines with
  | nil => rfl
  | cons _ _ ih => rw [segmentRows, List.length_cons, ih, List.length_cons]

theorem head?_segmentRows (segments : List (Option RowText)) (last : RowText) :
    (segmentRows segments last).head? = some (nextRow segments last) := by
  cases segments with
  | nil => rfl
  | cons o segments => rfl

theorem flatMap_length_le {ls : List (List Char)} (h : ∀ l ∈ ls, (writtenRows l).length ≤ 1) :
    (ls.flatMap writtenRows).length ≤ ls.length := by
  induction ls with
  | nil => exact Nat.le_refl _
  | cons l ls ih =>
    rw [List.flatMap_cons, List.length_append, List.length_cons]
    have hl := h l (List.mem_cons_self ..)
    have hls := ih fun l' hl' => h l' (List.mem_cons_of_mem l hl')
    omega

/-- A row in front of as many as can be written on the lines is on a line of its own. -/
theorem cons_eq_append {ls : List (List Char)} {l : List Char} {v : ℕ × ℕ} {vs : List (ℕ × ℕ)}
    (hl : (writtenRows l).length ≤ 1) (hls : ∀ l ∈ ls, (writtenRows l).length ≤ 1)
    (hlen : vs.length = ls.length) (h : v :: vs = writtenRows l ++ ls.flatMap writtenRows) :
    writtenRows l = [v] ∧ vs = ls.flatMap writtenRows := by
  have hle := flatMap_length_le hls
  rcases hw : writtenRows l with _ | ⟨u, us⟩
  · rw [hw, List.nil_append] at h
    have := congrArg List.length h
    rw [List.length_cons] at this
    omega
  · rw [hw, List.length_cons] at hl
    obtain rfl : us = [] := List.eq_nil_of_length_eq_zero (by omega)
    rw [hw] at h
    obtain ⟨rfl, hvs⟩ := List.cons.inj h
    exact ⟨rfl, hvs⟩

/-- Where the stored rows are the written ones, at most one on a line and no two in
succession the same, every line is a row: an empty segment would repeat the next one. -/
theorem row_on_every_line_of_segmentRows (hlines : List.Forall₂ LineHas lines segments)
    (hlast : LineCloses line last) (hone : ∀ l ∈ lines ++ [line], (writtenRows l).length ≤ 1)
    (hchain : List.IsChain (· ≠ ·) ((segmentRows segments last).map RowText.value))
    (h : (segmentRows segments last).map RowText.value = (lines ++ [line]).flatMap writtenRows) :
    ∀ l ∈ lines ++ [line], ∃ row, writtenRows l = [row] ∧ literals (takenText l) = [row] := by
  induction hlines with
  | nil =>
    simp only [segmentRows, List.map_cons, List.map_nil, List.nil_append, List.flatMap_cons,
      List.flatMap_nil, List.append_nil] at h
    intro l hl
    rw [List.nil_append, List.mem_singleton] at hl
    subst hl
    exact ⟨last.value, h.symm, (takenText_closes hlast).2⟩
  | @cons l o lines segments hline hrest ih =>
    rw [segmentRows, List.map_cons] at h hchain
    have hlen : ((segmentRows segments last).map RowText.value).length =
        (lines ++ [line]).length := by
      rw [List.length_map, segmentRows_length hrest, List.length_append, List.length_singleton]
    obtain ⟨hwritten, hrows⟩ := cons_eq_append (hone l (by simp))
      (fun l' hl' => hone l' (List.mem_cons_of_mem l hl')) hlen h
    have htail := ih (fun l' hl' => hone l' (List.mem_cons_of_mem l hl')) hchain.of_cons hrows
    rintro l' (_ | ⟨_, hl'⟩)
    · cases o with
      | some w => exact ⟨w.value, hwritten, (takenText_has hline).2⟩
      | none =>
        -- the segment of this line and the next have the same row
        exfalso
        obtain ⟨rest, hcons⟩ : ∃ rest, segmentRows segments last =
            nextRow segments last :: rest :=
          List.head?_eq_some_iff.mp (head?_segmentRows segments last)
        rw [hcons, List.map_cons] at hchain
        exact (List.isChain_cons_cons.mp hchain).1 rfl
    · exact htail l' hl'

end Lines

/-- **Soundness of the matrix.** In a file with one matrix block that the parser accepts,
the stored rows are the written ones if the joined text fits the buffer and every line of
the block has one row, the one that the parser takes. If the text fits, no line has more
than one row and no two rows in succession are the same, this is also necessary.

Lines are those of `fgets`: a row behind more than 254 blanks is on a second line, and the
first one has none. -/
theorem configParse_matrix_sound (text : List Char) (block : MatrixBlock) (c : FandConfig)
    (hblock : matrixBlocks text = [block]) (hparse : configParse (some text) .zero = (0, c)) :
    (block.Fits → block.RowOnEveryLine → c.rowList = block.written) ∧
      (block.Fits → block.AtMostOneRow → List.IsChain (· ≠ ·) block.written →
        c.rowList = block.written → block.RowOnEveryLine) := by
  obtain ⟨ss, hss, rfl, -⟩ := configParse_ok hparse
  have hblocks : List.Forall₂ BlockReads (matrixBlocks text) (ss.filter fun s => s.key = .matrix) :=
    matrixBlocksLoop_settings hss
  rw [hblock] at hblocks
  obtain ⟨s, hreads, hfilter⟩ : ∃ s, BlockReads block s ∧
      ss.filter (fun s => s.key = .matrix) = [s] := by
    generalize ss.filter (fun s => s.key = .matrix) = l at hblocks
    rcases hblocks with _ | ⟨hreads, hnil⟩
    cases hnil
    exact ⟨_, hreads, rfl⟩
  refine ⟨fun hfits hevery => ?_, fun hfits hone hchain heq => ?_⟩
  · obtain ⟨first, segments, last, lines, line, rows, hheader, hsplit, hlines, hlast, rfl, hlen,
      hvalue⟩ := hreads.rows hfits
    rw [foldl_rowList_matrix hlen hfilter, hvalue, MatrixBlock.written]
    obtain ⟨⟨row, hwritten, htaken⟩, hevery⟩ := hevery
    rw [hheader] at htaken
    cases htaken
    rw [hsplit] at hevery ⊢
    rw [hwritten, segmentRows_of_row_on_every_line hlines hlast hevery]
    rfl
  · obtain ⟨first, segments, last, lines, line, rows, hheader, hsplit, hlines, hlast, rfl, hlen,
      hvalue⟩ := hreads.rows hfits
    rw [foldl_rowList_matrix hlen hfilter, hvalue, MatrixBlock.written, hsplit] at heq
    -- as many values as lines, so each line has its own
    have hcount : ((segmentRows segments last).map RowText.value).length =
        (lines ++ [line]).length := by
      rw [List.length_map, segmentRows_length hlines, List.length_append, List.length_singleton]
    have hone' := hone.lines
    rw [hsplit] at hone'
    obtain ⟨hwritten, hrows⟩ := cons_eq_append hone.header hone' hcount heq
    rw [MatrixBlock.written, hsplit, ← heq] at hchain
    refine ⟨⟨first.value, hwritten, hheader⟩, ?_⟩
    rw [hsplit]
    exact row_on_every_line_of_segmentRows hlines hlast hone' hchain.of_cons hrows

/-- A file whose matrix is rows and nothing else. -/
def fileMatrix : List Char := "matrix=('50::20'\n'60::50'\n'80::100')\n".toList

theorem configParse_matrix_sound_plain :
    (configParse (some fileMatrix) .zero).2.rowList =
      (MatrixBlock.mk "matrix=('50::20'\n".toList
        ["'60::50'\n".toList, "'80::100')\n".toList]).written := by
  refine (configParse_matrix_sound fileMatrix _ _ (by decide +kernel)
    (Prod.ext (by decide +kernel) rfl)).1 (by decide +kernel : _ < _)
    ⟨⟨(50, 20), by decide +kernel, by decide +kernel⟩, ?_⟩
  rintro line (_ | ⟨_, _ | ⟨_, h⟩⟩)
  · exact ⟨(60, 50), by decide +kernel, by decide +kernel⟩
  · exact ⟨(80, 100), by decide +kernel, by decide +kernel⟩
  · cases h

/-- A file with a blank line, a commented row and a row with a comment in its matrix. -/
def fileMatrixComments : List Char :=
  "matrix=('50::20'\n\n'60::50'\n# '65::60'\n'70::70' # warm\n'80::100')\n".toList

/-- Its four written rows come out as six: two are doubled, one is dropped, and one that
was commented out is stored. -/
theorem configParse_matrix_unsound :
    ∃ block, matrixBlocks fileMatrixComments = [block] ∧
      (configParse (some fileMatrixComments) .zero).1 = 0 ∧
      block.written = [(50, 20), (60, 50), (70, 70), (80, 100)] ∧
      (configParse (some fileMatrixComments) .zero).2.rowList =
        [(50, 20), (60, 50), (60, 50), (65, 60), (80, 100), (80, 100)] :=
  ⟨⟨"matrix=('50::20'\n".toList, ["\n".toList, "'60::50'\n".toList, "# '65::60'\n".toList,
    "'70::70' # warm\n".toList, "'80::100')\n".toList]⟩, by decide +kernel, by decide +kernel,
    by decide +kernel, by decide +kernel⟩

end AmdgpuFand

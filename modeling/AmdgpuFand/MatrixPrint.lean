import AmdgpuFand.MatrixText

/-!
# Printing a matrix and parsing it

The documentation promises sixteen rows. A matrix printed as the documentation shows it,
one row on a line, is read back row by row as long as it has fifteen rows at most; with
sixteen, `config_set_matrix` finds all of them and then reports that there are too many
(`configParse_print`).
-/

namespace AmdgpuFand

open CLib Ere

/-! ## Settings on one line -/

/-- What a line with a setting looks like. -/
theorem matches_valregex {s : List Char} {ps : List (List Char)} :
    Matches valregex true s ps ↔
      ∃ lead key gap gap' quote value quote' tail,
        (∀ c ∈ lead, isSpace c = true) ∧ key ≠ [] ∧ (∀ c ∈ key, isSpace c = false) ∧
        (∀ c ∈ gap, isSpace c = true) ∧ (∀ c ∈ gap', isSpace c = true) ∧
        quote.length ≤ 1 ∧ (∀ c ∈ quote, c = '\x22') ∧
        value ≠ [] ∧ (∀ c ∈ value, c ≠ '\x22' ∧ c ≠ ' ') ∧
        quote'.length ≤ 1 ∧ (∀ c ∈ quote', c = '\x22') ∧ (∀ c ∈ tail, isSpace c = true) ∧
        s = lead ++ (key ++ (gap ++ '=' :: (gap' ++ (quote ++ (value ++ (quote' ++ tail)))))) ∧
        ps = [lead, key, gap, ['='], gap', quote, value, quote', tail] := by
  refine ⟨?_, ?_⟩
  · rintro ⟨-, lead, r, ps, rfl, rfl, -, hlead, h₁⟩
    obtain ⟨key, r, ps, hkey, hkey', rfl, rfl, h₂⟩ := matches_plus.mp h₁
    obtain ⟨gap, r, ps, rfl, rfl, -, hgap, h₃⟩ := h₂
    obtain ⟨r, ps, rfl, rfl, h₄⟩ := matches_chr.mp h₃
    obtain ⟨gap', r, ps, rfl, rfl, -, hgap', h₅⟩ := h₄
    obtain ⟨quote, r, ps, rfl, rfl, hquote, hquote', h₆⟩ := h₅
    obtain ⟨value, r, ps, hvalue, hvalue', rfl, rfl, h₇⟩ := matches_plus.mp h₆
    obtain ⟨close, r, ps, rfl, rfl, hclose, hclose', h₈⟩ := h₇
    obtain ⟨tail, r, ps, rfl, rfl, -, htail, rfl, rfl⟩ := h₈
    exact ⟨lead, key, gap, gap', quote, value, close, tail, hlead, hkey,
      fun c hc => by simpa using hkey' c hc, hgap, hgap', hquote,
      fun c hc => by simpa using hquote' c hc, hvalue, fun c hc => by simpa using hvalue' c hc,
      hclose, fun c hc => by simpa using hclose' c hc, htail, by simp, rfl⟩
  · rintro ⟨lead, key, gap, gap', quote, value, close, tail, hlead, hkey, hkey', hgap, hgap',
      hquote, hquote', hvalue, hvalue', hclose, hclose', htail, rfl, rfl⟩
    refine ⟨rfl, lead, _, _, rfl, rfl, trivial, hlead, ?_⟩
    refine matches_plus.mpr ⟨key, _, _, hkey, fun c hc => by simp [hkey' c hc], rfl, rfl, ?_⟩
    refine ⟨gap, _, _, rfl, rfl, trivial, hgap, matches_chr.mpr ⟨_, _, rfl, rfl, ?_⟩⟩
    refine ⟨gap', _, _, rfl, rfl, trivial, hgap', ?_⟩
    refine ⟨quote, _, _, rfl, rfl, hquote, fun c hc => by simpa using hquote' c hc, ?_⟩
    refine matches_plus.mpr ⟨value, _, _, hvalue, fun c hc => by simpa using hvalue' c hc,
      rfl, rfl, ?_⟩
    refine ⟨close, _, _, rfl, rfl, hclose, fun c hc => by simpa using hclose' c hc, ?_⟩
    exact ⟨tail, [], [], rfl, (List.append_nil tail).symm, trivial, htail, rfl, rfl⟩

/-- A character of a line without white space, quotes or equals signs. -/
def IsPlain (c : Char) : Prop := isSpace c = false ∧ c ≠ '\x22' ∧ c ≠ '='

instance : DecidablePred IsPlain := fun _ => inferInstanceAs (Decidable (_ ∧ _ ∧ _))

/-- A line `key=value` of such characters is taken apart at its only equals sign. -/
theorem regexec_valregex {key value : List Char} (hkey : key ≠ []) (hkplain : ∀ c ∈ key, IsPlain c)
    (hvalue : value ≠ []) (hvplain : ∀ c ∈ value, IsPlain c) :
    ∃ ps, regexec valregex (key ++ '=' :: value) = some ps ∧
      group valregex 1 ps = key ∧ group valregex 2 ps = value := by
  have hmatch : Matches valregex true (key ++ '=' :: value) _ :=
    matches_valregex.mpr ⟨[], key, [], [], [], value, [], [], by simp, hkey,
      fun c hc => (hkplain c hc).1, by simp, by simp, by simp, by simp, hvalue,
      fun c hc => ⟨(hvplain c hc).2.1, by rintro rfl; exact absurd (hvplain ' ' hc).1 (by decide)⟩,
      by simp, by simp, by simp, by simp, rfl⟩
  obtain ⟨ps, hps, hm⟩ := search_here hmatch
  refine ⟨ps, hps, ?_⟩
  obtain ⟨lead, w, gap, gap', quote, v, close, tail, hlead, hw, -, hgap, hgap', -, hquote, hv, -, -,
    hclose, htail, htext, rfl⟩ := matches_valregex.mp hm
  -- no piece of white space and no quote has room in the line
  have hnone : ∀ c ∈ key ++ '=' :: value, isSpace c = false ∧ c ≠ '\x22' := by
    intro c hc
    rw [List.mem_append, List.mem_cons] at hc
    rcases hc with hc | rfl | hc
    · exact ⟨(hkplain c hc).1, (hkplain c hc).2.1⟩
    · exact ⟨by decide, by decide⟩
    · exact ⟨(hvplain c hc).1, (hvplain c hc).2.1⟩
  have hspace : ∀ u : List Char, (∀ c ∈ u, isSpace c = true) →
      (∀ c ∈ u, c ∈ key ++ '=' :: value) → u = [] := by
    intro u hu hmem
    refine List.eq_nil_iff_forall_not_mem.mpr fun c hc => ?_
    have := (hnone c (hmem c hc)).1
    rw [hu c hc] at this
    cases this
  have hquotes : ∀ u : List Char, (∀ c ∈ u, c = '\x22') →
      (∀ c ∈ u, c ∈ key ++ '=' :: value) → u = [] := by
    intro u hu hmem
    exact List.eq_nil_iff_forall_not_mem.mpr fun c hc => (hnone c (hmem c hc)).2 (hu c hc)
  obtain rfl := hspace lead hlead fun c hc => by simp [htext, hc]
  obtain rfl := hspace gap hgap fun c hc => by simp [htext, hc]
  obtain rfl := hspace gap' hgap' fun c hc => by simp [htext, hc]
  obtain rfl := hspace tail htail fun c hc => by simp [htext, hc]
  obtain rfl := hquotes quote hquote fun c hc => by simp [htext, hc]
  obtain rfl := hquotes close hclose fun c hc => by simp [htext, hc]
  simp only [List.nil_append, List.append_nil] at htext
  -- and there is only one equals sign to cut at
  obtain ⟨rfl, rfl⟩ := cut_unique (fun h => (hkplain '=' h).2.2 rfl)
    (fun h => (hvplain '=' h).2.2 rfl) htext
  simp [group, valregex, spaces, chr]

/-- Such a line is read as its key, in lower case, and its value. -/
theorem configPair_plain {key value : List Char} (hkey : key ≠ []) (hkplain : ∀ c ∈ key, IsPlain c)
    (hvalue : value ≠ []) (hvplain : ∀ c ∈ value, IsPlain c) (hklen : key.length < configKeySize)
    (hvlen : value.length < configBufferSize) :
    configPair (key ++ '=' :: value) = some (strtolower key, value) := by
  obtain ⟨ps, hps, hkgroup, hvgroup⟩ := regexec_valregex hkey hkplain hvalue hvplain
  simp only [configPair, hps, hkgroup, hvgroup, strsncpyStr_fits hklen, strsncpyStr_fits hvlen]
  rw [if_neg (by omega), if_neg (by omega)]

/-! ## Printing -/

/-- A number in plain decimal notation is a numeral. -/
theorem isNumeral_toDigits (n : ℕ) : IsNumeral (Nat.toDigits 10 n) :=
  ⟨Nat.toDigits_ne_nil, fun _ hc => Nat.isDigit_of_mem_toDigits (by decide) (by decide) hc⟩

/-- A row in plain decimal notation. -/
def printRow (row : ℕ × ℕ) : RowText :=
  ⟨Nat.toDigits 10 row.1, Nat.toDigits 10 row.2, isNumeral_toDigits _, isNumeral_toDigits _⟩

/-- The rows, one on a line, and the closing parenthesis. -/
def printRows : List (ℕ × ℕ) → List Char
  | [] => [')']
  | [row] => (printRow row).text ++ [')']
  | row :: rows => (printRow row).text ++ '\n' :: printRows rows

/-- A matrix in the documented layout, with or without a newline at the end of the
file. -/
def printMatrix (rows : List (ℕ × ℕ)) (newline : Bool) : List Char :=
  ConfigKey.matrix.name ++ '=' :: '(' :: (printRows rows ++ if newline then ['\n'] else [])

theorem printRow_value (row : ℕ × ℕ) : (printRow row).value = row := by
  simp [printRow, RowText.value]

/-- A row that fits the limits takes at most ten characters. -/
theorem printRow_length {row : ℕ × ℕ} (htemp : row.1 ≤ 255) (hspeed : row.2 ≤ 100) :
    (printRow row).temp.length < configNumbufSize ∧
      (printRow row).speed.length < configNumbufSize ∧ (printRow row).text.length ≤ 10 := by
  have h : ∀ n, n ≤ 255 → (Nat.toDigits 10 n).length ≤ 3 := fun n hn =>
    (Nat.length_toDigits_le_iff (by decide) (by decide)).mpr (by omega)
  have ht := h row.1 htemp
  have hs := h row.2 (by omega)
  refine ⟨Nat.lt_succ_of_le ht, Nat.lt_succ_of_le hs, ?_⟩
  simp only [printRow, RowText.text, List.length_cons, List.length_append, List.length_nil]
  omega

/-- and is accepted. -/
theorem printRow_read {row : ℕ × ℕ} (htemp : row.1 ≤ 255) (hspeed : row.2 ≤ 100) :
    ∃ r, (printRow row).read = some r := by
  obtain ⟨ht, hs, -⟩ := printRow_length htemp hspeed
  have hvalue := printRow_value row
  obtain ⟨x, hx⟩ : ∃ x, configNumber (printRow row).temp 255 = some x :=
    configNumber_some (printRow row).temp_numeral ht
      (le_of_eq_of_le (congrArg Prod.fst hvalue) htemp)
  obtain ⟨y, hy⟩ : ∃ y, configNumber (printRow row).speed 100 = some y :=
    configNumber_some (printRow row).speed_numeral hs
      (le_of_eq_of_le (congrArg Prod.snd hvalue) hspeed)
  exact ⟨(x, y), by simp only [RowText.read, hx, hy]⟩

theorem mapM_printRow_read {rows : List (ℕ × ℕ)} (h : ∀ row ∈ rows, row.1 ≤ 255 ∧ row.2 ≤ 100) :
    ∃ rs, (rows.map printRow).mapM RowText.read = some rs := by
  induction rows with
  | nil => exact ⟨[], rfl⟩
  | cons row rows ih =>
    obtain ⟨r, hr⟩ := printRow_read (h row (List.mem_cons_self ..)).1
      (h row (List.mem_cons_self ..)).2
    obtain ⟨rs, hrs⟩ := ih fun x hx => h x (List.mem_cons_of_mem row hx)
    exact ⟨r :: rs, by rw [List.map_cons, List.mapM_cons, hr, hrs]; rfl⟩

/-! ## The lines of a printed matrix -/

theorem RowText.mem_text {w : RowText} {c : Char} (h : c ∈ w.text) :
    c.isDigit = true ∨ c = '\x27' ∨ c = ':' := by
  simp only [RowText.text, List.mem_cons, List.mem_append, List.not_mem_nil, or_false] at h
  rcases h with rfl | h | rfl | rfl | h | rfl
  · exact Or.inr (Or.inl rfl)
  · exact Or.inl (w.temp_numeral.2 c h)
  · exact Or.inr (Or.inr rfl)
  · exact Or.inr (Or.inr rfl)
  · exact Or.inl (w.speed_numeral.2 c h)
  · exact Or.inr (Or.inl rfl)

/-- A character that is no digit, quote or colon is not part of a row. -/
theorem RowText.not_mem_text (w : RowText) {c : Char} (hdigit : c.isDigit = false)
    (hquote : c ≠ '\x27') (hcolon : c ≠ ':') : c ∉ w.text := by
  intro h
  rcases w.mem_text h with h | rfl | rfl
  · rw [hdigit] at h
    cases h
  · exact hquote rfl
  · exact hcolon rfl

theorem RowText.paren_not_mem (w : RowText) : ')' ∉ w.text :=
  w.not_mem_text (by decide) (by decide) (by decide)

theorem RowText.text_ne_nil (w : RowText) : w.text ≠ [] := by
  simp [RowText.text]

theorem isPlain_of_isDigit {c : Char} (h : c.isDigit = true) : IsPlain c := by
  have hne : ∀ d : Char, d.isDigit = false → c ≠ d := by
    rintro d hd rfl
    rw [h] at hd
    cases hd
  refine ⟨?_, hne '\x22' (by decide), hne '=' (by decide)⟩
  simp [isSpace, hne ' ' (by decide), hne '\t' (by decide), hne '\n' (by decide),
    hne '\x0b' (by decide), hne '\x0c' (by decide), hne '\r' (by decide)]

theorem RowText.isPlain (w : RowText) : ∀ c ∈ w.text, IsPlain c := by
  intro c hc
  rcases w.mem_text hc with h | rfl | rfl
  · exact isPlain_of_isDigit h
  · exact ⟨by decide, by decide, by decide⟩
  · exact ⟨by decide, by decide, by decide⟩

/-- The line of a row, in front of the newline `eol`, if there is one. -/
theorem printRow_line (row : ℕ × ℕ) :
    LineHas ((printRow row).text ++ ['\n']) (some (printRow row)) := by
  have hnul : '\x00' ∉ (printRow row).text ++ ['\n'] := by
    simp [(printRow row).not_mem_text]
  rw [LineHas, cstr_eq_self hnul]
  exact ⟨[], ['\n'], rfl, by simp [isSpace]⟩

section Lines

variable {rows : List (ℕ × ℕ)} {last : ℕ × ℕ} {eof : List Char}

theorem printRow_closes (heof : eof = [] ∨ eof = ['\n']) :
    LineCloses ((printRow last).text ++ [')'] ++ eof) (printRow last) := by
  have hnul : '\x00' ∉ (printRow last).text ++ [')'] ++ eof := by
    rcases heof with rfl | rfl <;> simp [(printRow last).not_mem_text]
  rw [LineCloses, cstr_eq_self hnul]
  refine ⟨[], eof, rfl, ?_⟩
  rcases heof with rfl | rfl <;> simp [isSpace]

/-- `fgets` reads a printed matrix row by row. -/
theorem linesOf_printRows (hrows : ∀ row ∈ rows, row.1 ≤ 255 ∧ row.2 ≤ 100)
    (hlast : last.1 ≤ 255 ∧ last.2 ≤ 100) (heof : eof = [] ∨ eof = ['\n']) :
    linesOf configBufferSize (printRows (rows ++ [last]) ++ eof) =
      rows.map (fun row => (printRow row).text ++ ['\n']) ++
        [(printRow last).text ++ [')'] ++ eof] := by
  induction rows with
  | nil =>
    obtain ⟨-, -, hlen⟩ := printRow_length hlast.1 hlast.2
    have hnewline : '\n' ∉ (printRow last).text ++ [')'] := by
      simp [(printRow last).not_mem_text]
    have hlen' : ((printRow last).text ++ [')']).length ≤ 11 := by
      simp only [List.length_append, List.length_cons, List.length_nil]
      omega
    rcases heof with rfl | rfl
    · rw [List.nil_append, printRows, List.append_nil]
      exact linesOf_last (by simp) hnewline (by simp only [configBufferSize]; omega) (by decide)
    · rw [List.nil_append, printRows]
      exact linesOf_line (s := []) hnewline (by simp only [configBufferSize]; omega)
  | cons row rows ih =>
    have hrow := hrows row (List.mem_cons_self ..)
    obtain ⟨-, -, hlen⟩ := printRow_length hrow.1 hrow.2
    have hnewline : '\n' ∉ (printRow row).text := (printRow row).not_mem_text (by decide)
      (by decide) (by decide)
    have hcons : printRows (row :: rows ++ [last]) =
        (printRow row).text ++ '\n' :: printRows (rows ++ [last]) := by
      cases rows <;> rfl
    rw [hcons, List.append_assoc, List.cons_append,
      linesOf_line hnewline (by simp only [configBufferSize]; omega),
      ih fun r hr => hrows r (List.mem_cons_of_mem row hr)]
    rfl

theorem forall₂_printRow (rows : List (ℕ × ℕ)) :
    List.Forall₂ LineHas (rows.map fun row => (printRow row).text ++ ['\n'])
      (rows.map fun row => some (printRow row)) := by
  induction rows with
  | nil => exact .nil
  | cons row rows ih => exact .cons (printRow_line row) ih

theorem segmentsText_length (hrows : ∀ row ∈ rows, row.1 ≤ 255 ∧ row.2 ≤ 100)
    (hlast : last.1 ≤ 255 ∧ last.2 ≤ 100) :
    (segmentsText (rows.map fun row => some (printRow row)) (printRow last)).length ≤
      11 * rows.length + 12 := by
  induction rows with
  | nil =>
    obtain ⟨-, -, hlen⟩ := printRow_length hlast.1 hlast.2
    simp only [List.map_nil, segmentsText, List.length_cons, List.length_append, List.length_nil]
    omega
  | cons row rows ih =>
    have hrow := hrows row (List.mem_cons_self ..)
    obtain ⟨-, -, hlen⟩ := printRow_length hrow.1 hrow.2
    have hrest := ih fun r hr => hrows r (List.mem_cons_of_mem row hr)
    simp only [List.map_cons, segmentsText, List.length_cons, List.length_append]
    omega

theorem segmentRows_printRow (rows : List (ℕ × ℕ)) (last : RowText) :
    segmentRows (rows.map fun row => some (printRow row)) last = rows.map printRow ++ [last] := by
  induction rows with
  | nil => rfl
  | cons row rows ih =>
    rw [List.map_cons, segmentRows, ih]
    rfl

/-- A line is worked on without its newline. -/
theorem configLine_newline {u : List Char} (hnul : '\x00' ∉ u) (hnewline : '\n' ∉ u)
    (hhash : '#' ∉ u) : configLine (u ++ ['\n']) = u := by
  have hself : ∀ {d : Char} {v : List Char}, d ∉ v → v.takeWhile (· ≠ d) = v := fun {d v} hd =>
    List.takeWhile_eq_self_iff.mpr fun c hc => by simpa using ne_of_mem_of_not_mem hc hd
  have hcut : (u ++ ['\n']).takeWhile (· ≠ '\n') = u := by
    rw [List.takeWhile_append_of_pos fun c hc => by simpa using ne_of_mem_of_not_mem hc hnewline]
    simp
  rw [configLine, cstr, hself (by simp [hnul]), configReplaceChar, hcut, configStripComments,
    configReplaceChar, hself hhash]

/-- The line of the first row. -/
def printHeader (row : ℕ × ℕ) : List Char :=
  ConfigKey.matrix.name ++ '=' :: '(' :: (printRow row).text

theorem printHeader_not_mem (row : ℕ × ℕ) {d : Char} (hname : d ∉ ConfigKey.matrix.name)
    (hequals : d ≠ '=') (hopen : d ≠ '(') (hdigit : d.isDigit = false) (hquote : d ≠ '\x27')
    (hcolon : d ≠ ':') : d ∉ printHeader row := by
  simp only [printHeader, List.mem_append, List.mem_cons, not_or]
  exact ⟨hname, hequals, hopen, (printRow row).not_mem_text hdigit hquote hcolon⟩

theorem printHeader_length {row : ℕ × ℕ} (hrow : row.1 ≤ 255 ∧ row.2 ≤ 100) :
    (printHeader row).length ≤ 18 := by
  obtain ⟨-, -, hlen⟩ := printRow_length hrow.1 hrow.2
  simp only [printHeader, ConfigKey.name, List.length_append, List.length_cons, List.length_nil]
  omega

theorem configLine_printHeader (row : ℕ × ℕ) :
    configLine (printHeader row ++ ['\n']) = printHeader row :=
  configLine_newline
    (printHeader_not_mem row (by decide) (by decide) (by decide) (by decide) (by decide)
      (by decide))
    (printHeader_not_mem row (by decide) (by decide) (by decide) (by decide) (by decide)
      (by decide))
    (printHeader_not_mem row (by decide) (by decide) (by decide) (by decide) (by decide)
      (by decide))

theorem configPair_printHeader {row : ℕ × ℕ} (hrow : row.1 ≤ 255 ∧ row.2 ≤ 100) :
    configPair (printHeader row) =
      some (ConfigKey.matrix.name, '(' :: (printRow row).text) := by
  have hplain : ∀ c ∈ '(' :: (printRow row).text, IsPlain c := by
    rintro c (_ | ⟨_, hc⟩)
    · decide
    · exact (printRow row).isPlain c hc
  obtain ⟨-, -, hlen⟩ := printRow_length hrow.1 hrow.2
  have hshort : ('(' :: (printRow row).text).length < configBufferSize :=
    lt_of_le_of_lt (Nat.succ_le_succ hlen) (by decide)
  have hkey : ∀ c ∈ ConfigKey.matrix.name, IsPlain c := by
    simp [ConfigKey.name, IsPlain, isSpace]
  rw [printHeader, configPair_plain (by decide) hkey (by simp) hplain (by decide) hshort]
  rfl

/-- The text of a printed matrix is the line of its first row and those of the others. -/
theorem linesOf_printMatrix {first : ℕ × ℕ} (newline : Bool)
    (hfirst : first.1 ≤ 255 ∧ first.2 ≤ 100)
    (hrows : ∀ row ∈ rows, row.1 ≤ 255 ∧ row.2 ≤ 100) (hlast : last.1 ≤ 255 ∧ last.2 ≤ 100) :
    ∃ line, LineCloses line (printRow last) ∧
      linesOf configBufferSize (printMatrix (first :: (rows ++ [last])) newline) =
        (printHeader first ++ ['\n']) ::
          (rows.map (fun row => (printRow row).text ++ ['\n']) ++ [line]) := by
  have heof : (if newline then ['\n'] else []) = ([] : List Char) ∨
      (if newline then ['\n'] else []) = ['\n'] := by
    cases newline
    · exact Or.inl rfl
    · exact Or.inr rfl
  have hcons : printRows (first :: (rows ++ [last])) =
      (printRow first).text ++ '\n' :: printRows (rows ++ [last]) := by
    cases rows <;> rfl
  have htext : printMatrix (first :: (rows ++ [last])) newline =
      printHeader first ++ '\n' ::
        (printRows (rows ++ [last]) ++ if newline then ['\n'] else []) := by
    rw [printMatrix, hcons, printHeader]
    simp
  have hnewline : '\n' ∉ printHeader first :=
    printHeader_not_mem first (by decide) (by decide) (by decide) (by decide) (by decide)
      (by decide)
  have hlen : (printHeader first).length + 2 ≤ configBufferSize :=
    le_trans (Nat.add_le_add_right (printHeader_length hfirst) 2) (by decide)
  refine ⟨_, printRow_closes heof, ?_⟩
  rw [htext, linesOf_line hnewline hlen, linesOf_printRows hrows hlast heof]

/-- The rows of a printed matrix are joined whole. -/
theorem configAppendMatrixRows_print {first : ℕ × ℕ} {line : List Char}
    (hfirst : first.1 ≤ 255 ∧ first.2 ≤ 100)
    (hrows : ∀ row ∈ rows, row.1 ≤ 255 ∧ row.2 ≤ 100) (hlast : last.1 ≤ 255 ∧ last.2 ≤ 100)
    (hcount : rows.length + 1 < maxTempThresholds) (hclose : LineCloses line (printRow last)) :
    configAppendMatrixRows ('(' :: (printRow first).text) configBufferSize
        (rows.map (fun row => (printRow row).text ++ ['\n']) ++ [line]) =
      some (joinedText (printRow first) (rows.map fun row => some (printRow row)) (printRow last),
        []) := by
  have hfits : (joinedText (printRow first) (rows.map fun row => some (printRow row))
      (printRow last)).length < configBufferSize := by
    obtain ⟨-, -, hlen⟩ := printRow_length hfirst.1 hfirst.2
    have hsegments := segmentsText_length hrows hlast
    simp only [joinedText, List.length_cons, List.length_append, configBufferSize]
    simp only [maxTempThresholds] at hcount
    omega
  have hvalue : EndsIn ('(' :: (printRow first).text) ('(' :: (printRow first).text) :=
    ⟨[], [], by simp, by simp⟩
  exact configAppendMatrixRows_text hvalue (forall₂_printRow rows) hclose
    (by rw [List.length_map]; exact hcount.le)
    (lt_of_le_of_lt (header_length_le ..) hfits) hfits []

/-- The settings of a printed matrix: whatever `config_set_matrix` makes of the rows. -/
theorem configSettings_printMatrix {first : ℕ × ℕ} (newline : Bool)
    (hfirst : first.1 ≤ 255 ∧ first.2 ≤ 100)
    (hrows : ∀ row ∈ rows, row.1 ≤ 255 ∧ row.2 ≤ 100) (hlast : last.1 ≤ 255 ∧ last.2 ≤ 100)
    (hcount : rows.length + 1 < maxTempThresholds) :
    configSettings (some (printMatrix (first :: (rows ++ [last])) newline)) =
      (ConfigKey.matrix.read (joinedText (printRow first)
        (rows.map fun row => some (printRow row)) (printRow last))).map ([·]) := by
  obtain ⟨line, hclose, hlines⟩ := linesOf_printMatrix newline hfirst hrows hlast
  have happend := configAppendMatrixRows_print hfirst hrows hlast hcount hclose
  have hsetting : configSetting (printHeader first)
      (rows.map (fun row => (printRow row).text ++ ['\n']) ++ [line]) =
      some (.matrix, joinedText (printRow first) (rows.map fun row => some (printRow row))
        (printRow last), []) := by
    simp only [configSetting, configPair_printHeader hfirst, configValue, if_true, happend]
    rfl
  have hempty : ¬ configLineEmpty (printHeader first) = true := by
    simp [configLineEmpty, printHeader, ConfigKey.name]
  rw [configSettings, Option.bind_some, hlines, List.length_cons, configSettingsLoop,
    configLine_printHeader, if_neg hempty, hsetting]
  dsimp only
  rcases ConfigKey.matrix.read _ with _ | s
  · rfl
  · rw [List.length_append, List.length_singleton]
    rfl

end Lines

/-- `config_set_matrix` finds all rows, and takes sixteen for too many. -/
theorem read_printed {first last : ℕ × ℕ} {rows : List (ℕ × ℕ)}
    (hrows : ∀ row ∈ first :: (rows ++ [last]), row.1 ≤ 255 ∧ row.2 ≤ 100)
    (hmax : (first :: (rows ++ [last])).length ≤ maxTempThresholds) :
    ∃ rs : List (UInt8 × UInt8),
      rs.map (fun row => (row.1.toNat, row.2.toNat)) = first :: (rows ++ [last]) ∧
      ConfigKey.matrix.read (joinedText (printRow first)
          (rows.map fun row => some (printRow row)) (printRow last)) =
        if (first :: (rows ++ [last])).length = maxTempThresholds then none
        else some (.matrix rs) := by
  obtain ⟨rs, hrs⟩ := mapM_printRow_read hrows
  have hvalue : rs.map (fun row => (row.1.toNat, row.2.toNat)) = first :: (rows ++ [last]) := by
    rw [mapM_read_value hrs, List.map_map]
    exact List.map_id'' printRow_value _
  have hfound : matrixRows maxTempThresholds (some (joinedText (printRow first)
      (rows.map fun row => some (printRow row)) (printRow last))) = some rs := by
    rw [matrixRows_joined, segmentRows_printRow, ← hrs]
    rw [List.take_of_length_le (by simpa using hmax)]
    simp
  have hlen : rs.length = (first :: (rows ++ [last])).length := by
    rw [← hvalue, List.length_map]
  exact ⟨rs, hvalue, by simp only [ConfigKey.read, hfound, hlen]⟩

/-- **Print, then parse.** A matrix of two to sixteen rows in the documented layout is
accepted with exactly its rows if and only if it has at most fifteen. -/
theorem configParse_print (rows : List (ℕ × ℕ)) (newline : Bool) (hmin : 2 ≤ rows.length)
    (hmax : rows.length ≤ maxTempThresholds) (hrows : ∀ row ∈ rows, row.1 ≤ 255 ∧ row.2 ≤ 100) :
    ((configParse (some (printMatrix rows newline)) .zero).1 = 0 ∧
        (configParse (some (printMatrix rows newline)) .zero).2.rowList = rows) ↔
      rows.length ≤ 15 := by
  obtain ⟨first, rest, rfl⟩ := List.exists_cons_of_length_pos (by omega : 0 < rows.length)
  obtain ⟨mid, last, rfl⟩ : ∃ mid last, rest = mid ++ [last] := by
    rcases List.eq_nil_or_concat rest with rfl | ⟨mid, last, rfl⟩
    · simp at hmin
    · exact ⟨mid, last, List.concat_eq_append⟩
  obtain ⟨rs, hvalue, hread⟩ := read_printed hrows hmax
  have hmid : ∀ row ∈ mid, row.1 ≤ 255 ∧ row.2 ≤ 100 := fun row hrow =>
    hrows row (by simp [hrow])
  have hsettings := configSettings_printMatrix newline (hrows first (by simp)) hmid
    (hrows last (by simp))
    (Nat.lt_of_succ_le (by simpa using hmax))
  rw [hread] at hsettings
  by_cases hfull : (first :: (mid ++ [last])).length = maxTempThresholds
  · rw [if_pos hfull, Option.map_none] at hsettings
    refine ⟨fun h => absurd h.1 (configParse_none hsettings .zero), fun h => ?_⟩
    rw [hfull] at h
    exact absurd h (by decide)
  · rw [if_neg hfull, Option.map_some] at hsettings
    have hlen : rs.length < maxTempThresholds := by
      rw [← List.length_map (f := fun row : UInt8 × UInt8 => (row.1.toNat, row.2.toNat)), hvalue]
      exact lt_of_le_of_ne hmax hfull
    have hnonzero : ((Setting.matrix rs).apply FandConfig.zero).matrixRows ≠ 0 := by
      intro hzero
      have hcount := FandConfig.rowList_matrix .zero hlen.le
      rw [hvalue] at hcount
      simp [FandConfig.rowList, FandConfig.rows, hzero] at hcount
    have hparse : configParse (some (printMatrix (first :: (mid ++ [last])) newline)) .zero =
        (0, (Setting.matrix rs).apply .zero) := by
      rw [configParse_some hsettings]
      exact if_neg hnonzero
    rw [hparse, FandConfig.rowList_matrix .zero hlen.le, hvalue]
    exact iff_of_true ⟨rfl, rfl⟩ (Nat.le_of_lt_succ (lt_of_le_of_ne hmax hfull))

/-- Fifteen rows. -/
theorem configParse_print_fifteen :
    (configParse (some (printMatrix (List.replicate 15 (255, 100)) true)) .zero).1 = 0 ∧
      (configParse (some (printMatrix (List.replicate 15 (255, 100)) true)) .zero).2.rowList =
        List.replicate 15 (255, 100) :=
  (configParse_print (List.replicate 15 (255, 100)) true (by decide) (by decide)
    (by decide)).mpr (by decide)

/-- Sixteen rows, the documented maximum, are rejected. -/
theorem configParse_rejects_sixteen :
    (configParse (some (printMatrix
      ((List.range 16).map fun i => (40 + 4 * i, 25 + 5 * i)) true)) .zero).1 = -1 := by
  decide +kernel

end AmdgpuFand

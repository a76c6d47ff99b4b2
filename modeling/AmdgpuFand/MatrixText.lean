import AmdgpuFand.Settings

/-!
# The text of a matrix

A row is written as `'temperature::speed'`. The first half of this file says what the four
patterns of the parser find of it: the three that look at a line, the row that the line
ends in (`submatch_mid`, `submatch_end`, `submatch_start`), and the one that takes the
joined text apart, the first row behind a separator (`configMatrixRow_row`,
`configMatrixRow_skip`).

The second half follows a matrix through the two stages. `config_append_matrix_rows`
leaves a text of segments, one for each line, that are empty where the line has no row
(`configAppendLoop_text`); `config_set_matrix` reads one row for every segment, and for an
empty one reads the row of the next (`matrixRows_segments`).
-/

namespace AmdgpuFand

open CLib Ere

/-! ## Rows -/

/-- A non-empty string of digits. -/
def IsNumeral (a : List Char) : Prop := a ≠ [] ∧ ∀ c ∈ a, c.isDigit = true

/-- The numerals of a row. -/
structure RowText where
  /-- the temperature -/
  temp : List Char
  /-- the speed -/
  speed : List Char
  temp_numeral : IsNumeral temp
  speed_numeral : IsNumeral speed

namespace RowText

/-- The row as it is written. -/
def text (w : RowText) : List Char :=
  '\x27' :: (w.temp ++ ':' :: ':' :: (w.speed ++ ['\x27']))

/-- The numbers in it. -/
def value (w : RowText) : ℕ × ℕ := (Nat.ofDigitChars 10 w.temp 0, Nat.ofDigitChars 10 w.speed 0)

theorem ext {v w : RowText} (htemp : v.temp = w.temp) (hspeed : v.speed = w.speed) : v = w := by
  obtain ⟨_, _, _, _⟩ := v
  obtain ⟨_, _, _, _⟩ := w
  simp only at htemp hspeed
  subst htemp hspeed
  rfl

theorem text_append (w : RowText) (r : List Char) :
    w.text ++ r = '\x27' :: (w.temp ++ ':' :: ':' :: (w.speed ++ '\x27' :: r)) := by
  simp [text]

/-- A row is recognised from its left end. -/
theorem text_append_inj {v w : RowText} {r r' : List Char} (h : v.text ++ r = w.text ++ r') :
    v = w ∧ r = r' := by
  rw [text_append, text_append] at h
  obtain ⟨-, h⟩ := List.cons.inj h
  obtain ⟨htemp, -, h⟩ := run_unique v.temp_numeral.2 w.temp_numeral.2 (by decide) (by decide) h
  obtain ⟨-, h⟩ := List.cons.inj h
  obtain ⟨hspeed, -, hr⟩ :=
    run_unique v.speed_numeral.2 w.speed_numeral.2 (by decide) (by decide) h
  exact ⟨ext htemp hspeed, hr⟩

/-- and from its right end. -/
theorem append_text_inj {v w : RowText} {r r' : List Char} (h : r ++ v.text = r' ++ w.text) :
    v = w ∧ r = r' := by
  have hrev := congrArg List.reverse h
  have hflip : ∀ (u : RowText) (q : List Char), (q ++ u.text).reverse =
      '\x27' :: (u.speed.reverse ++ ':' :: ':' :: (u.temp.reverse ++ '\x27' :: q.reverse)) := by
    intro u q
    simp [text]
  rw [hflip, hflip] at hrev
  have hdigit : ∀ {a : List Char}, IsNumeral a → ∀ c ∈ a.reverse, c.isDigit = true :=
    fun ha c hc => ha.2 c (List.mem_reverse.mp hc)
  obtain ⟨-, hrev⟩ := List.cons.inj hrev
  obtain ⟨hspeed, -, hrev⟩ := run_unique (hdigit v.speed_numeral) (hdigit w.speed_numeral)
    (by decide) (by decide) hrev
  obtain ⟨-, hrev⟩ := List.cons.inj hrev
  obtain ⟨htemp, -, hr⟩ := run_unique (hdigit v.temp_numeral) (hdigit w.temp_numeral)
    (by decide) (by decide) hrev
  exact ⟨ext (List.reverse_injective htemp) (List.reverse_injective hspeed),
    List.reverse_injective hr⟩

theorem semicolon_not_mem (w : RowText) : ';' ∉ w.text := by
  have hdigit : ∀ {a : List Char}, IsNumeral a → ';' ∉ a :=
    fun ha hmem => absurd (ha.2 ';' hmem) (by decide)
  simp [text, hdigit w.temp_numeral, hdigit w.speed_numeral]

end RowText

/-! ## Nodes of the patterns -/

section Nodes

variable {re : Regex} {start : Bool} {s : List Char} {ps : List (List Char)} {g : ℕ}

theorem matches_chr {c : Char} :
    Matches (chr c g :: re) start s ps ↔
      ∃ r ps', s = c :: r ∧ ps = [c] :: ps' ∧ Matches re false r ps' := by
  rw [chr, matches_one]
  refine ⟨?_, ?_⟩
  · rintro ⟨d, r, ps', hd, rfl, rfl, hm⟩
    obtain rfl : d = c := by simpa using hd
    exact ⟨r, ps', rfl, rfl, hm⟩
  · rintro ⟨r, ps', rfl, rfl, hm⟩
    exact ⟨c, r, ps', by simp, rfl, rfl, hm⟩

theorem matches_digits :
    Matches (digits g :: re) start s ps ↔
      ∃ a r ps', IsNumeral a ∧ s = a ++ r ∧ ps = a :: ps' ∧ Matches re false r ps' := by
  simp only [digits, matches_plus, IsNumeral, and_assoc]

theorem matches_spaces (hre : ∀ n ∈ re, n.isBol = false) :
    Matches (spaces :: re) start s ps ↔
      ∃ w r ps', (∀ c ∈ w, isSpace c = true) ∧ s = w ++ r ∧ ps = w :: ps' ∧
        Matches re false r ps' := by
  refine ⟨?_, ?_⟩
  · rintro ⟨w, r, ps', rfl, rfl, -, hall, hm⟩
    exact ⟨w, r, ps', hall, rfl, rfl, (matches_start hre false).mp hm⟩
  · rintro ⟨w, r, ps', hall, rfl, rfl, hm⟩
    exact ⟨w, r, ps', rfl, rfl, trivial, hall, (matches_start hre _).mp hm⟩

/-- A literal text. -/
theorem matches_chrs {o : List Char} (hre : ∀ n ∈ re, n.isBol = false) :
    Matches (o.map (chr · g) ++ re) start s ps ↔
      ∃ r ps', s = o ++ r ∧ ps = o.map ([·]) ++ ps' ∧ Matches re false r ps' := by
  induction o generalizing start s ps with
  | nil =>
    refine ⟨fun h => ⟨s, ps, rfl, rfl, (matches_start hre false).mp h⟩, ?_⟩
    rintro ⟨r, ps', rfl, rfl, h⟩
    exact (matches_start hre _).mp h
  | cons c o ih =>
    rw [List.map_cons, List.cons_append, matches_chr]
    refine ⟨?_, ?_⟩
    · rintro ⟨r, ps', rfl, rfl, h⟩
      obtain ⟨r, ps', rfl, rfl, h'⟩ := ih.mp h
      exact ⟨r, ps', rfl, rfl, h'⟩
    · rintro ⟨r, ps', rfl, rfl, h⟩
      exact ⟨o ++ r, o.map ([·]) ++ ps', rfl, rfl, ih.mpr ⟨r, ps', rfl, rfl, h⟩⟩

/-- The pieces of a row. -/
def RowText.pieces (w : RowText) : List (List Char) :=
  [['\x27'], w.temp, [':'], [':'], w.speed, ['\x27']]

theorem matches_row :
    Matches (rowPattern ++ re) start s ps ↔
      ∃ (w : RowText) (r : List Char) (ps' : List (List Char)),
        s = w.text ++ r ∧ ps = w.pieces ++ ps' ∧ Matches re false r ps' := by
  simp only [rowPattern, List.cons_append, List.nil_append]
  refine ⟨?_, ?_⟩
  · intro h₀
    obtain ⟨r, ps, rfl, rfl, h₁⟩ := matches_chr.mp h₀
    obtain ⟨a, r, ps, ha, rfl, rfl, h₂⟩ := matches_digits.mp h₁
    obtain ⟨r, ps, rfl, rfl, h₃⟩ := matches_chr.mp h₂
    obtain ⟨r, ps, rfl, rfl, h₄⟩ := matches_chr.mp h₃
    obtain ⟨b, r, ps, hb, rfl, rfl, h₅⟩ := matches_digits.mp h₄
    obtain ⟨r, ps, rfl, rfl, h₆⟩ := matches_chr.mp h₅
    exact ⟨⟨a, b, ha, hb⟩, r, ps, by simp [RowText.text], rfl, h₆⟩
  · rintro ⟨w, r, ps', rfl, rfl, h⟩
    rw [RowText.text_append]
    exact matches_chr.mpr ⟨_, _, rfl, rfl, matches_digits.mpr ⟨_, _, _, w.temp_numeral, rfl, rfl,
      matches_chr.mpr ⟨_, _, rfl, rfl, matches_chr.mpr ⟨_, _, rfl, rfl,
        matches_digits.mpr ⟨_, _, _, w.speed_numeral, rfl, rfl,
          matches_chr.mpr ⟨_, _, rfl, rfl, h⟩⟩⟩⟩⟩⟩

end Nodes

/-! ## Lines -/

/-- The text ends in `w`, up to white space. -/
def EndsIn (w s : List Char) : Prop :=
  ∃ pre suf, s = pre ++ w ++ suf ∧ ∀ c ∈ suf, isSpace c = true

/-- The last character of the text is no white space. -/
def EndsSolid (w : List Char) : Prop := ∃ u x, w = u ++ [x] ∧ isSpace x = false

/-- Two texts that a line ends in line up at their ends. -/
theorem EndsIn.line_up {v w s : List Char} (hv : EndsIn v s) (hw : EndsIn w s)
    (hsv : EndsSolid v) (hsw : EndsSolid w) : ∃ p q, p ++ v = q ++ w := by
  obtain ⟨p, suf, rfl, hsuf⟩ := hv
  obtain ⟨q, suf', heq, hsuf'⟩ := hw
  obtain ⟨v, x, rfl, hx⟩ := hsv
  obtain ⟨w, y, rfl, hy⟩ := hsw
  have hrev := congrArg List.reverse heq
  simp only [List.reverse_append, List.reverse_cons, List.singleton_append,
    List.append_assoc] at hrev
  obtain ⟨-, rfl, hrest⟩ := run_unique (p := isSpace)
    (fun c hc => hsuf c (List.mem_reverse.mp hc)) (fun c hc => hsuf' c (List.mem_reverse.mp hc))
    hx hy hrev
  refine ⟨p, q, ?_⟩
  rw [← List.append_assoc, ← List.append_assoc]
  refine congrArg (· ++ [x]) (List.reverse_injective ?_)
  simpa using hrest

/-- `\s*(o'[0-9]+::[0-9]+'c)\s*$`, the shape of the three line patterns. -/
def linePattern (o c : List Char) : Regex :=
  spaces :: (o.map (chr · 1) ++ (rowPattern ++ (c.map (chr · 1) ++ [spaces, .eol])))

theorem isBol_chrs (o : List Char) : ∀ n ∈ o.map (chr · 1), n.isBol = false := by
  intro n hn
  obtain ⟨c, -, rfl⟩ := List.mem_map.mp hn
  rfl

theorem isBol_append {re re' : Regex} (h : ∀ n ∈ re, n.isBol = false)
    (h' : ∀ n ∈ re', n.isBol = false) : ∀ n ∈ re ++ re', n.isBol = false := by
  intro n hn
  rcases List.mem_append.mp hn with hn | hn
  · exact h n hn
  · exact h' n hn

theorem isBol_row : ∀ n ∈ rowPattern, n.isBol = false := by
  simp [rowPattern, chr, digits, Node.isBol]

theorem isBol_spaces_eol : ∀ n ∈ [spaces, .eol], n.isBol = false := by
  simp [spaces, Node.isBol]

theorem isBol_eol : ∀ n ∈ [Node.eol], n.isBol = false := by
  simp [Node.isBol]

/-- What a line pattern matches. -/
theorem matches_linePattern {o c s : List Char} {start : Bool} {ps : List (List Char)} :
    Matches (linePattern o c) start s ps ↔
      ∃ (lead : List Char) (w : RowText) (suf : List Char),
        (∀ x ∈ lead, isSpace x = true) ∧ (∀ x ∈ suf, isSpace x = true) ∧
        s = lead ++ (o ++ (w.text ++ (c ++ suf))) ∧
        ps = lead :: (o.map ([·]) ++ (w.pieces ++ (c.map ([·]) ++ [suf]))) := by
  have htail := isBol_append (isBol_chrs c) isBol_spaces_eol
  have hrow := isBol_append isBol_row htail
  have hopen := isBol_append (isBol_chrs o) hrow
  rw [linePattern, matches_spaces hopen]
  refine ⟨?_, ?_⟩
  · rintro ⟨lead, r, ps, hlead, rfl, rfl, h₁⟩
    obtain ⟨r, ps, rfl, rfl, h₂⟩ := (matches_chrs hrow).mp h₁
    obtain ⟨w, r, ps, rfl, rfl, h₃⟩ := matches_row.mp h₂
    obtain ⟨r, ps, rfl, rfl, h₄⟩ := (matches_chrs isBol_spaces_eol).mp h₃
    obtain ⟨suf, r, ps, hsuf, rfl, rfl, rfl, rfl⟩ := (matches_spaces isBol_eol).mp h₄
    exact ⟨lead, w, suf, hlead, hsuf, by rw [List.append_nil], rfl⟩
  · rintro ⟨lead, w, suf, hlead, hsuf, rfl, rfl⟩
    have h₄ : Matches [spaces, .eol] false suf [suf] :=
      (matches_spaces isBol_eol).mpr ⟨suf, [], [], hsuf, (List.append_nil suf).symm, rfl, rfl, rfl⟩
    exact ⟨lead, _, _, hlead, rfl, rfl, (matches_chrs hrow).mpr ⟨_, _, rfl, rfl,
      matches_row.mpr ⟨w, _, _, rfl, rfl, (matches_chrs isBol_spaces_eol).mpr
        ⟨suf, [suf], rfl, rfl, h₄⟩⟩⟩⟩

theorem group_chrs (o : List Char) (re : Regex) (ps : List (List Char)) :
    group (o.map (chr · 1) ++ re) 1 (o.map ([·]) ++ ps) = o ++ group re 1 ps := by
  induction o with
  | nil => rfl
  | cons c o ih =>
    simp only [List.map_cons, List.cons_append, chr, group, if_true]
    exact congrArg (c :: ·) ih

theorem group_linePattern (o c lead suf : List Char) (w : RowText) :
    group (linePattern o c) 1
      (lead :: (o.map ([·]) ++ (w.pieces ++ (c.map ([·]) ++ [suf])))) = o ++ (w.text ++ c) := by
  have hrow : ∀ re ps, group (rowPattern ++ re) 1 (w.pieces ++ ps) = w.text ++ group re 1 ps := by
    intro re ps
    simp [rowPattern, RowText.pieces, RowText.text, group, chr, digits]
  simp only [linePattern, spaces, group, Nat.zero_ne_one, if_false]
  rw [group_chrs, hrow, group_chrs]
  simp [group]

theorem endsSolid_row (o : List Char) {c : List Char} (hc : ∀ x ∈ c, isSpace x = false)
    (w : RowText) : EndsSolid (o ++ (w.text ++ c)) := by
  rcases List.eq_nil_or_concat c with rfl | ⟨c, x, rfl⟩
  · refine ⟨o ++ '\x27' :: (w.temp ++ ':' :: ':' :: w.speed), '\x27', ?_, by decide⟩
    simp [RowText.text]
  · refine ⟨o ++ (w.text ++ c), x, by simp, hc x (by simp)⟩

/-- A line pattern captures the row that the line ends in. -/
theorem submatch_linePattern {o c : List Char} (hc : ∀ x ∈ c, isSpace x = false)
    {s row : List Char} :
    submatch (linePattern o c) 1 s = some row ↔
      ∃ w : RowText, row = o ++ (w.text ++ c) ∧ EndsIn row s := by
  have hsound : ∀ row, submatch (linePattern o c) 1 s = some row →
      ∃ w : RowText, row = o ++ (w.text ++ c) ∧ EndsIn row s := by
    intro row h
    obtain ⟨ps, hps, rfl⟩ := Option.map_eq_some_iff.mp h
    obtain ⟨pre, rest, rfl, hm⟩ := regexec_matches hps
    obtain ⟨lead, w, suf, -, hsuf, rfl, rfl⟩ := matches_linePattern.mp hm
    refine ⟨w, group_linePattern o c lead suf w, pre ++ lead, suf, ?_, hsuf⟩
    rw [group_linePattern]
    simp only [List.append_assoc]
  refine ⟨hsound row, ?_⟩
  rintro ⟨w, rfl, hends⟩
  -- the pattern matches somewhere, and whatever it captures, the line ends in it
  obtain ⟨pre, suf, hs, hsuf⟩ := id hends
  have hmatch : Matches (linePattern o c) (pre.length == 0)
      ([] ++ (o ++ (w.text ++ (c ++ suf)))) _ :=
    matches_linePattern.mpr ⟨[], w, suf, by simp, hsuf, rfl, rfl⟩
  obtain ⟨ps, hps⟩ := regexec_isSome hmatch
  have hsome : submatch (linePattern o c) 1 s = some (group (linePattern o c) 1 ps) := by
    rw [submatch, show s = pre ++ ([] ++ (o ++ (w.text ++ (c ++ suf)))) by simpa using hs, hps]
    rfl
  obtain ⟨w', hw', hends'⟩ := hsound _ hsome
  rw [hw'] at hends'
  obtain ⟨p, q, hpq⟩ := hends.line_up hends' (endsSolid_row o hc w) (endsSolid_row o hc w')
  simp only [← List.append_assoc] at hpq
  obtain ⟨rfl, -⟩ := RowText.append_text_inj (List.append_cancel_right hpq)
  rw [hsome, hw']

theorem submatch_start {s row : List Char} :
    submatch mpatStart 1 s = some row ↔ ∃ w : RowText, row = '(' :: w.text ∧ EndsIn row s := by
  rw [show mpatStart = linePattern ['('] [] from rfl, submatch_linePattern (by simp)]
  simp

theorem submatch_mid {s row : List Char} :
    submatch mpatMid 1 s = some row ↔ ∃ w : RowText, row = w.text ∧ EndsIn row s := by
  rw [show mpatMid = linePattern [] [] from rfl, submatch_linePattern (by simp)]
  simp

theorem submatch_end {s row : List Char} :
    submatch mpatEnd 1 s = some row ↔ ∃ w : RowText, row = w.text ++ [')'] ∧ EndsIn row s := by
  rw [show mpatEnd = linePattern [] [')'] from rfl, submatch_linePattern (by simp [isSpace])]
  simp

/-! ## The joined text -/

/-- The joined text behind the first row: a separator and a row, or nothing, for each
line up to the last, and the last row with the parenthesis. -/
def segmentsText : List (Option RowText) → RowText → List Char
  | [], last => ';' :: (last.text ++ [')'])
  | none :: lines, last => ';' :: segmentsText lines last
  | some w :: lines, last => ';' :: (w.text ++ segmentsText lines last)

/-- The joined text. -/
def joinedText (first : RowText) (lines : List (Option RowText)) (last : RowText) : List Char :=
  '(' :: (first.text ++ segmentsText lines last)

/-- The first row on the lines. -/
def nextRow : List (Option RowText) → RowText → RowText
  | [], last => last
  | none :: lines, last => nextRow lines last
  | some w :: _, _ => w

/-- For each line its row, or the next there is. -/
def segmentRows : List (Option RowText) → RowText → List RowText
  | [], last => [last]
  | o :: lines, last => nextRow (o :: lines) last :: segmentRows lines last

/-- The numbers of a row, as `config_set_matrix` converts them. -/
def RowText.read (w : RowText) : Option (UInt8 × UInt8) :=
  match configNumber w.temp 255 with
  | none => none
  | some temp =>
    match configNumber w.speed 100 with
    | none => none
    | some speed => some (temp, speed)

theorem isBol_matv : ∀ n ∈ matvRegex, n.isBol = false := by
  simp [matvRegex, chr, digits, Node.isBol]

/-- What the matrix pattern matches. -/
theorem matches_matv {start : Bool} {s : List Char} {ps : List (List Char)} :
    Matches matvRegex start s ps ↔
      ∃ (x : Char) (w : RowText) (skip : List Char) (y : Char) (rest : List Char),
        (x = ';' ∨ x = '(') ∧ (y = ';' ∨ y = ')') ∧
        s = x :: (w.text ++ (skip ++ y :: rest)) ∧
        ps = [[x], ['\x27'], w.temp, [':'], [':'], w.speed, ['\x27'], skip, [y]] := by
  refine ⟨?_, ?_⟩
  · intro h₀
    obtain ⟨x, r, ps, hx, rfl, rfl, h₁⟩ := matches_one.mp h₀
    obtain ⟨r, ps, rfl, rfl, h₂⟩ := matches_chr.mp h₁
    obtain ⟨a, r, ps, ha, rfl, rfl, h₃⟩ := matches_digits.mp h₂
    obtain ⟨r, ps, rfl, rfl, h₄⟩ := matches_chr.mp h₃
    obtain ⟨r, ps, rfl, rfl, h₅⟩ := matches_chr.mp h₄
    obtain ⟨b, r, ps, hb, rfl, rfl, h₆⟩ := matches_digits.mp h₅
    obtain ⟨r, ps, rfl, rfl, h₇⟩ := matches_chr.mp h₆
    obtain ⟨skip, r, ps, rfl, rfl, -, -, h₈⟩ := h₇
    obtain ⟨y, r, ps, hy, rfl, rfl, rfl⟩ := matches_one.mp h₈
    refine ⟨x, ⟨a, b, ha, hb⟩, skip, y, r, by simpa using hx, by simpa using hy, ?_, rfl⟩
    simp [RowText.text]
  · rintro ⟨x, w, skip, y, rest, hx, hy, rfl, rfl⟩
    rw [RowText.text_append]
    refine matches_one.mpr ⟨x, _, _, by simpa using hx, rfl, rfl, ?_⟩
    refine matches_chr.mpr ⟨_, _, rfl, rfl, matches_digits.mpr ⟨_, _, _, w.temp_numeral, rfl, rfl,
      matches_chr.mpr ⟨_, _, rfl, rfl, matches_chr.mpr ⟨_, _, rfl, rfl,
        matches_digits.mpr ⟨_, _, _, w.speed_numeral, rfl, rfl,
          matches_chr.mpr ⟨_, _, rfl, rfl, ?_⟩⟩⟩⟩⟩⟩
    exact ⟨skip, _, _, rfl, rfl, trivial, by simp,
      matches_one.mpr ⟨y, rest, [], by simpa using hy, rfl, rfl, rfl⟩⟩

/-- A row behind a separator is read, if another separator or the end follows. -/
theorem configMatrixRow_row {x y : Char} {w : RowText} {rest : List Char}
    (hx : x = ';' ∨ x = '(') (hy : y = ';' ∨ y = ')') :
    configMatrixRow (x :: (w.text ++ y :: rest)) = w.read := by
  have hmatch : Matches matvRegex true (x :: (w.text ++ y :: rest)) _ :=
    matches_matv.mpr ⟨x, w, [], y, rest, hx, hy, rfl, rfl⟩
  obtain ⟨ps, hps, hm⟩ := search_here hmatch
  obtain ⟨x', v, skip', y', rest', -, -, htext, rfl⟩ := matches_matv.mp hm
  obtain ⟨-, htext⟩ := List.cons.inj htext
  obtain ⟨rfl, -⟩ := RowText.text_append_inj htext
  have hgroup : ∀ k, group matvRegex k
      [[x'], ['\x27'], w.temp, [':'], [':'], w.speed, ['\x27'], skip', [y']] =
        if k = 0 then [x', '\x27', ':', ':', '\x27'] ++ skip' ++ [y']
        else if k = 1 then w.temp else if k = 2 then w.speed else [] := by
    intro k
    match k with
    | 0 => simp [group, matvRegex, chr, digits]
    | 1 => simp [group, matvRegex, chr, digits]
    | 2 => simp [group, matvRegex, chr, digits]
    | k + 3 => simp [group, matvRegex, chr, digits]
  simp only [configMatrixRow, regexec, hps, hgroup]
  rfl

/-- An empty segment is passed over. -/
theorem configMatrixRow_skip (s : List Char) :
    configMatrixRow (';' :: ';' :: s) = configMatrixRow (';' :: s) := by
  have hno : ∀ ps, ¬ Matches matvRegex true (';' :: ';' :: s) ps := by
    intro ps hm
    obtain ⟨x, w, skip, y, rest, -, -, htext, -⟩ := matches_matv.mp hm
    rw [RowText.text_append] at htext
    obtain ⟨-, htext⟩ := List.cons.inj htext
    obtain ⟨habs, -⟩ := List.cons.inj htext
    exact absurd habs (by decide)
  rw [configMatrixRow, regexec_skip isBol_matv hno, ← configMatrixRow]

theorem segmentsText_cons (lines : List (Option RowText)) (last : RowText) :
    ∃ rest, segmentsText lines last = ';' :: rest := by
  rcases lines with _ | ⟨_ | v, lines⟩
  · exact ⟨_, rfl⟩
  · exact ⟨_, rfl⟩
  · exact ⟨_, rfl⟩

theorem configMatrixRow_segments (lines : List (Option RowText)) (last : RowText) :
    configMatrixRow (segmentsText lines last) = (nextRow lines last).read := by
  induction lines with
  | nil =>
    rw [segmentsText]
    exact configMatrixRow_row (Or.inl rfl) (Or.inr rfl)
  | cons o lines ih =>
    -- what is behind the separator, or behind the row, begins with the next separator
    obtain ⟨rest, hrest⟩ := segmentsText_cons lines last
    cases o with
    | none =>
      rw [segmentsText, hrest, configMatrixRow_skip, ← hrest, ih]
      rfl
    | some w =>
      rw [segmentsText, hrest]
      exact configMatrixRow_row (Or.inl rfl) (Or.inl rfl)

theorem strchr_segments (lines : List (Option RowText)) (last : RowText) :
    strchr ';' (segmentsText lines last) = some (segmentsText lines last) := by
  obtain ⟨rest, hrest⟩ := segmentsText_cons lines last
  rw [hrest]
  exact strchr_self ..

theorem matrixRows_succ {n : ℕ} {value : List Char} {w : RowText} {rows : List RowText}
    (hrow : configMatrixRow value = w.read)
    (hrest : matrixRows n (strchr ';' (value.drop 1)) = rows.mapM RowText.read) :
    matrixRows (n + 1) (some value) = (w :: rows).mapM RowText.read := by
  rw [matrixRows, hrow, hrest, List.mapM_cons]
  rcases w.read with _ | row
  · rfl
  · rcases rows.mapM RowText.read with _ | rows
    · rfl
    · rfl

/-- `config_set_matrix` reads one row for each segment. -/
theorem matrixRows_segments (n : ℕ) (lines : List (Option RowText)) (last : RowText) :
    matrixRows n (some (segmentsText lines last)) =
      ((segmentRows lines last).take n).mapM RowText.read := by
  induction lines generalizing n with
  | nil =>
    cases n with
    | zero => rfl
    | succ n =>
      refine matrixRows_succ (configMatrixRow_segments [] last) ?_
      have hnone : strchr ';' (last.text ++ [')']) = none :=
        strchr_eq_none (by simp [last.semicolon_not_mem])
      rw [segmentsText, List.drop_one, List.tail_cons, hnone]
      cases n <;> rfl
  | cons o lines ih =>
    cases n with
    | zero => rfl
    | succ n =>
      refine matrixRows_succ (configMatrixRow_segments (o :: lines) last) ?_
      cases o with
      | none => rw [segmentsText, List.drop_one, List.tail_cons, strchr_segments, ih]
      | some w =>
        rw [segmentsText, List.drop_one, List.tail_cons, strchr_append w.semicolon_not_mem,
          strchr_segments, ih]

/-- `config_set_matrix` on a joined text. -/
theorem matrixRows_joined (n : ℕ) (first : RowText) (lines : List (Option RowText))
    (last : RowText) :
    matrixRows n (some (joinedText first lines last)) =
      ((first :: segmentRows lines last).take n).mapM RowText.read := by
  cases n with
  | zero => rfl
  | succ n =>
    refine matrixRows_succ ?_ ?_
    · obtain ⟨rest, hrest⟩ := segmentsText_cons lines last
      rw [joinedText, hrest]
      exact configMatrixRow_row (Or.inr rfl) (Or.inl rfl)
    · rw [joinedText, List.drop_one, List.tail_cons, strchr_append first.semicolon_not_mem,
        strchr_segments, matrixRows_segments]

/-! ## Joining the lines -/

/-- The row that a line adds to the joined text, or that it adds none. -/
def LineHas (line : List Char) : Option RowText → Prop
  | some w => EndsIn w.text (cstr line)
  | none => submatch mpatMid 1 (cstr line) = none ∧ submatch mpatEnd 1 (cstr line) = none

/-- The line closes the matrix with a row. -/
def LineCloses (line : List Char) (w : RowText) : Prop := EndsIn (w.text ++ [')']) (cstr line)

theorem LineHas.submatch_mid {line : List Char} {w : RowText} (h : LineHas line (some w)) :
    submatch mpatMid 1 (cstr line) = some w.text :=
  AmdgpuFand.submatch_mid.mpr ⟨w, rfl, h⟩

theorem LineCloses.submatch_end {line : List Char} {w : RowText} (h : LineCloses line w) :
    submatch mpatEnd 1 (cstr line) = some (w.text ++ [')']) :=
  AmdgpuFand.submatch_end.mpr ⟨w, rfl, h⟩

/-- A line that closes the matrix does not end in a bare row. -/
theorem LineCloses.submatch_mid {line : List Char} {w : RowText} (h : LineCloses line w) :
    submatch mpatMid 1 (cstr line) = none := by
  rcases hmid : submatch mpatMid 1 (cstr line) with _ | row
  · rfl
  · obtain ⟨v, rfl, hends⟩ := AmdgpuFand.submatch_mid.mp hmid
    obtain ⟨p, q, hpq⟩ := EndsIn.line_up hends h
      (by simpa using endsSolid_row [] (c := []) (by simp) v)
      (by simpa using endsSolid_row [] (c := [')']) (by simp [isSpace]) w)
    have hquote : p ++ v.text =
        (p ++ '\x27' :: (v.temp ++ ':' :: ':' :: v.speed)) ++ ['\x27'] := by
      simp [RowText.text]
    rw [hquote, ← List.append_assoc] at hpq
    exact absurd (List.append_inj_right' hpq rfl) (by decide)

section Join

variable {v row : List Char} {valsize : ℕ}

/-- Text that has been joined without running out of room. -/
def Joined.whole (v : List Char) : Joined := ⟨v, v.length⟩

theorem putSeparator_whole (h : v.length + 1 < valsize) :
    (Joined.whole v).putSeparator valsize = Joined.whole (v ++ [';']) := by
  have hcopy : strscpyStr [';'] (valsize - (Joined.whole v).pos.toNat) = (1, [';']) := by
    refine if_pos ?_
    simp only [Joined.whole, Int.toNat_natCast, List.length_singleton]
    omega
  rw [Joined.putSeparator, hcopy]
  simp [Joined.put, Joined.whole]

theorem putRow_whole (h : v.length + row.length < valsize) :
    (Joined.whole v).putRow valsize row = Joined.whole (v ++ row) := by
  have hcopy : strsncpyStr row (valsize - (Joined.whole v).pos.toNat) row.length =
      ((row.length : ℤ), row) := by
    simp only [Joined.whole, Int.toNat_natCast]
    exact strsncpyStr_fits (by omega)
  rw [Joined.putRow, hcopy]
  simp [Joined.put, Joined.whole]

theorem whole_pos (v : List Char) : ¬ (Joined.whole v).pos < 0 := by
  simp [Joined.whole]

/-- Lines whose text fits the buffer are joined whole. -/
theorem configAppendLoop_text {lines : List (List Char)} {segments : List (Option RowText)}
    (hlines : List.Forall₂ LineHas lines segments) {line : List Char} {last : RowText}
    (hlast : LineCloses line last) (fp : List (List Char)) {k : ℕ}
    (hk : k + lines.length + 1 ≤ maxTempThresholds)
    (hfits : (v ++ segmentsText segments last).length < valsize) :
    configAppendLoop valsize (lines ++ line :: fp) k (Joined.whole v) =
      some (v ++ segmentsText segments last, fp) := by
  induction hlines generalizing v k with
  | nil =>
    simp only [segmentsText, List.length_append, List.length_cons, List.length_nil] at hfits
    have hcount : ¬ matrixMaxSize / 2 < k + 1 := Nat.not_lt.mpr hk
    have hrow : (v ++ [';']).length + (last.text ++ [')']).length < valsize := by
      simp only [List.length_append, List.length_cons, List.length_nil]
      omega
    simp only [List.nil_append, configAppendLoop, if_neg hcount, hlast.submatch_mid,
      hlast.submatch_end, putSeparator_whole (by omega : v.length + 1 < valsize),
      putRow_whole hrow, if_neg (whole_pos _)]
    simp [Joined.whole, segmentsText]
  | @cons line' o lines segments hline _ ih =>
    have hcount : ¬ matrixMaxSize / 2 < k + 1 :=
      Nat.not_lt.mpr (le_trans (by rw [List.length_cons]; omega) hk)
    have hk' : k + 1 + lines.length + 1 ≤ maxTempThresholds :=
      le_trans (by rw [List.length_cons]; omega) hk
    cases o with
    | none =>
      simp only [segmentsText, List.length_append, List.length_cons] at hfits
      -- a line without a row leaves its separator
      have hrest := ih hk' (v := v ++ [';']) (by
        simp only [List.length_append, List.length_cons, List.length_nil]
        omega)
      simp only [List.cons_append, configAppendLoop, if_neg hcount, hline.1, hline.2,
        putSeparator_whole (by omega : v.length + 1 < valsize), if_neg (whole_pos _), hrest]
      simp [segmentsText]
    | some w =>
      simp only [segmentsText, List.length_append, List.length_cons] at hfits
      have hrow : (v ++ [';']).length + w.text.length < valsize := by
        simp only [List.length_append, List.length_cons, List.length_nil]
        omega
      have hrest := ih hk' (v := v ++ [';'] ++ w.text) (by
        simp only [List.length_append, List.length_cons, List.length_nil]
        omega)
      simp only [List.cons_append, configAppendLoop, if_neg hcount, hline.submatch_mid,
        putSeparator_whole (by omega : v.length + 1 < valsize), putRow_whole hrow,
        if_neg (whole_pos _), hrest]
      simp [segmentsText]

end Join

/-- The header row is part of the joined text. -/
theorem header_length_le (first : RowText) (lines : List (Option RowText)) (last : RowText) :
    ('(' :: first.text).length ≤ (joinedText first lines last).length := by
  simp [joinedText]

/-- A matrix whose text fits the buffer is joined whole. -/
theorem configAppendMatrixRows_text {value : List Char} {first : RowText}
    (hvalue : EndsIn ('(' :: first.text) value) {lines : List (List Char)}
    {segments : List (Option RowText)} (hlines : List.Forall₂ LineHas lines segments)
    {line : List Char} {last : RowText} (hlast : LineCloses line last)
    (hcount : lines.length + 1 ≤ maxTempThresholds) {valsize : ℕ}
    (hheader : ('(' :: first.text).length < configBufferSize)
    (hfits : (joinedText first segments last).length < valsize) (fp : List (List Char)) :
    configAppendMatrixRows value valsize (lines ++ line :: fp) =
      some (joinedText first segments last, fp) := by
  have hlen := lt_of_le_of_lt (header_length_le first segments last) hfits
  have hstart := submatch_start.mpr ⟨first, rfl, hvalue⟩
  have hbuffer := strsncpyStr_fits hheader
  have hpos : strscpyStr ('(' :: first.text) valsize =
      ((('(' :: first.text).length : ℤ), '(' :: first.text) := if_pos hlen
  have hloop := configAppendLoop_text (v := '(' :: first.text) hlines hlast fp (k := 0)
    (by rwa [Nat.zero_add]) hfits
  have hnonneg : ¬ ((('(' :: first.text).length : ℕ) : ℤ) < 0 := by omega
  simp only [configAppendMatrixRows, hstart, hbuffer, if_neg hnonneg, hpos]
  exact hloop

/-- Whenever the lines of a matrix are joined at all, they are sixteen at most, and the
last one closes the matrix. -/
theorem configAppendLoop_lines {valsize : ℕ} {fp : List (List Char)} {k : ℕ} {j : Joined}
    {text : List Char} {rest : List (List Char)}
    (h : configAppendLoop valsize fp k j = some (text, rest)) :
    ∃ lines segments line last, fp = lines ++ line :: rest ∧
      List.Forall₂ LineHas lines segments ∧ LineCloses line last ∧
      k + lines.length + 1 ≤ maxTempThresholds := by
  induction fp generalizing k j with
  | nil => cases h
  | cons line fp ih =>
    simp only [configAppendLoop] at h
    split_ifs at h with hcount hsep
    rcases hmid : submatch mpatMid 1 (cstr line) with _ | row
    · rw [hmid] at h
      rcases hend : submatch mpatEnd 1 (cstr line) with _ | row
      · rw [hend] at h
        obtain ⟨lines, segments, line', last, rfl, hlines, hlast, hk⟩ := ih h
        refine ⟨line :: lines, none :: segments, line', last, rfl,
          .cons ⟨hmid, hend⟩ hlines, hlast, ?_⟩
        rw [List.length_cons]
        omega
      · rw [hend] at h
        dsimp only at h
        split_ifs at h with hrow
        cases h
        obtain ⟨last, rfl, hlast⟩ := submatch_end.mp hend
        -- the last line: it has the closing parenthesis
        exact ⟨[], [], line, last, rfl, .nil, hlast, Nat.not_lt.mp hcount⟩
    · rw [hmid] at h
      dsimp only at h
      split_ifs at h with hrow
      obtain ⟨w, rfl, hw⟩ := submatch_mid.mp hmid
      obtain ⟨lines, segments, line', last, rfl, hlines, hlast, hk⟩ := ih h
      refine ⟨line :: lines, some w :: segments, line', last, rfl, .cons hw hlines, hlast, ?_⟩
      rw [List.length_cons]
      omega

theorem configAppendMatrixRows_lines {value : List Char} {valsize : ℕ} {fp : List (List Char)}
    {text : List Char} {rest : List (List Char)}
    (h : configAppendMatrixRows value valsize fp = some (text, rest)) :
    ∃ first lines segments line last, EndsIn ('(' :: RowText.text first) value ∧
      fp = lines ++ line :: rest ∧ List.Forall₂ LineHas lines segments ∧ LineCloses line last ∧
      lines.length + 1 ≤ maxTempThresholds := by
  simp only [configAppendMatrixRows] at h
  rcases hstart : submatch mpatStart 1 value with _ | row
  · rw [hstart] at h
    cases h
  · rw [hstart] at h
    dsimp only at h
    split_ifs at h with hbuffer hpos
    obtain ⟨first, rfl, hfirst⟩ := submatch_start.mp hstart
    obtain ⟨lines, segments, line, last, rfl, hlines, hlast, hcount⟩ := configAppendLoop_lines h
    rw [Nat.zero_add] at hcount
    exact ⟨first, lines, segments, line, last, hfirst, rfl, hlines, hlast, hcount⟩

/-! ## Numbers -/

theorem IsNumeral.lt_of_length {ds : List Char} (hds : IsNumeral ds)
    (hlen : ds.length < configNumbufSize) : Nat.ofDigitChars 10 ds 0 < 2 ^ 64 := by
  have hpow : 10 ^ ds.length ≤ 10 ^ 3 := Nat.pow_le_pow_right (by decide) (Nat.le_of_lt_succ hlen)
  exact lt_of_lt_of_le (ofDigitChars_lt hds.2) (le_trans hpow (by decide))

/-- A numeral that is accepted is stored with its value. -/
theorem configNumber_value {ds : List Char} {high : UInt64} {x : UInt8} (hds : IsNumeral ds)
    (hhigh : high.toNat ≤ 255) (h : configNumber ds high = some x) :
    x.toNat = Nat.ofDigitChars 10 ds 0 := by
  simp only [configNumber] at h
  split_ifs at h with hbuf hrange
  have hlen : ds.length < configNumbufSize := by
    by_contra hlong
    rw [strsncpyStr, if_pos (Nat.not_lt.mp hlong)] at hbuf
    exact hbuf (by decide : (-e2big : ℤ) < 0)
  have hlt := hds.lt_of_length hlen
  rw [strsncpyStr_fits hlen] at h hrange
  obtain ⟨-, hle⟩ := strstoulRange_mem (not_not.mp hrange)
  rw [strstoulRange_snd, strstoul_digits hds.1 hds.2 hlt, UInt64.le_iff_toNat_le] at hle
  rw [strstoulRange_snd, strstoul_digits hds.1 hds.2 hlt] at h
  have hnat : (UInt64.ofNat (Nat.ofDigitChars 10 ds 0)).toNat = Nat.ofDigitChars 10 ds 0 :=
    UInt64.toNat_ofNat_of_lt' hlt
  cases h
  rw [UInt64.toNat_toUInt8, Nat.mod_eq_of_lt (by omega), hnat]

/-- A numeral of at most three digits that is in range is accepted. -/
theorem configNumber_some {ds : List Char} {high : UInt64} (hds : IsNumeral ds)
    (hlen : ds.length < configNumbufSize) (hle : Nat.ofDigitChars 10 ds 0 ≤ high.toNat) :
    ∃ x, configNumber ds high = some x := by
  have hnonneg : ¬ ((ds.length : ℕ) : ℤ) < 0 := by omega
  have hrange : strstoulRange ds 0 high = _ :=
    strstoulRange_digits hds.1 hds.2 (hds.lt_of_length hlen) (Nat.zero_le _) hle
  simp only [configNumber, strsncpyStr_fits hlen, if_neg hnonneg, hrange, ne_eq,
    not_true_eq_false, if_false]
  exact ⟨_, rfl⟩

theorem RowText.read_value {w : RowText} {row : UInt8 × UInt8} (h : w.read = some row) :
    (row.1.toNat, row.2.toNat) = w.value := by
  simp only [RowText.read] at h
  rcases htemp : configNumber w.temp 255 with _ | temp
  · rw [htemp] at h
    cases h
  · rw [htemp] at h
    rcases hspeed : configNumber w.speed 100 with _ | speed
    · rw [hspeed] at h
      cases h
    · rw [hspeed] at h
      cases h
      rw [RowText.value, configNumber_value w.temp_numeral (by decide) htemp,
        configNumber_value w.speed_numeral (by decide) hspeed]

/-- The rows of a matrix that is accepted have the values that are written. -/
theorem mapM_read_value {ws : List RowText} {rows : List (UInt8 × UInt8)}
    (h : ws.mapM RowText.read = some rows) :
    rows.map (fun row => (row.1.toNat, row.2.toNat)) = ws.map RowText.value := by
  induction ws generalizing rows with
  | nil =>
    cases h
    rfl
  | cons w ws ih =>
    rw [List.mapM_cons] at h
    obtain ⟨row, hrow, h⟩ := Option.bind_eq_some_iff.mp h
    obtain ⟨rest, hrest, h⟩ := Option.bind_eq_some_iff.mp h
    cases h
    rw [List.map_cons, List.map_cons, ih hrest, RowText.read_value hrow]

/-- A matrix setting read off a joined text has the rows of its segments. -/
theorem read_joined {first : RowText} {lines : List (Option RowText)} {last : RowText}
    {s : Setting} (h : ConfigKey.matrix.read (joinedText first lines last) = some s) :
    ∃ rows, s = .matrix rows ∧ rows.length < maxTempThresholds ∧
      rows.map (fun row => (row.1.toNat, row.2.toNat)) =
        (first :: segmentRows lines last).map RowText.value := by
  obtain ⟨rows, hrows, hlen, rfl⟩ := ConfigKey.read_matrix_eq_some h
  rw [matrixRows_joined] at hrows
  have hvalue := mapM_read_value hrows
  have hcount := congrArg List.length hvalue
  rw [List.length_map, List.length_map, List.length_take] at hcount
  have hlt : rows.length < maxTempThresholds := by
    refine lt_of_le_of_ne ?_ hlen
    rw [hcount]
    exact Nat.min_le_left _ _
  refine ⟨rows, rfl, hlt, ?_⟩
  -- fewer rows than there is room for: nothing was cut off
  have hall : (first :: segmentRows lines last).length ≤ maxTempThresholds := by omega
  rwa [List.take_of_length_le hall] at hvalue

end AmdgpuFand

import AmdgpuFand.Reach

/-!
# Comments

A `#` and what follows it on the line should not matter. `config_parse` cuts a line off at
the `#`, but a line is what `fgets` put into a buffer of 256 characters: a comment that does
not fit is continued on the next line as far as the parser is concerned, without its `#`.
And the loop of `config_append_matrix_rows` does not look for a `#` at all.

So the comment is inert where the parser has stopped before it, outside of a matrix if the rest
that does not fit is blank, and inside of one if the loop takes the same off the line with either
text (`Stopped`, `Outside`, `Inside`). Of the comments that fit, those inside a matrix are the only
ones that can change what is read from a file; and in every file there is a comment, of a length
that does not fit, that makes the parser reject it (`configParse_comment`).
-/

namespace AmdgpuFand

open CLib Ere

/-- What the parser sees of a line with a `#` in it ends there. -/
theorem configLine_comment (pre comment : List Char) :
    configLine (pre ++ '#' :: comment) = configLine (pre ++ ['#']) := by
  have hcut : ∀ p : Char → Bool, p '#' = false →
      (pre ++ '#' :: comment).takeWhile p = (pre ++ ['#']).takeWhile p := by
    intro p hp
    rw [List.takeWhile_append, List.takeWhile_append, List.takeWhile_cons_of_neg (by simp [hp]),
      List.takeWhile_cons_of_neg (by simp [hp])]
  simp only [configLine, configStripComments, configReplaceChar, cstr, List.takeWhile_takeWhile]
  exact hcut _ (by decide)

/-! ## A comment that is read by the loop -/

/-- The loop of `config_append_matrix_rows`, having come behind the lines before, takes the same off
the pieces of two lines: off all of them, of which only the last may close the matrix, or up to a
place behind which it does not look. -/
def SameRows (before pieces pieces' : List (List Char)) : Prop :=
  ∃ p q p' q', pieces = p ++ q ∧ pieces' = p' ++ q' ∧ p.map takenText = p'.map takenText ∧
    (∀ line ∈ p.dropLast, ')' ∉ takenText line) ∧
    (q = [] ∧ q' = [] ∨ reachAt (before ++ p ++ [['#']]) = .stopped)

/-- The parser then comes to the same result. -/
theorem configParseLoop_sameRows {before pieces pieces' : List (List Char)}
    (h : reachAt before = .inside) (hsame : SameRows before pieces pieces')
    (more : List (List Char)) (data : FandConfig) :
    configParseLoop (before ++ (pieces' ++ more)).length (before ++ (pieces' ++ more)) data =
      configParseLoop (before ++ (pieces ++ more)).length (before ++ (pieces ++ more)) data := by
  obtain ⟨p, q, p', q', rfl, rfl, htaken, hopen, hend⟩ := hsame
  have hlen : p.length = p'.length := by simpa using congrArg List.length htaken
  obtain ⟨i, hi, data', k, j, -, hloop⟩ := configParseLoop_inside (le_refl _) h data
  have hsame : ∀ n more, before.length ≤ n →
      configParseLoop n (before ++ (p' ++ more)) data =
        configParseLoop n (before ++ (p ++ more)) data := by
    intro n more hn
    obtain ⟨n, rfl⟩ := Nat.exists_eq_add_of_le' (hi.trans hn)
    rw [(hloop n _).2, (hloop n _).2, configAppendLoop_congr htaken hopen]
  have hroom : ∀ l : List (List Char), before.length ≤ (before ++ l).length := fun l => by simp
  rw [List.append_assoc, List.append_assoc, hsame _ _ (hroom _)]
  rcases hend with ⟨rfl, rfl⟩ | hstops
  · simp only [List.length_append, hlen]
  · -- what is left of the pieces is not read
    obtain ⟨r, -, hr⟩ := configParseLoop_stops hstops data
    have hall : ∀ n more, (before ++ p).length ≤ n →
        configParseLoop n (before ++ (p ++ more)) data = r := by
      intro n more hn
      rw [← List.append_assoc]
      exact hr n more hn
    rw [hall _ _ (by simp [hlen]), hall _ _ (by simp)]

/-- Blank lines are skipped. -/
theorem configParseLoop_blank {blank : List (List Char)}
    (h : ∀ line ∈ blank, configLineEmpty (configLine line) = true) (n : ℕ)
    (more : List (List Char)) (data : FandConfig) :
    configParseLoop (n + blank.length) (blank ++ more) data = configParseLoop n more data := by
  induction blank with
  | nil => rfl
  | cons line blank ih =>
    rw [List.length_cons, ← Nat.add_assoc, List.cons_append, configParseLoop,
      if_pos (h line (List.mem_cons_self ..)), ih fun l hl => h l (List.mem_cons_of_mem line hl)]

/-! ## A comment with a row in it -/

/-- A row with a temperature that no matrix can hold. -/
def hotRow : RowText := ⟨['2', '5', '6'], ['0'], by simp [IsNumeral], by simp [IsNumeral]⟩

/-- It closes the matrix. -/
def badRow : List Char := hotRow.text ++ [')']

/-- The text does not end in a row that can be stored. -/
def EndsBadly (value : List Char) : Prop := ')' ∉ value ∨ ∃ u, value = u ++ ';' :: badRow

/-- Of such a text a row is read only if there is another one behind it. -/
theorem EndsBadly.row {value : List Char} (h : EndsBadly value) :
    configMatrixRow value = none ∨
      ∃ value', strchr ';' (value.drop 1) = some value' ∧ EndsBadly value' := by
  obtain hparen | ⟨u, rfl⟩ := h
  · by_cases hmem : ';' ∈ value.drop 1
    · obtain ⟨as, bs, hsplit, hnot⟩ := List.eq_append_cons_of_mem hmem
      refine Or.inr ⟨';' :: bs, by rw [hsplit, strchr_append hnot, strchr_self],
        Or.inl fun hin => ?_⟩
      refine hparen (List.mem_of_mem_drop (i := 1) ?_)
      rw [hsplit]
      exact List.mem_append_right as hin
    · refine Or.inl ?_
      rcases hreg : regexec matvRegex value with _ | ps
      · rw [configMatrixRow, hreg]
      · exfalso
        obtain ⟨pre, suf, rfl, hmatch⟩ := regexec_matches hreg
        obtain ⟨x, w, skip, y, rest, -, hy, rfl, -⟩ := matches_matv.mp hmatch
        have hlast : y ∈ (pre ++ x :: (w.text ++ (skip ++ y :: rest))).drop 1 := by
          cases pre <;> simp
        rcases hy with rfl | rfl
        · exact hmem hlast
        · exact hparen (List.mem_of_mem_drop hlast)
  · cases u with
    | nil => exact Or.inl (by decide)
    | cons a u =>
      refine Or.inr ?_
      by_cases hmem : ';' ∈ u
      · obtain ⟨as, bs, rfl, hnot⟩ := List.eq_append_cons_of_mem hmem
        refine ⟨';' :: bs ++ ';' :: badRow, ?_, Or.inr ⟨_, rfl⟩⟩
        rw [List.cons_append, List.drop_one, List.tail_cons, List.append_assoc, strchr_append hnot,
          List.cons_append, strchr_self]
      · refine ⟨';' :: badRow, ?_, Or.inr ⟨[], rfl⟩⟩
        rw [List.cons_append, List.drop_one, List.tail_cons, strchr_append hmem, strchr_self]

/-- So `config_set_matrix` finds an error or, in this array, too many rows, -/
theorem configSetMatrixLoop_endsBadly {n i : ℕ} {value : List Char} {data : FandConfig}
    (h : EndsBadly value) :
    (configSetMatrixLoop n i (some value) data).1 ≠ 0 ∨
      (configSetMatrixLoop n i (some value) data).2.1 = i + n := by
  induction n generalizing i value data with
  | zero => exact Or.inr rfl
  | succ n ih =>
    rw [configSetMatrixLoop]
    rcases hrow : configMatrixRow value with _ | row
    · exact Or.inl (by decide : (-1 : ℤ) ≠ 0)
    · obtain hnone | ⟨value', hnext, hvalue'⟩ := h.row
      · rw [hrow] at hnone
        cases hnone
      · dsimp only
        rw [hnext, show i + (n + 1) = i + 1 + n by omega]
        exact ih hvalue'

/-- and fails. -/
theorem configSetMatrix_endsBadly {value : List Char} (h : EndsBadly value) (data : FandConfig) :
    (configSetMatrix data value).1 ≠ 0 := by
  have hloop := @configSetMatrixLoop_endsBadly maxTempThresholds 0 value data h
  rw [Nat.zero_add] at hloop
  rw [configSetMatrix]
  dsimp only
  split_ifs with hstatus hcount
  · exact hstatus
  · exact (by decide : (-1 : ℤ) ≠ 0)
  · exact absurd hloop (not_or.mpr ⟨not_not.mpr (not_not.mp hstatus), hcount⟩)

/-- Whatever has been joined before, a text that this row is put to ends badly. -/
theorem Joined.Open.endsBadly {j : Joined} (hj : j.Open configBufferSize) :
    EndsBadly ((j.putSeparator configBufferSize).putRow configBufferSize badRow).value := by
  obtain ⟨⟨pos, hpos, hlt⟩, hvalue⟩ := hj
  have hsize : configBufferSize = 256 := rfl
  have hfront : ∀ n, ')' ∉ j.value.take n := fun n hmem => hvalue (List.mem_of_mem_take hmem)
  -- only the whole row ends in a parenthesis
  have hcut : ∀ n, n ≤ 8 → ')' ∉ badRow.take n := by
    intro n hn hmem
    rw [badRow, List.take_append_of_le_length hn] at hmem
    exact hotRow.paren_not_mem (List.mem_of_mem_take hmem)
  rw [hsize] at hlt ⊢
  by_cases hsep : pos + 1 < 256
  · have hput : j.putSeparator 256 = ⟨j.value.take pos ++ [';'], (pos + 1 : ℕ)⟩ := by
      rw [Joined.putSeparator, Joined.put, hpos, Int.toNat_natCast, strscpyStr,
        if_pos (by simp; omega)]
      simp
    have hwhole : (j.value.take pos ++ [';']).take (pos + 1) = j.value.take pos ++ [';'] :=
      List.take_of_length_le (by
        rw [List.length_append, List.length_take, List.length_singleton]
        omega)
    rw [hput, Joined.putRow, Joined.put]
    dsimp only
    rw [Int.toNat_natCast, hwhole]
    -- the row is put behind its separator, or cut
    by_cases hfits : badRow.length < 256 - (pos + 1)
    · rw [strsncpyStr_fits hfits]
      exact Or.inr ⟨j.value.take pos, by simp⟩
    · refine Or.inl fun hmem => ?_
      have hlen : badRow.length = 9 := by decide
      rw [strsncpyStr, if_pos (not_lt.mp hfits)] at hmem
      rcases List.mem_append.mp hmem with hmem | hmem
      · rcases List.mem_append.mp hmem with hmem | hmem
        · exact hfront _ hmem
        · exact absurd hmem (by decide)
      · exact hcut _ (by omega) hmem
  · -- the separator has no room, and the row is written where seven characters were
    obtain rfl : pos = 255 := by omega
    have hput : j.putSeparator 256 = ⟨j.value.take 255, 248⟩ := by
      rw [Joined.putSeparator, Joined.put, hpos]
      simp [strscpyStr, e2big]
    rw [hput, Joined.putRow, Joined.put]
    refine Or.inl fun hmem => ?_
    rcases List.mem_append.mp hmem with hmem | hmem
    · exact hfront _ (List.mem_of_mem_take hmem)
    · exact hcut 7 (by decide) hmem

/-! ## A comment that is too long -/

/-- A line of the parser that is full of the letter x. -/
def longLine : List Char := List.replicate (configBufferSize - 1) 'x'

theorem longLine_ne {c : Char} (hc : c ≠ 'x') : c ∉ longLine :=
  fun h => hc (List.eq_of_mem_replicate h)

theorem cstr_longLine : cstr longLine = longLine := cstr_eq_self (longLine_ne (by decide))

theorem configLine_longLine : configLine longLine = longLine := by
  have hkeep : ∀ d : Char, d ≠ 'x' → configReplaceChar d longLine = longLine :=
    fun d hd => List.takeWhile_eq_self_iff.mpr fun c hc => by
      rw [List.eq_of_mem_replicate hc]
      simpa using Ne.symm hd
  rw [configLine, cstr_longLine, hkeep _ (by decide), configStripComments, hkeep _ (by decide)]

/-- It is no setting, -/
theorem configSetting_longLine (fp : List (List Char)) : configSetting longLine fp = none := by
  have hpair : configPair longLine = none := by
    rcases hp : configPair longLine with _ | pair
    · rfl
    · exact absurd (equals_mem_of_configPair hp) (longLine_ne (by decide))
  rw [configSetting, hpair]

/-- and it does not close a matrix. -/
theorem not_lineCloses_longLine (last : RowText) : ¬ LineCloses longLine last := by
  rintro ⟨pre, suf, htext, -⟩
  rw [cstr_longLine] at htext
  refine longLine_ne (c := ')') (by decide) ?_
  rw [htext]
  simp

/-- A matrix has no room for sixteen of these lines: the line that closes it stands before
them. -/
theorem lineCloses_before_longLines {fp lines more rest : List (List Char)} {closing : List Char}
    {last : RowText} (hlast : LineCloses closing last)
    (hcount : lines.length + 1 ≤ maxTempThresholds)
    (h : fp ++ (List.replicate maxTempThresholds longLine ++ more) = lines ++ closing :: rest) :
    ∃ rest', fp = lines ++ closing :: rest' ∧
      rest = rest' ++ (List.replicate maxTempThresholds longLine ++ more) := by
  have hnot : ∀ l : List (List Char), l.length < maxTempThresholds →
      List.replicate maxTempThresholds longLine ++ more ≠ l ++ closing :: rest := by
    intro l hl heq
    have hlen : l.length < (List.replicate maxTempThresholds longLine).length := by
      rwa [List.length_replicate]
    have hget := congrArg (·[l.length]?) heq
    simp only [List.getElem?_append_left hlen,
      List.getElem?_replicate_of_lt hl, List.getElem?_append_right (le_refl _), Nat.sub_self,
      List.getElem?_cons_zero, Option.some.injEq] at hget
    subst hget
    exact not_lineCloses_longLine last hlast
  rcases List.append_eq_append_iff.mp h with ⟨l, rfl, hl⟩ | ⟨l, rfl, hl⟩
  · refine absurd hl (hnot l ?_)
    rw [List.length_append] at hcount
    omega
  · cases l with
    | nil => exact absurd hl.symm (hnot [] (by decide))
    | cons line rest' =>
      obtain ⟨rfl, rfl⟩ := List.cons.inj hl
      exact ⟨rest', rfl, rfl⟩

/-- A parser that comes to so many of these lines that no matrix can have them all in it
rejects the file, whatever it has read before. -/
theorem configSettingsLoop_longLines {n : ℕ} {fp : List (List Char)} (hn : fp.length < n)
    (more : List (List Char)) :
    configSettingsLoop n (fp ++ (List.replicate maxTempThresholds longLine ++ more)) = none := by
  induction n generalizing fp with
  | zero => exact absurd hn (Nat.not_lt_zero _)
  | succ n ih =>
    cases fp with
    | nil =>
      have hempty : ¬ configLineEmpty longLine = true := by decide
      rw [List.nil_append, List.replicate_succ, List.cons_append, configSettingsLoop,
        configLine_longLine, if_neg hempty, configSetting_longLine]
    | cons line fp =>
      rw [List.length_cons] at hn
      rw [List.cons_append, configSettingsLoop]
      split_ifs with hempty
      · exact ih (Nat.lt_of_succ_lt_succ hn)
      · rcases hset : configSetting (configLine line)
          (fp ++ (List.replicate maxTempThresholds longLine ++ more)) with _ | ⟨k, value, rest⟩
        · rfl
        · dsimp only
          rcases k.read value with _ | s
          · rfl
          · obtain rfl | ⟨lines, closing, last, hfp, hlast, hcount⟩ := configSetting_rest hset
            · rw [ih (Nat.lt_of_succ_lt_succ hn)]
              rfl
            · obtain ⟨rest', rfl, rfl⟩ := lineCloses_before_longLines hlast hcount hfp
              rw [List.length_append, List.length_cons] at hn
              rw [ih (by omega)]
              rfl

/-! ## Files with a comment -/

/-- A file with a `#` in it: the text before the `#`, and what follows the line. -/
structure CommentedFile where
  /-- everything before the `#` -/
  front : List Char
  /-- the newline that ends the line, if there is one, and the text behind it -/
  back : List Char
  back_newline : back = [] ∨ ∃ rest, back = '\n' :: rest

namespace CommentedFile

/-- The file, with a text behind the `#`. -/
def text (f : CommentedFile) (comment : List Char) : List Char :=
  f.front ++ '#' :: (comment ++ f.back)

/-- The lines that the parser reads before the one with the `#`. -/
def linesBefore (f : CommentedFile) : List (List Char) :=
  (pieces (configBufferSize - 1) f.front).1

/-- What it reads of that line before the `#`. -/
def lineFront (f : CommentedFile) : List Char := (pieces (configBufferSize - 1) f.front).2

/-- The line, with its newline if it has one, is read at once. -/
def Fits (f : CommentedFile) (comment : List Char) : Prop :=
  f.lineFront.length + 1 + comment.length + (f.back.take 1).length ≤ configBufferSize - 1

instance (f : CommentedFile) (comment : List Char) : Decidable (f.Fits comment) :=
  inferInstanceAs (Decidable (_ ≤ _))

/-- The pieces in which the line with the `#` is read. -/
def linePieces (f : CommentedFile) (comment : List Char) : List (List Char) :=
  linesOf configBufferSize (f.lineFront ++ '#' :: (comment ++ f.back.take 1))

/-- The lines up to the `#`. -/
def cut (f : CommentedFile) : List (List Char) := f.linesBefore ++ [f.lineFront ++ ['#']]

/-- The parser stops at an error before it comes to what follows the `#`: before it looks at the
line, which inside a matrix may be one row too many, or at what is in front of the `#`. -/
def Stopped (f : CommentedFile) : Prop :=
  reachAt (f.linesBefore ++ [['#']]) = .stopped ∨
    reachAt f.linesBefore = .between ∧ reachAt f.cut = .stopped

/-- The line is read between settings, and of both texts the part that does not fit is blank. -/
def Outside (f : CommentedFile) (comment comment' : List Char) : Prop :=
  reachAt f.linesBefore = .between ∧ reachAt f.cut = .between ∧
    ∀ line ∈ (f.linePieces comment).tail ++ (f.linePieces comment').tail,
      configLineEmpty (configLine line) = true

/-- The line, or the part of it that does not fit, is read by the loop of
`config_append_matrix_rows`, which takes the same off it with both texts. -/
def Inside (f : CommentedFile) (comment comment' : List Char) : Prop :=
  reachAt f.linesBefore = .inside ∧
      SameRows f.linesBefore (f.linePieces comment) (f.linePieces comment') ∨
    reachAt f.linesBefore = .between ∧ reachAt f.cut = .inside ∧
      SameRows f.cut (f.linePieces comment).tail (f.linePieces comment').tail

/-- The loop of `config_append_matrix_rows` reads what follows the `#`. -/
def InMatrix (f : CommentedFile) : Prop :=
  reachAt f.linesBefore = .inside ∧ '\x00' ∉ f.lineFront

variable (f : CommentedFile) {comment comment' : List Char}

theorem lineFront_newline : '\n' ∉ f.lineFront :=
  (pieces_rest (by decide) f.front).1

theorem lineFront_length : f.lineFront.length < configBufferSize - 1 :=
  (pieces_rest (by decide) f.front).2

theorem linesOf_front (s : List Char) :
    linesOf configBufferSize (f.front ++ s) =
      f.linesBefore ++ linesOf configBufferSize (f.lineFront ++ s) :=
  @linesOf_pieces (configBufferSize - 1) (by decide) f.front s

/-- The lines of the file: those before, the pieces of the one with the `#`, and those behind. -/
theorem linesOf_text (comment : List Char) :
    linesOf configBufferSize (f.text comment) =
      f.linesBefore ++ (f.linePieces comment ++ linesOf configBufferSize (f.back.drop 1)) := by
  have hline : linesOf configBufferSize (f.lineFront ++ '#' :: (comment ++ f.back)) =
      f.linePieces comment ++ linesOf configBufferSize (f.back.drop 1) := by
    obtain hback | ⟨rest, hback⟩ := f.back_newline
    · rw [linePieces, hback, List.take_nil, List.drop_nil, linesOf_nil, List.append_nil,
        List.append_nil]
    · rw [linePieces, hback]
      have happend := @linesOf_append (configBufferSize - 1) (by decide)
        (f.lineFront ++ '#' :: comment) rest
      simpa using happend
  rw [text, linesOf_front, hline]

/-- The first piece begins with what stands before the `#`. -/
theorem linePieces_cons (comment : List Char) :
    ∃ tail, f.linePieces comment =
      (f.lineFront ++ '#' :: tail) :: (f.linePieces comment).tail := by
  have hfront : '\n' ∉ f.lineFront ++ ['#'] := by
    simp [f.lineFront_newline]
  have hlen : (f.lineFront ++ ['#']).length ≤ configBufferSize - 1 := by
    rw [List.length_append, List.length_singleton]
    exact f.lineFront_length
  have hread := readLine_append (comment ++ f.back.take 1) hfront hlen
  rw [List.append_assoc, List.singleton_append] at hread
  rw [linePieces, linesOf_cons (by decide) (by simp), hread, List.append_assoc,
    List.singleton_append]
  exact ⟨_, rfl⟩

/-- A line that fits is read in one piece. -/
theorem linePieces_fits (hcomment : '\n' ∉ comment) (hfits : f.Fits comment) :
    f.linePieces comment = [f.lineFront ++ '#' :: (comment ++ f.back.take 1)] := by
  have hline : '\n' ∉ f.lineFront ++ '#' :: comment := by
    simp [f.lineFront_newline, hcomment]
  rw [Fits] at hfits
  rw [linePieces]
  obtain hback | ⟨rest, hback⟩ := f.back_newline
  · rw [hback] at hfits ⊢
    simp only [List.take_nil, List.length_nil, List.append_nil] at hfits ⊢
    exact linesOf_last (by simp) hline (by simp; omega) (by decide)
  · rw [hback] at hfits ⊢
    simp only [List.take_succ_cons, List.take_zero, List.length_cons, List.length_nil] at hfits ⊢
    have hread := @CLib.linesOf_line configBufferSize _ [] hline (by simp; omega)
    simpa [linesOf_nil] using hread

/-! ### Files with two comments -/

/-- The result depends on what the loop of the parser makes of the lines. -/
theorem configParse_congr {text text' : List Char} {data : FandConfig}
    (h : configParseLoop (linesOf configBufferSize text').length (linesOf configBufferSize text')
        data =
      configParseLoop (linesOf configBufferSize text).length (linesOf configBufferSize text) data) :
    configParse (some text') data = configParse (some text) data := by
  simp only [configParse, h]

/-- The parser does not tell lines apart that are the same up to the `#`. -/
theorem configParseLoop_line {line line' : List Char} (h : configLine line' = configLine line)
    (n : ℕ) (fp : List (List Char)) (data : FandConfig) :
    configParseLoop n (line' :: fp) data = configParseLoop n (line :: fp) data := by
  cases n with
  | zero => rfl
  | succ n => simp only [configParseLoop, h]

/-- Between settings the parser does not see what follows the `#` on the line. -/
theorem configParseLoop_cut (h : reachAt f.linesBefore = .between) (tail : List Char)
    (more : List (List Char)) (data : FandConfig) :
    configParseLoop (f.linesBefore ++ (f.lineFront ++ '#' :: tail) :: more).length
        (f.linesBefore ++ (f.lineFront ++ '#' :: tail) :: more) data =
      configParseLoop (f.cut ++ more).length (f.cut ++ more) data := by
  obtain ⟨k, hk, -, data', hloop⟩ := configParseLoop_between (le_refl _) h data
  have hlen : ∀ line, (f.linesBefore ++ line :: more).length =
      f.linesBefore.length - k + more.length + 1 + k := by
    intro line
    rw [List.length_append, List.length_cons]
    omega
  rw [cut, List.append_assoc, List.singleton_append, hlen, hlen, hloop, hloop,
    configParseLoop_line (configLine_comment f.lineFront tail)]

/-- Behind an error the comment is not read. -/
theorem configParse_stopped (h : f.Stopped) (data : FandConfig) :
    configParse (some (f.text comment')) data = configParse (some (f.text comment)) data := by
  refine configParse_congr ?_
  rw [linesOf_text, linesOf_text]
  obtain hbefore | ⟨hbefore, hline⟩ := h
  · obtain ⟨r, -, hr⟩ := configParseLoop_stops hbefore data
    rw [hr _ _ (by simp), hr _ _ (by simp)]
  · obtain ⟨r, -, hr⟩ := configParseLoop_stopped (le_refl _) hline data
    obtain ⟨tail, hpieces⟩ := f.linePieces_cons comment
    obtain ⟨tail', hpieces'⟩ := f.linePieces_cons comment'
    rw [hpieces, hpieces', List.cons_append, List.cons_append, f.configParseLoop_cut hbefore,
      f.configParseLoop_cut hbefore, hr _ _ (by simp), hr _ _ (by simp)]

/-- Between settings it is cut off. -/
theorem configParse_outside (h : f.Outside comment comment') (data : FandConfig) :
    configParse (some (f.text comment')) data = configParse (some (f.text comment)) data := by
  obtain ⟨hbefore, hline, hblank⟩ := h
  refine configParse_congr ?_
  obtain ⟨k, hk, -, data', hloop⟩ := configParseLoop_between (le_refl _) hline data
  have hall : ∀ comment, (∀ line ∈ (f.linePieces comment).tail,
      configLineEmpty (configLine line) = true) →
      configParseLoop (linesOf configBufferSize (f.text comment)).length
          (linesOf configBufferSize (f.text comment)) data =
        configParseLoop (f.cut.length - k + (linesOf configBufferSize (f.back.drop 1)).length)
          (linesOf configBufferSize (f.back.drop 1)) data' := by
    intro comment hblank
    obtain ⟨tail, hpieces⟩ := f.linePieces_cons comment
    have hfuel : (f.cut ++ ((f.linePieces comment).tail ++
        linesOf configBufferSize (f.back.drop 1))).length =
          f.cut.length - k + (linesOf configBufferSize (f.back.drop 1)).length +
            (f.linePieces comment).tail.length + k := by
      simp only [List.length_append]
      omega
    rw [linesOf_text, hpieces, List.cons_append, f.configParseLoop_cut hbefore, hfuel, hloop,
      configParseLoop_blank hblank]
  rw [hall comment fun line hl => hblank line (List.mem_append_left _ hl),
    hall comment' fun line hl => hblank line (List.mem_append_right _ hl)]

/-- Inside a matrix what the loop takes off the line is all there is to it. -/
theorem configParse_inside (h : f.Inside comment comment') (data : FandConfig) :
    configParse (some (f.text comment')) data = configParse (some (f.text comment)) data := by
  refine configParse_congr ?_
  rw [linesOf_text, linesOf_text]
  obtain ⟨hbefore, hsame⟩ | ⟨hbefore, hline, hsame⟩ := h
  · exact configParseLoop_sameRows hbefore hsame _ data
  · obtain ⟨tail, hpieces⟩ := f.linePieces_cons comment
    obtain ⟨tail', hpieces'⟩ := f.linePieces_cons comment'
    rw [hpieces, hpieces', List.cons_append, List.cons_append, f.configParseLoop_cut hbefore,
      f.configParseLoop_cut hbefore]
    exact configParseLoop_sameRows hline hsame _ data

/-- Of the comments that fit, those that are not read as part of a matrix do not matter. -/
theorem configParse_fits (hcomment : '\n' ∉ comment) (hcomment' : '\n' ∉ comment')
    (hfits : f.Fits comment) (hfits' : f.Fits comment') (h : ¬ f.InMatrix) (data : FandConfig) :
    configParse (some (f.text comment')) data = configParse (some (f.text comment)) data := by
  have hpieces := f.linePieces_fits hcomment hfits
  have hpieces' := f.linePieces_fits hcomment' hfits'
  cases hbefore : reachAt f.linesBefore with
  | stopped => exact f.configParse_stopped (Or.inl (reachAt_stopped hbefore _)) data
  | inside =>
    -- the line ends at a NUL in front of the `#`
    have hnul : '\x00' ∈ f.lineFront := by
      by_contra hnot
      exact h ⟨hbefore, hnot⟩
    have htaken : ∀ tail tail',
        takenText (f.lineFront ++ tail) = takenText (f.lineFront ++ tail') := by
      intro tail tail'
      have hcut : cstr (f.lineFront ++ tail) = cstr (f.lineFront ++ tail') := by
        obtain ⟨as, bs, hsplit, hnot⟩ := List.eq_append_cons_of_mem hnul
        rw [hsplit, List.append_assoc, List.append_assoc, List.cons_append, List.cons_append,
          cstr_append hnot, cstr_append hnot]
      simp only [takenText, hcut]
    refine f.configParse_inside (Or.inl ⟨hbefore, ?_⟩) data
    rw [hpieces, hpieces']
    exact ⟨_, [], _, [], (List.append_nil _).symm, (List.append_nil _).symm,
      congrArg (· :: []) (htaken _ _), by simp, Or.inl ⟨rfl, rfl⟩⟩
  | between =>
    cases hline : reachAt f.cut with
    | stopped => exact f.configParse_stopped (Or.inr ⟨hbefore, hline⟩) data
    | inside =>
      refine f.configParse_inside (Or.inr ⟨hbefore, hline, ?_⟩) data
      rw [hpieces, hpieces']
      exact ⟨[], [], [], [], rfl, rfl, rfl, by simp, Or.inl ⟨rfl, rfl⟩⟩
    | between =>
      refine f.configParse_outside ⟨hbefore, hline, ?_⟩ data
      rw [hpieces, hpieces']
      simp

/-- A matrix with a row in the comment that it cannot hold is rejected. -/
theorem configParse_badRow (h : f.InMatrix) (hfits : f.Fits badRow) (data : FandConfig) :
    (configParse (some (f.text badRow)) data).1 ≠ 0 := by
  obtain ⟨hbefore, hnul⟩ := h
  obtain ⟨i, hi, data', k, j, hj, hloop⟩ := configParseLoop_inside (le_refl _) hbefore data
  have hback : ∀ c ∈ f.back.take 1, c = '\n' := by
    obtain hback | ⟨rest, hback⟩ := f.back_newline
    · simp [hback]
    · simp [hback]
  have hline : '\x00' ∉ f.lineFront ++ '#' :: (badRow ++ f.back.take 1) := by
    have hrow : '\x00' ∉ badRow := by decide
    have hend : '\x00' ∉ f.back.take 1 := fun hmem => absurd (hback _ hmem) (by decide)
    simp [hnul, hrow, hend]
  have hclose : LineCloses (f.lineFront ++ '#' :: (badRow ++ f.back.take 1)) hotRow := by
    rw [LineCloses, cstr_eq_self hline]
    refine ⟨f.lineFront ++ ['#'], f.back.take 1, by simp [badRow], fun c hc => ?_⟩
    rw [hback c hc]
    decide
  have hnewline : '\n' ∉ badRow := by decide
  have htaken := (takenText_closes hclose).1
  obtain ⟨n, hn⟩ := Nat.exists_eq_add_of_le' (hi.trans (show f.linesBefore.length ≤
    (linesOf configBufferSize (f.text badRow)).length by rw [linesOf_text]; simp))
  have hresult : (configParseLoop (linesOf configBufferSize (f.text badRow)).length
      (linesOf configBufferSize (f.text badRow)) data).1 ≠ 0 := by
    rw [hn, linesOf_text, f.linePieces_fits hnewline hfits, (hloop n _).2, List.singleton_append,
      configAppendLoop_cons, htaken]
    split_ifs with hstop hnone hrow hparen
    · exact (by decide : (-1 : ℤ) ≠ 0)
    · exact absurd hnone (by simp)
    · exact (by decide : (-1 : ℤ) ≠ 0)
    · have hbad := configSetMatrix_endsBadly hj.endsBadly data'
      exact ne_of_eq_of_ne (congrArg Prod.fst (if_pos hbad)) hbad
    · exact absurd hparen (by simp)
  exact ne_of_eq_of_ne (congrArg Prod.fst (if_pos hresult)) hresult

/-- A comment that fills the line and sixteen more. -/
def longComment (f : CommentedFile) : List Char :=
  List.replicate (configBufferSize - 1 - (f.lineFront.length + 1)) 'x' ++
    (List.replicate maxTempThresholds longLine).flatten

theorem longComment_newline : '\n' ∉ f.longComment := by
  intro h
  rcases List.mem_append.mp h with hmem | hmem
  · exact absurd (List.eq_of_mem_replicate hmem) (by decide)
  · obtain ⟨line, hline, hmem⟩ := List.mem_flatten.mp hmem
    rw [List.eq_of_mem_replicate hline] at hmem
    exact longLine_ne (by decide) hmem

/-- It makes the parser come to the sixteen lines, which no file is accepted with. -/
theorem configParse_longComment (data : FandConfig) :
    (configParse (some (f.text f.longComment)) data).1 ≠ 0 := by
  refine configParse_none ?_ data
  have hroom := f.lineFront_length
  -- the line with the `#` is full, and so are the sixteen behind it
  have hline : '\n' ∉ f.lineFront ++
      '#' :: List.replicate (configBufferSize - 1 - (f.lineFront.length + 1)) 'x' := by
    simp [f.lineFront_newline]
  have hlen : (f.lineFront ++
      '#' :: List.replicate (configBufferSize - 1 - (f.lineFront.length + 1)) 'x').length =
        configBufferSize - 1 := by
    rw [List.length_append, List.length_cons, List.length_replicate]
    omega
  have hfull := linesOf_full ((List.replicate maxTempThresholds longLine).flatten ++ f.back) hline
    hlen (by decide)
  have hwhole : ∀ line ∈ List.replicate maxTempThresholds longLine,
      '\n' ∉ line ∧ line.length = configBufferSize - 1 := by
    intro line hmem
    rw [List.eq_of_mem_replicate hmem]
    exact ⟨longLine_ne (by decide), List.length_replicate⟩
  have hlong := linesOf_flatten (by decide) hwhole f.back
  have hlines : linesOf configBufferSize (f.text f.longComment) =
      (f.linesBefore ++ [f.lineFront ++
        '#' :: List.replicate (configBufferSize - 1 - (f.lineFront.length + 1)) 'x']) ++
        (List.replicate maxTempThresholds longLine ++ linesOf configBufferSize f.back) := by
    rw [text, linesOf_front, longComment, List.append_assoc, List.append_assoc]
    refine congrArg (f.linesBefore ++ ·) ?_
    rw [hlong] at hfull
    simpa using hfull
  rw [configSettings, Option.bind_some, hlines]
  exact configSettingsLoop_longLines (by simp [maxTempThresholds]) _

end CommentedFile

/-- **Comments.** The text of a comment does not matter where the parser has stopped before it,
outside of a matrix if what does not fit is blank, and inside of one if the loop takes the same off
the line. In a file that is accepted, the comments that fit do not matter if and only if the line is
not read as part of a matrix; and no file is safe from every comment. -/
theorem configParse_comment (f : CommentedFile) {comment : List Char} (hcomment : '\n' ∉ comment) :
    (∀ comment', '\n' ∉ comment' →
      f.Stopped ∨ f.Outside comment comment' ∨ f.Inside comment comment' → ∀ data,
        configParse (some (f.text comment')) data = configParse (some (f.text comment)) data) ∧
      (∀ data, (configParse (some (f.text comment)) data).1 = 0 → f.Fits comment → f.Fits badRow →
        ((∀ comment', '\n' ∉ comment' → f.Fits comment' →
          configParse (some (f.text comment')) data = configParse (some (f.text comment)) data) ↔
            ¬ f.InMatrix)) ∧
      ∃ comment', '\n' ∉ comment' ∧ ∀ data, (configParse (some (f.text comment')) data).1 ≠ 0 := by
  refine ⟨?_, ?_, f.longComment, f.longComment_newline, f.configParse_longComment⟩
  · rintro comment' - (hstopped | houtside | hinside) data
    · exact f.configParse_stopped hstopped data
    · exact f.configParse_outside houtside data
    · exact f.configParse_inside hinside data
  · intro data hok hfits hroom
    refine ⟨fun hinert hin => ?_, fun hout comment' hcomment' hfits' => ?_⟩
    · refine f.configParse_badRow hin hroom data ?_
      rw [hinert badRow (by decide) hroom, hok]
    · exact f.configParse_fits hcomment hcomment' hfits hfits' hout data

/-- A file with a comment behind a value. -/
def fileAfterValue : CommentedFile where
  front := "interval=5 ".toList
  back := "\nmatrix=('50::20'\n'80::100')\n".toList
  back_newline := Or.inr ⟨_, rfl⟩

/-- A row in it is not read. -/
theorem configParse_comment_afterValue :
    '\n' ∉ " warm".toList ∧ '\n' ∉ " '60::50')".toList ∧
      fileAfterValue.Outside " warm".toList " '60::50')".toList ∧
      (configParse (some (fileAfterValue.text " warm".toList)) .zero).1 = 0 ∧
      configParse (some (fileAfterValue.text " '60::50')".toList)) .zero =
        configParse (some (fileAfterValue.text " warm".toList)) .zero := by
  have hwarm : '\n' ∉ " warm".toList := by decide
  have hrow : '\n' ∉ " '60::50')".toList := by decide
  have houtside : fileAfterValue.Outside " warm".toList " '60::50')".toList :=
    ⟨by decide +kernel, by decide +kernel, by decide +kernel⟩
  exact ⟨hwarm, hrow, houtside, by decide +kernel,
    (configParse_comment fileAfterValue hwarm).1 _ hrow (Or.inr (Or.inl houtside)) .zero⟩

/-- A file with a comment inside the matrix. -/
def fileInsideMatrix : CommentedFile where
  front := "matrix=('50::20'\n".toList
  back := "\n'80::100')\n".toList
  back_newline := Or.inr ⟨_, rfl⟩

/-- A row in it closes the matrix, and the line behind it is no setting. -/
theorem configParse_comment_insideMatrix :
    '\n' ∉ " warm".toList ∧ '\n' ∉ " '60::50')".toList ∧
      (configParse (some (fileInsideMatrix.text " warm".toList)) .zero).1 = 0 ∧
      (configParse (some (fileInsideMatrix.text " '60::50')".toList)) .zero).1 ≠ 0 :=
  ⟨by decide, by decide, by decide +kernel, by decide +kernel⟩

end AmdgpuFand

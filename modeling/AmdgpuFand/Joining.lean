import AmdgpuFand.MatrixSound

/-!
# Joining that overflows

`config_append_matrix_rows` keeps the position to write at in `pos`, and adds to it what the copies
return. A copy that does not fit returns `-E2BIG`, and the loop looks for it in the sign of the sum:
it is found only if the piece began within the first seven characters of the buffer. Anywhere else
the position goes back by seven, the next piece is written over the end of the text, and the matrix
that results is shorter than the one in the file.
-/

namespace AmdgpuFand

open CLib Ere

/-! ## Positions -/

/-- Where the next piece goes, behind a piece of this length: at its end, or, if it does not fit,
seven characters in front of where it begins. -/
def pieceStep (valsize pos len : ℕ) : ℕ := if pos + len < valsize then pos + len else pos - 7

/-- A piece that does not fit begins within the first seven characters. -/
def OverflowSeen (valsize pos : ℕ) (lens : List ℕ) : Prop :=
  ∃ before len after, lens = before ++ len :: after ∧
    before.foldl (pieceStep valsize) pos < 7 ∧
    valsize ≤ before.foldl (pieceStep valsize) pos + len

section Positions

variable {valsize pos len : ℕ} {lens : List ℕ}

theorem overflowSeen_nil : ¬ OverflowSeen valsize pos [] := by
  rintro ⟨before, len, after, h, -, -⟩
  simp at h

theorem overflowSeen_cons :
    OverflowSeen valsize pos (len :: lens) ↔
      (pos < 7 ∧ valsize ≤ pos + len) ∨ OverflowSeen valsize (pieceStep valsize pos len) lens := by
  refine ⟨?_, ?_⟩
  · rintro ⟨before, len', after, h, hearly, hover⟩
    cases before with
    | nil =>
      obtain ⟨rfl, rfl⟩ := List.cons.inj h
      exact Or.inl ⟨hearly, hover⟩
    | cons l before =>
      obtain ⟨rfl, rfl⟩ := List.cons.inj h
      exact Or.inr ⟨before, len', after, rfl, hearly, hover⟩
  · rintro (⟨hearly, hover⟩ | ⟨before, len', after, rfl, hearly, hover⟩)
    · exact ⟨[], len, lens, rfl, hearly, hover⟩
    · exact ⟨len :: before, len', after, rfl, hearly, hover⟩

theorem pieceStep_lt (hpos : pos < valsize) : pieceStep valsize pos len < valsize := by
  unfold pieceStep
  split_ifs with hfits
  · exact hfits
  · exact lt_of_le_of_lt (Nat.sub_le ..) hpos

/-- An overflow is seen only at a piece that is almost as long as the buffer. -/
theorem OverflowSeen.long (h : OverflowSeen valsize pos lens) :
    ∃ len ∈ lens, valsize ≤ len + 6 := by
  obtain ⟨before, len, after, rfl, hearly, hover⟩ := h
  exact ⟨len, by simp, by omega⟩

end Positions

/-! ## The loop -/

/-- One of the first `n` lines closes the matrix. -/
def ClosesWithin (n : ℕ) (fp : List (List Char)) : Prop :=
  ∃ line ∈ fp.take n, (submatch mpatEnd 1 (cstr line)).isSome

/-- The lengths of what is joined for the lines: a separator and the text taken off the line. -/
def pieceLengths (lines : List (List Char)) : List ℕ :=
  lines.flatMap fun line => [1, (takenText line).length]

theorem pieceLengths_cons (line : List Char) (lines : List (List Char)) :
    pieceLengths (line :: lines) = 1 :: (takenText line).length :: pieceLengths lines := rfl

theorem spanBlock_end {line row : List Char} (h : submatch mpatEnd 1 (cstr line) = some row)
    (fp : List (List Char)) : spanBlock (line :: fp) = ([line], fp) := by
  rw [spanBlock, h]
  rfl

theorem spanBlock_cons {line : List Char} (h : submatch mpatEnd 1 (cstr line) = none)
    (fp : List (List Char)) :
    spanBlock (line :: fp) = (line :: (spanBlock fp).1, (spanBlock fp).2) := by
  rw [spanBlock, h]
  rfl

/-- An overflow at the separator of a line is seen, whatever the line holds. -/
theorem overflowSeen_separator {valsize pos : ℕ} (hsep : pos < 7 ∧ valsize ≤ pos + 1)
    (line : List Char) (fp : List (List Char)) :
    OverflowSeen valsize pos (pieceLengths (spanBlock (line :: fp)).1) := by
  rw [spanBlock]
  split_ifs
  · exact overflowSeen_cons.mpr (Or.inl hsep)
  · exact overflowSeen_cons.mpr (Or.inl hsep)

/-- If there is room for the separator, an overflow is seen at the text of the line or behind it. -/
theorem overflowSeen_line {valsize pos : ℕ} (hsep : ¬ (pos < 7 ∧ valsize ≤ pos + 1))
    (line : List Char) (lines : List (List Char)) :
    OverflowSeen valsize pos (pieceLengths (line :: lines)) ↔
      (pieceStep valsize pos 1 < 7 ∧
        valsize ≤ pieceStep valsize pos 1 + (takenText line).length) ∨
      OverflowSeen valsize (pieceStep valsize (pieceStep valsize pos 1) (takenText line).length)
        (pieceLengths lines) := by
  rw [pieceLengths_cons, overflowSeen_cons, or_iff_right hsep, overflowSeen_cons]

/-- The line that closes the matrix is the last one with an overflow to see. -/
theorem overflowSeen_end {valsize pos : ℕ} (hsep : ¬ (pos < 7 ∧ valsize ≤ pos + 1))
    (line : List Char) :
    OverflowSeen valsize pos (pieceLengths [line]) ↔
      pieceStep valsize pos 1 < 7 ∧
        valsize ≤ pieceStep valsize pos 1 + (takenText line).length := by
  rw [overflowSeen_line hsep]
  exact or_iff_left overflowSeen_nil

/-- A line without text takes no room. -/
theorem overflowSeen_blank {valsize pos : ℕ} (hpos : pos < valsize)
    (hsep : ¬ (pos < 7 ∧ valsize ≤ pos + 1)) {line : List Char} (htaken : takenText line = [])
    (lines : List (List Char)) :
    OverflowSeen valsize pos (pieceLengths (line :: lines)) ↔
      OverflowSeen valsize (pieceStep valsize pos 1) (pieceLengths lines) := by
  have hpos' : pieceStep valsize pos 1 < valsize := pieceStep_lt hpos
  have hstep : pieceStep valsize (pieceStep valsize pos 1) 0 = pieceStep valsize pos 1 := by
    rw [pieceStep, Nat.add_zero, if_pos hpos']
  rw [overflowSeen_line hsep, htaken, List.length_nil, hstep]
  exact or_iff_right fun h => absurd hpos' (not_lt.mpr h.2)

theorem closesWithin_cons {n : ℕ} {line : List Char} {fp : List (List Char)} :
    ClosesWithin (n + 1) (line :: fp) ↔
      (submatch mpatEnd 1 (cstr line)).isSome ∨ ClosesWithin n fp := by
  simp [ClosesWithin]

theorem not_closesWithin_zero (fp : List (List Char)) : ¬ ClosesWithin 0 fp := by
  simp [ClosesWithin]

/-- What a copy to the buffer does to the position. -/
theorem put_pos {j : Joined} {pos valsize : ℕ} (hj : j.pos = pos) (hpos : pos < valsize)
    (piece : List Char) {copied : ℤ × List Char}
    (hcopied : copied.1 = if piece.length < valsize - pos then (piece.length : ℤ) else -e2big) :
    ((j.put copied).pos < 0 ↔ pos < 7 ∧ valsize ≤ pos + piece.length) ∧
      (¬ (j.put copied).pos < 0 → (j.put copied).pos = pieceStep valsize pos piece.length) := by
  have hput : (j.put copied).pos = j.pos + copied.1 := rfl
  rw [hput, hj, hcopied]
  unfold pieceStep
  simp only [e2big]
  split_ifs <;> omega

theorem putSeparator_pos {j : Joined} {pos valsize : ℕ} (hj : j.pos = pos)
    (hpos : pos < valsize) :
    ((j.putSeparator valsize).pos < 0 ↔ pos < 7 ∧ valsize ≤ pos + 1) ∧
      (¬ (j.putSeparator valsize).pos < 0 →
        (j.putSeparator valsize).pos = pieceStep valsize pos 1) := by
  refine put_pos hj hpos [';'] ?_
  rw [hj, Int.toNat_natCast, strscpyStr]
  split_ifs <;> rfl

theorem putRow_pos {j : Joined} {pos valsize : ℕ} (hj : j.pos = pos) (hpos : pos < valsize)
    (row : List Char) :
    ((j.putRow valsize row).pos < 0 ↔ pos < 7 ∧ valsize ≤ pos + row.length) ∧
      (¬ (j.putRow valsize row).pos < 0 →
        (j.putRow valsize row).pos = pieceStep valsize pos row.length) := by
  refine put_pos hj hpos row ?_
  rw [hj, Int.toNat_natCast, strsncpyStr]
  by_cases hfits : row.length < valsize - pos
  · rw [if_neg (not_le.mpr hfits), if_neg (lt_irrefl _), if_pos hfits]
  · rw [if_pos (not_lt.mp hfits), if_neg hfits]

/-- **The loop succeeds** if and only if a line closes the matrix in time and no overflow is
seen. -/
theorem configAppendLoop_isSome {valsize : ℕ} :
    ∀ {fp : List (List Char)} {k n pos : ℕ} {j : Joined}, k + n = maxTempThresholds →
      j.pos = pos → pos < valsize →
      ((configAppendLoop valsize fp k j).isSome ↔
        ClosesWithin n fp ∧ ¬ OverflowSeen valsize pos (pieceLengths (spanBlock fp).1)) := by
  intro fp
  induction fp with
  | nil => simp [configAppendLoop, ClosesWithin]
  | cons line fp ih =>
    intro k n pos j hk hj hpos
    cases n with
    | zero =>
      -- no line is left that may be counted
      have hcount : matrixMaxSize / 2 < k + 1 := Nat.lt_succ_of_le (le_of_eq hk.symm)
      rw [configAppendLoop, if_pos hcount]
      simp [not_closesWithin_zero]
    | succ n =>
      have hcount : ¬ matrixMaxSize / 2 < k + 1 :=
        Nat.not_lt.mpr (le_trans (by omega) (le_of_eq hk))
      obtain ⟨hsepNeg, hsepPos⟩ := putSeparator_pos hj hpos
      have hpos' : pieceStep valsize pos 1 < valsize := pieceStep_lt hpos
      rw [configAppendLoop, if_neg hcount, closesWithin_cons]
      -- the separator goes first, and only then is the line looked at
      by_cases hsep : (j.putSeparator valsize).pos < 0
      · rw [if_pos hsep]
        exact iff_of_false (by simp) fun h => h.2 (overflowSeen_separator (hsepNeg.mp hsep) line fp)
      · rw [if_neg hsep]
        have hj' := hsepPos hsep
        have hsepFits : ¬ (pos < 7 ∧ valsize ≤ pos + 1) := fun h => hsep (hsepNeg.mpr h)
        rcases hmid : submatch mpatMid 1 (cstr line) with _ | row
        · rcases hend : submatch mpatEnd 1 (cstr line) with _ | row
          · have htaken : takenText line = [] := by simp only [takenText, hmid, hend]
            dsimp only
            rw [ih (n := n) (by omega) hj' hpos', spanBlock_cons hend,
              overflowSeen_blank hpos hsepFits htaken]
            simp only [Option.isSome_none, Bool.false_eq_true, false_or]
          · obtain ⟨hrowNeg, -⟩ := putRow_pos hj' hpos' row
            have htaken : takenText line = row := by simp only [takenText, hmid, hend]
            dsimp only
            rw [spanBlock_end hend, overflowSeen_end hsepFits, htaken, ← hrowNeg]
            split_ifs with hrow
            · exact iff_of_false (by simp) fun h => h.2 hrow
            · exact iff_of_true (by simp) ⟨.inl rfl, hrow⟩
        · have hend : submatch mpatEnd 1 (cstr line) = none := by
            obtain ⟨w, rfl, hw⟩ := submatch_mid.mp hmid
            exact LineHas.not_closes (o := some w) hw
          obtain ⟨hrowNeg, hrowPos⟩ := putRow_pos hj' hpos' row
          have htaken : takenText line = row := by simp only [takenText, hmid]
          dsimp only
          rw [spanBlock_cons hend, overflowSeen_line hsepFits, htaken, hend, ← hrowNeg]
          split_ifs with hrow
          · exact iff_of_false (by simp) fun h => h.2 (Or.inl hrow)
          · rw [ih (n := n) (by omega) (hrowPos hrow) (pieceStep_lt hpos')]
            simp [hrow]

/-! ## Whole matrices -/

/-- The text that the first line of a matrix contributes, without the white space around it. -/
def headerRow (value : List Char) : List Char := (submatch mpatStart 1 value).getD []

/-- The whole text of a matrix: the row of the first line, then for each line up to the closing one
a separator and the text taken off it. -/
def wholeText (value : List Char) (fp : List (List Char)) : List Char :=
  headerRow value ++ (spanBlock fp).1.flatMap fun line => ';' :: takenText line

/-- Joining is exact or fails: what is returned is the whole text and fits the buffer, and where the
whole text does not fit nothing is returned. -/
def JoinsWhole (value : List Char) (valsize : ℕ) (fp : List (List Char)) : Prop :=
  (∀ text rest, configAppendMatrixRows value valsize fp = some (text, rest) →
    (wholeText value fp).length < valsize ∧ text = wholeText value fp) ∧
  (valsize ≤ (wholeText value fp).length → configAppendMatrixRows value valsize fp = none)

/-- The lengths of the pieces of the whole text. -/
def wholeLengths (value : List Char) (fp : List (List Char)) : List ℕ :=
  (headerRow value).length :: pieceLengths (spanBlock fp).1

/-- `config_append_matrix_rows` succeeds if and only if the value is the first line of a matrix, its
row fits the line buffer, a line closes the matrix in time, and no overflow is seen. -/
theorem configAppendMatrixRows_isSome {value : List Char} {valsize : ℕ} {fp : List (List Char)} :
    (configAppendMatrixRows value valsize fp).isSome ↔
      (submatch mpatStart 1 value).isSome ∧ (headerRow value).length < configBufferSize ∧
        ClosesWithin maxTempThresholds fp ∧ ¬ OverflowSeen valsize 0 (wholeLengths value fp) := by
  rw [configAppendMatrixRows, wholeLengths, headerRow]
  rcases hstart : submatch mpatStart 1 value with _ | row
  · simp
  · simp only [Option.getD_some, overflowSeen_cons]
    by_cases hbuffer : row.length < configBufferSize
    · rw [strsncpyStr_fits hbuffer]
      have hnonneg : ¬ ((row.length : ℤ) < 0) := by omega
      by_cases hfits : row.length < valsize
      · have hstep : pieceStep valsize 0 row.length = row.length := by
          rw [pieceStep, Nat.zero_add, if_pos hfits]
        simp only [strscpyStr, if_neg hnonneg, if_pos hfits, hstep]
        rw [configAppendLoop_isSome (n := maxTempThresholds) (Nat.zero_add _) rfl hfits]
        simp [hbuffer, hfits]
      · have hneg : (-e2big : ℤ) < 0 := by decide
        simp only [strscpyStr, if_neg hnonneg, if_neg hfits, if_pos hneg]
        exact iff_of_false (by simp) fun h => h.2.2.2 (Or.inl ⟨by decide, by omega⟩)
    · have hneg : (-e2big : ℤ) < 0 := by decide
      rw [strsncpyStr, if_pos (not_lt.mp hbuffer), if_pos hneg]
      exact iff_of_false (by simp) fun h => hbuffer h.2.1

/-- **Joining.** For every value, every size of the buffer and all following lines, the joined text
is whole or there is none if and only if the whole text fits, or the value is not the first line of
a matrix, or its row does not fit the line buffer, or none of the next sixteen lines closes the
matrix, or some piece that does not fit begins within the first seven characters. -/
theorem configAppendMatrixRows_whole (value : List Char) (valsize : ℕ) (fp : List (List Char)) :
    JoinsWhole value valsize fp ↔
      (wholeText value fp).length < valsize ∨ submatch mpatStart 1 value = none ∨
        configBufferSize ≤ (headerRow value).length ∨ ¬ ClosesWithin maxTempThresholds fp ∨
        OverflowSeen valsize 0 (wholeLengths value fp) := by
  rcases hresult : configAppendMatrixRows value valsize fp with _ | ⟨text, rest⟩
  · refine iff_of_true ⟨fun _ _ h => ?_, fun _ => hresult⟩ ?_
    · rw [hresult] at h
      cases h
    · have hnone := mt configAppendMatrixRows_isSome.mpr (by rw [hresult]; simp)
      by_contra hcon
      simp only [not_or, not_not, not_le, ← Option.isSome_iff_ne_none] at hcon
      exact hnone hcon.2
  · have hsome := configAppendMatrixRows_isSome.mp (by rw [hresult]; rfl)
    refine ⟨fun h => Or.inl (h.1 text rest hresult).1, ?_⟩
    rintro (hfits | hstart | hheader | hcloses | hseen)
    · obtain ⟨first, lines, segments, line, last, hfirst, rfl, hlines, hlast, hcount⟩ :=
        configAppendMatrixRows_lines hresult
      have hrow : headerRow value = '(' :: first.text := by
        rw [headerRow, submatch_start.mpr ⟨first, rfl, hfirst⟩, Option.getD_some]
      have hwhole : wholeText value (lines ++ line :: rest) = joinedText first segments last := by
        rw [wholeText, spanBlock_lines hlines hlast, flatMap_takenText hlines hlast, hrow]
        rfl
      rw [JoinsWhole, hwhole]
      rw [hwhole] at hfits
      have htext := configAppendMatrixRows_text hfirst hlines hlast hcount
        (hrow ▸ hsome.2.1) hfits rest
      refine ⟨fun text' rest' h => ⟨hfits, ?_⟩, fun h => absurd hfits (not_lt.mpr h)⟩
      rw [htext] at h
      cases h
      rfl
    · rw [hstart] at hsome
      exact absurd hsome.1 (by decide)
    · exact absurd hsome.2.1 (not_lt.mpr hheader)
    · exact absurd hsome.2.2.1 hcloses
    · exact absurd hseen hsome.2.2.2

/-- A matrix with a row that does not fit the buffer, for its leading zeros: the position goes back
from 10 to 3, and the last row is written over the first. -/
def longRowLines : List (List Char) :=
  [('\x27' :: List.replicate 245 '0') ++ "::5'\n".toList, "'80::100')\n".toList]

theorem configAppendMatrixRows_overwritten :
    wholeText "('50::20'".toList longRowLines ≠ "('5;'80::100')".toList ∧
      configAppendMatrixRows "('50::20'".toList configBufferSize longRowLines =
        some ("('5;'80::100')".toList, []) ∧
      ¬ JoinsWhole "('50::20'".toList configBufferSize longRowLines := by
  have hresult : configAppendMatrixRows "('50::20'".toList configBufferSize longRowLines =
      some ("('5;'80::100')".toList, []) := by decide +kernel
  have hlong : ¬ (wholeText "('50::20'".toList longRowLines).length < configBufferSize := by
    decide +kernel
  refine ⟨fun h => hlong (by rw [h]; decide), hresult, fun h => hlong (h.1 _ _ hresult).1⟩

end AmdgpuFand

import Mathlib.Algebra.Group.Nat.Defs
import Mathlib.Data.List.Basic
import Mathlib.Data.List.Induction
import Mathlib.Data.List.TakeWhile

/-!
# Strings and streams of the C library

A C string is the list of its characters up to, and without, the terminating NUL;
memory that holds one is a list of cells, and `cstr` reads the string off it. The
functions are those of `<string.h>`, `<ctype.h>`, `<stdlib.h>` and `<stdio.h>` in the
C locale, where a character is a byte.

A stream opened for reading is the text still to be read. `fgets` takes a line off it,
or as much of one as the buffer holds; `linesOf` is what a loop over `fgets` sees.
-/

namespace CLib

/-! ## Error numbers -/

/-- `E2BIG` -/
def e2big : ℤ := 7

/-- `EAGAIN` -/
def eagain : ℤ := 11

/-- `EACCES` -/
def eacces : ℤ := 13

/-- `EINVAL` -/
def einval : ℤ := 22

/-! ## Strings -/

/-- The string stored in memory: the cells before the first NUL. -/
def cstr (cells : List Char) : List Char := cells.takeWhile (· ≠ '\x00')

theorem cstr_eq_self {s : List Char} (h : '\x00' ∉ s) : cstr s = s :=
  List.takeWhile_eq_self_iff.mpr fun c hc => by simpa using ne_of_mem_of_not_mem hc h

/-- A string followed by a NUL is read back, whatever stands behind it. -/
theorem cstr_append {s rest : List Char} (h : '\x00' ∉ s) : cstr (s ++ '\x00' :: rest) = s := by
  induction s with
  | nil => rfl
  | cons c s ih =>
    rw [List.mem_cons, not_or] at h
    rw [List.cons_append, cstr, List.takeWhile_cons_of_pos (by simpa using Ne.symm h.1)]
    exact congrArg (c :: ·) (ih h.2)

/-- `isspace` -/
def isSpace (c : Char) : Bool :=
  c = ' ' || c = '\t' || c = '\n' || c = '\x0b' || c = '\x0c' || c = '\r'

/-- `strchr`: the rest of the string from the first occurrence of `c` on. -/
def strchr (c : Char) : List Char → Option (List Char)
  | [] => none
  | a :: s => if a = c then some (a :: s) else strchr c s

/-- `strtoul` with base 10 and a 64-bit `unsigned long`: the value and the rest of the
string, which is the whole string when there is no number. A number too large gives
`ULONG_MAX`; a minus sign negates in the unsigned type. -/
def strtoul (s : List Char) : UInt64 × List Char :=
  let body := s.dropWhile isSpace
  let negative := body.head? = some '-'
  let digits := if body.head? = some '-' ∨ body.head? = some '+' then body.tail else body
  let number := digits.takeWhile Char.isDigit
  let value := Nat.ofDigitChars 10 number 0
  if number = [] then (0, s)
  else if 2 ^ 64 ≤ value then (UInt64.ofNat (2 ^ 64 - 1), digits.dropWhile Char.isDigit)
  else if negative then (-UInt64.ofNat value, digits.dropWhile Char.isDigit)
  else (UInt64.ofNat value, digits.dropWhile Char.isDigit)

/-- What `strtoul` leaves of the string -/
theorem strtoul_snd (s : List Char) :
    (strtoul s).2 =
      let body := s.dropWhile isSpace
      let digits := if body.head? = some '-' ∨ body.head? = some '+' then body.tail else body
      if digits.takeWhile Char.isDigit = [] then s else digits.dropWhile Char.isDigit := by
  simp only [strtoul]
  split_ifs <;> rfl

theorem strchr_append {c : Char} {w s : List Char} (h : c ∉ w) :
    strchr c (w ++ s) = strchr c s := by
  induction w with
  | nil => rfl
  | cons a w ih =>
    rw [List.mem_cons, not_or] at h
    rw [List.cons_append, strchr, if_neg (Ne.symm h.1), ih h.2]

@[simp] theorem strchr_self (c : Char) (s : List Char) : strchr c (c :: s) = some (c :: s) :=
  if_pos rfl

theorem strchr_eq_none {c : Char} {s : List Char} (h : c ∉ s) : strchr c s = none := by
  simpa [strchr] using strchr_append (s := []) h

theorem isSpace_of_isDigit {c : Char} (h : c.isDigit = true) : isSpace c = false := by
  have hne : ∀ d : Char, d.isDigit = false → c ≠ d := by
    rintro d hd rfl
    rw [h] at hd
    cases hd
  simp [isSpace, hne ' ' rfl, hne '\t' rfl, hne '\n' rfl, hne '\x0b' rfl, hne '\x0c' rfl,
    hne '\r' rfl]

/-! ## Numerals -/

/-- What may stand before the digits of a number -/
inductive Sign
  | none
  | plus
  | minus
  deriving DecidableEq, Repr

def Sign.text : Sign → List Char
  | none => []
  | plus => ['+']
  | minus => ['-']

/-- A number in decimal, as `strtoul` accepts it -/
structure Numeral where
  space : List Char
  sign : Sign
  digits : List Char
  isSpace_space : ∀ c ∈ space, isSpace c = true
  digits_ne_nil : digits ≠ []
  isDigit_digits : ∀ c ∈ digits, c.isDigit = true

namespace Numeral

/-- There may be no white space. -/
theorem isSpace_nil : ∀ c ∈ ([] : List Char), isSpace c = true := List.forall_mem_nil _

/-- The characters of a number -/
def text (n : Numeral) : List Char := n.space ++ (n.sign.text ++ n.digits)

/-- The number without its sign -/
def magnitude (n : Numeral) : ℕ := Nat.ofDigitChars 10 n.digits 0

/-- What it is as an `unsigned long` -/
def value (n : Numeral) : UInt64 :=
  if 2 ^ 64 ≤ n.magnitude then UInt64.ofNat (2 ^ 64 - 1)
  else if n.sign = .minus then -UInt64.ofNat n.magnitude
  else UInt64.ofNat n.magnitude

theorem value_of_lt {n : Numeral} (h : n.magnitude < 2 ^ 64) :
    n.value = if n.sign = .minus then -UInt64.ofNat n.magnitude else UInt64.ofNat n.magnitude :=
  if_neg (not_le.mpr h)

theorem text_ne_nil (n : Numeral) : n.text ≠ [] := by
  intro h
  exact n.digits_ne_nil (List.append_eq_nil_iff.mp (List.append_eq_nil_iff.mp h).2).2

theorem length_digits_le (n : Numeral) : n.digits.length ≤ n.text.length := by
  rw [text, List.length_append, List.length_append]
  omega

/-- The number as a mathematician reads it -/
def signedValue (n : Numeral) : ℤ := if n.sign = .minus then -(n.magnitude : ℤ) else n.magnitude

/-- An `unsigned long` is a remainder. -/
theorem toNat_value_of_lt {n : Numeral} (h : n.magnitude < 2 ^ 64) :
    n.value.toNat = if n.sign = .minus then (2 ^ 64 - n.magnitude) % 2 ^ 64 else n.magnitude := by
  have hnat : (UInt64.ofNat n.magnitude).toNat = n.magnitude := UInt64.toNat_ofNat_of_lt' h
  rw [value_of_lt h]
  by_cases hsign : n.sign = .minus
  · rw [if_pos hsign, if_pos hsign, UInt64.toNat_neg, hnat]
    rfl
  · rw [if_neg hsign, if_neg hsign, hnat]

/-- A number too large saturates. -/
theorem toNat_value_of_ge {n : Numeral} (h : 2 ^ 64 ≤ n.magnitude) :
    n.value.toNat = 2 ^ 64 - 1 := by
  rw [value, if_pos h]
  rfl

/-- Neither a sign nor a digit is a space. -/
theorem dropWhile_text (n : Numeral) : n.text.dropWhile isSpace = n.sign.text ++ n.digits := by
  obtain ⟨space, sign, digits, hspace, hne, hd⟩ := n
  obtain ⟨c, t, rfl⟩ := List.exists_cons_of_ne_nil hne
  have hc : c.isDigit = true := hd c (List.mem_cons_self ..)
  rw [text, List.dropWhile_append_of_pos hspace]
  cases sign with
  | none =>
    exact List.dropWhile_cons_of_neg (by rw [isSpace_of_isDigit hc]; exact Bool.false_ne_true)
  | plus | minus => exact List.dropWhile_cons_of_neg (by decide)

/-- A text is read as a number in one way. -/
theorem text_unique {n m : Numeral} (h : n.text = m.text) :
    n.sign = m.sign ∧ n.digits = m.digits := by
  have hrest := congrArg (List.dropWhile isSpace) h
  rw [n.dropWhile_text, m.dropWhile_text] at hrest
  have hdigit : ∀ {k : Numeral} {c : Char} {t : List Char}, c.isDigit = false →
      k.digits ≠ c :: t := by
    intro k c t hc hk
    have hmem := k.isDigit_digits c (by rw [hk]; exact List.mem_cons_self ..)
    rw [hc] at hmem
    cases hmem
  rcases hn : n.sign with _ | _ | _ <;> rcases hm : m.sign with _ | _ | _ <;>
    rw [hn, hm] at hrest
  · exact ⟨rfl, hrest⟩
  · exact absurd hrest (hdigit rfl)
  · exact absurd hrest (hdigit rfl)
  · exact absurd hrest.symm (hdigit rfl)
  · exact ⟨rfl, (List.cons.inj hrest).2⟩
  · exact absurd (List.cons.inj hrest).1 (by decide)
  · exact absurd hrest.symm (hdigit rfl)
  · exact absurd (List.cons.inj hrest).1 (by decide)
  · exact ⟨rfl, (List.cons.inj hrest).2⟩

theorem signedValue_unique {n m : Numeral} (h : n.text = m.text) :
    n.signedValue = m.signedValue := by
  obtain ⟨hsign, hdigits⟩ := text_unique h
  rw [signedValue, signedValue, magnitude, magnitude, hsign, hdigits]

/-- The number is converted, and nothing of it is left. -/
theorem strtoul_text (n : Numeral) : strtoul n.text = (n.value, []) := by
  have hbody := n.dropWhile_text
  obtain ⟨space, sign, digits, hspace, hne, hd⟩ := n
  obtain ⟨c, t, rfl⟩ := List.exists_cons_of_ne_nil hne
  have hc : c.isDigit = true := hd c (List.mem_cons_self ..)
  have hdigit : ∀ d : Char, d.isDigit = false → c ≠ d := by
    rintro d hd rfl
    rw [hc] at hd
    cases hd
  have htake : (c :: t).takeWhile Char.isDigit = c :: t := List.takeWhile_eq_self_iff.mpr hd
  have hdrop : (c :: t).dropWhile Char.isDigit = [] := List.dropWhile_eq_nil_iff.mpr hd
  rw [text] at hbody
  simp only [text, strtoul, hbody, value, magnitude]
  cases sign with
  | none =>
    simp only [Sign.text, List.nil_append, List.head?_cons, Option.some.injEq, hdigit '-' rfl,
      hdigit '+' rfl, or_self, if_false, htake, hdrop, reduceCtorEq]
    split_ifs <;> rfl
  | plus =>
    simp only [Sign.text, List.singleton_append, List.head?_cons, List.tail_cons, or_true, if_true,
      htake, hdrop, reduceCtorEq, if_false]
    split_ifs with h hminus
    · rfl
    · exact absurd hminus (by decide)
    · rfl
  | minus =>
    simp only [Sign.text, List.singleton_append, List.head?_cons, List.tail_cons, true_or, if_true,
      htake, hdrop, if_neg hne]
    split_ifs <;> rfl

end Numeral

/-- Whatever `strtoul` takes as a whole is a number. -/
theorem exists_numeral {s : List Char} (hne : s ≠ []) (h : (strtoul s).2 = []) :
    ∃ n : Numeral, n.text = s := by
  have hspace : ∀ c ∈ s.takeWhile isSpace, isSpace c = true := fun c hc => List.mem_takeWhile_imp hc
  have hs : s.takeWhile isSpace ++ s.dropWhile isSpace = s := List.takeWhile_append_dropWhile
  -- the digits behind a sign, if they are what is left of the string
  have hdigits : ∀ (sign : Sign) (digits : List Char), s.dropWhile isSpace = sign.text ++ digits →
      digits.takeWhile Char.isDigit ≠ [] → digits.dropWhile Char.isDigit = [] →
        ∃ n : Numeral, n.text = s := by
    intro sign digits hbody hnonempty hall
    have hd := List.dropWhile_eq_nil_iff.mp hall
    rw [List.takeWhile_eq_self_iff.mpr hd] at hnonempty
    refine ⟨⟨s.takeWhile isSpace, sign, digits, hspace, hnonempty, hd⟩, ?_⟩
    rw [Numeral.text, ← hbody, hs]
  have hsplit : ∀ digits : List Char,
      (if digits.takeWhile Char.isDigit = [] then s else digits.dropWhile Char.isDigit) = [] →
        digits.takeWhile Char.isDigit ≠ [] ∧ digits.dropWhile Char.isDigit = [] := by
    intro digits hrest
    split_ifs at hrest with hnone
    · exact absurd hrest hne
    · exact ⟨hnone, hrest⟩
  have hrest := strtoul_snd s
  rw [h] at hrest
  dsimp only at hrest
  by_cases hsign : (s.dropWhile isSpace).head? = some '-' ∨ (s.dropWhile isSpace).head? = some '+'
  · rw [if_pos hsign] at hrest
    obtain ⟨hnonempty, hall⟩ := hsplit _ hrest.symm
    rcases hsign with hminus | hplus
    · exact hdigits .minus _ (List.eq_cons_of_mem_head? hminus) hnonempty hall
    · exact hdigits .plus _ (List.eq_cons_of_mem_head? hplus) hnonempty hall
  · rw [if_neg hsign] at hrest
    obtain ⟨hnonempty, hall⟩ := hsplit _ hrest.symm
    exact hdigits .none _ rfl hnonempty hall

/-- A string of decimal digits converts to its value. -/
theorem strtoul_digits {s : List Char} (hne : s ≠ []) (hd : ∀ c ∈ s, c.isDigit = true)
    (hlt : Nat.ofDigitChars 10 s 0 < 2 ^ 64) :
    strtoul s = (UInt64.ofNat (Nat.ofDigitChars 10 s 0), []) := by
  let n : Numeral := ⟨[], .none, s, Numeral.isSpace_nil, hne, hd⟩
  have hvalue : n.value = UInt64.ofNat n.magnitude := Numeral.value_of_lt hlt
  have hnumeral := n.strtoul_text
  rw [hvalue] at hnumeral
  exact hnumeral

/-- A numeral of `n` digits is below `10 ^ n`. -/
theorem ofDigitChars_lt {s : List Char} (hd : ∀ c ∈ s, c.isDigit = true) :
    Nat.ofDigitChars 10 s 0 < 10 ^ s.length := by
  induction s with
  | nil => exact Nat.zero_lt_one
  | cons c s ih =>
    have hrest := ih fun x hx => hd x (List.mem_cons_of_mem c hx)
    have hc : c.toNat - '0'.toNat ≤ 9 := by
      have := hd c (List.mem_cons_self ..)
      simp only [Char.isDigit, Bool.and_eq_true, decide_eq_true_eq] at this
      have hle : c.toNat ≤ 57 := UInt32.le_iff_toNat_le.mp this.2
      exact Nat.sub_le_sub_right hle 48
    rw [Nat.ofDigitChars_cons, Nat.ofDigitChars_eq_ofDigitChars_zero, List.length_cons,
      Nat.pow_succ, Nat.mul_zero, Nat.zero_add]
    calc 10 ^ s.length * (c.toNat - '0'.toNat) + Nat.ofDigitChars 10 s 0
        < 10 ^ s.length * 9 + 10 ^ s.length :=
          Nat.add_lt_add_of_le_of_lt (Nat.mul_le_mul_left _ hc) hrest
      _ = 10 ^ s.length * 10 := by omega

/-! ## Streams -/

/-- The next line, newline included, cut off after `room` characters. -/
def readLine : ℕ → List Char → List Char × List Char
  | 0, s => ([], s)
  | _ + 1, [] => ([], [])
  | room + 1, c :: s =>
    if c = '\n' then ([c], s) else (c :: (readLine room s).1, (readLine room s).2)

theorem length_readLine_le (room : ℕ) (s : List Char) : (readLine room s).1.length ≤ room := by
  induction room generalizing s with
  | zero => rfl
  | succ room ih =>
    cases s with
    | nil => exact Nat.zero_le _
    | cons c s =>
      rw [readLine]
      split_ifs
      · exact Nat.succ_le_succ (Nat.zero_le _)
      · exact Nat.succ_le_succ (ih s)

/-- `fgets` into a buffer of `size` characters; no line at the end of the stream. -/
def fgets (size : ℕ) (s : List Char) : Option (List Char × List Char) :=
  if s = [] then none else some (readLine (size - 1) s)

/-- The lines read by at most `n` calls of `fgets`. -/
def fgetsAll (size : ℕ) : ℕ → List Char → List (List Char)
  | 0, _ => []
  | n + 1, s =>
    match fgets size s with
    | none => []
    | some (line, rest) => line :: fgetsAll size n rest

/-- The lines a loop over `fgets` reads. -/
def linesOf (size : ℕ) (s : List Char) : List (List Char) := fgetsAll size s.length s

theorem readLine_length (room : ℕ) (s : List Char) (hroom : 0 < room) (hs : s ≠ []) :
    (readLine room s).2.length < s.length := by
  have hle : ∀ room s, (readLine room s).2.length ≤ s.length := by
    intro room
    induction room with
    | zero => intro s; exact le_refl _
    | succ room ih =>
      intro s
      cases s with
      | nil => exact le_refl _
      | cons c s =>
        simp only [readLine]
        split_ifs
        · exact Nat.le_succ _
        · exact le_trans (ih s) (Nat.le_succ _)
  obtain ⟨room, rfl⟩ := Nat.exists_eq_succ_of_ne_zero hroom.ne'
  obtain ⟨c, t, rfl⟩ := List.exists_cons_of_ne_nil hs
  simp only [readLine, List.length_cons]
  split_ifs
  · exact Nat.lt_succ_self _
  · exact Nat.lt_succ_of_le (hle room t)

/-- The number of calls does not matter as long as it suffices. -/
theorem fgetsAll_eq {size : ℕ} (hsize : 2 ≤ size) :
    ∀ {n m : ℕ} {s : List Char}, s.length ≤ n → s.length ≤ m →
      fgetsAll size n s = fgetsAll size m s := by
  intro n
  induction n with
  | zero =>
    intro m s hn _
    obtain rfl := List.eq_nil_of_length_eq_zero (Nat.le_zero.mp hn)
    cases m with
    | zero => rfl
    | succ m => rfl
  | succ n ih =>
    intro m s hn hm
    by_cases hs : s = []
    · subst hs
      cases m with
      | zero => rfl
      | succ m => rfl
    · have hpos : 0 < s.length := List.length_pos_iff.mpr hs
      obtain ⟨m, rfl⟩ := Nat.exists_eq_succ_of_ne_zero (n := m) (by omega)
      have hlt := readLine_length (size - 1) s (by omega) hs
      simp only [fgetsAll, fgets, if_neg hs]
      rw [ih (m := m) (by omega) (by omega)]

theorem linesOf_nil (size : ℕ) : linesOf size [] = [] := rfl

/-- The loop reads a line and goes on with the rest. -/
theorem linesOf_cons {size : ℕ} (hsize : 2 ≤ size) {s : List Char} (hs : s ≠ []) :
    linesOf size s = (readLine (size - 1) s).1 :: linesOf size (readLine (size - 1) s).2 := by
  have hpos : 0 < s.length := List.length_pos_iff.mpr hs
  obtain ⟨n, hn⟩ := Nat.exists_eq_succ_of_ne_zero (n := s.length) (by omega)
  have hlt := readLine_length (size - 1) s (by omega) hs
  rw [linesOf, hn, fgetsAll, fgets, if_neg hs]
  dsimp only
  rw [linesOf, fgetsAll_eq hsize (by omega) (le_refl _)]

theorem readLine_newline {room : ℕ} {w s : List Char} (hw : '\n' ∉ w) (hlen : w.length < room) :
    readLine room (w ++ '\n' :: s) = (w ++ ['\n'], s) := by
  induction w generalizing room with
  | nil =>
    obtain ⟨room, rfl⟩ := Nat.exists_eq_succ_of_ne_zero (n := room) (by omega)
    simp [readLine]
  | cons c w ih =>
    obtain ⟨room, rfl⟩ := Nat.exists_eq_succ_of_ne_zero (n := room) (by omega)
    rw [List.mem_cons, not_or] at hw
    simp only [List.length_cons] at hlen
    have hrest := @ih room hw.2 (by omega)
    simp only [List.cons_append, readLine, if_neg (Ne.symm hw.1), hrest]

theorem readLine_last {room : ℕ} {w : List Char} (hw : '\n' ∉ w) (hlen : w.length ≤ room) :
    readLine room w = (w, []) := by
  induction w generalizing room with
  | nil => cases room <;> rfl
  | cons c w ih =>
    simp only [List.length_cons] at hlen
    obtain ⟨room, rfl⟩ := Nat.exists_eq_succ_of_ne_zero (n := room) (by omega)
    rw [List.mem_cons, not_or] at hw
    have hrest := @ih room hw.2 (by omega)
    simp only [readLine, if_neg (Ne.symm hw.1), hrest]

/-- A line that fits the buffer is read whole. -/
theorem linesOf_line {size : ℕ} {w s : List Char} (hw : '\n' ∉ w) (hlen : w.length + 2 ≤ size) :
    linesOf size (w ++ '\n' :: s) = (w ++ ['\n']) :: linesOf size s := by
  rw [linesOf_cons (by omega) (by simp), readLine_newline hw (by omega)]

theorem linesOf_last {size : ℕ} {w : List Char} (hne : w ≠ []) (hw : '\n' ∉ w)
    (hlen : w.length + 1 ≤ size) (hsize : 2 ≤ size) : linesOf size w = [w] := by
  rw [linesOf_cons hsize hne, readLine_last hw (by omega), linesOf_nil]

/-! ## Pieces

What a loop over `fgets` has read when it comes to a given place of the text: the pieces
that are complete before it, and the beginning of the piece that the place is in. -/

/-- One more character: it ends the piece when it is a newline or fills the buffer. -/
def addChar (room : ℕ) (p : List (List Char) × List Char) (c : Char) :
    List (List Char) × List Char :=
  if c = '\n' ∨ p.2.length + 1 = room then (p.1 ++ [p.2 ++ [c]], []) else (p.1, p.2 ++ [c])

/-- The complete pieces of a text, with room for `room` characters in each, and the rest. -/
def pieces (room : ℕ) (text : List Char) : List (List Char) × List Char :=
  text.foldl (addChar room) ([], [])

theorem pieces_append_singleton (room : ℕ) (text : List Char) (c : Char) :
    pieces room (text ++ [c]) = addChar room (pieces room text) c := by
  simp [pieces]

/-- The rest is part of one line and leaves room. -/
theorem pieces_rest {room : ℕ} (hroom : 0 < room) (text : List Char) :
    '\n' ∉ (pieces room text).2 ∧ (pieces room text).2.length < room := by
  induction text using List.reverseRecOn with
  | nil => exact ⟨List.not_mem_nil, hroom⟩
  | append_singleton text c ih =>
    obtain ⟨hnl, hlen⟩ := ih
    rw [pieces_append_singleton, addChar]
    split_ifs with hend
    · exact ⟨List.not_mem_nil, hroom⟩
    · rw [not_or] at hend
      refine ⟨?_, ?_⟩
      · simpa [hnl] using Ne.symm hend.1
      · rw [List.length_append, List.length_singleton]
        exact lt_of_le_of_ne hlen hend.2

/-- The part of a line that there is room for is read before the rest. -/
theorem readLine_append {room : ℕ} {w : List Char} (s : List Char) (hw : '\n' ∉ w)
    (hlen : w.length ≤ room) :
    readLine room (w ++ s) =
      (w ++ (readLine (room - w.length) s).1, (readLine (room - w.length) s).2) := by
  induction w generalizing room with
  | nil => rfl
  | cons c w ih =>
    rw [List.mem_cons, not_or] at hw
    rw [List.length_cons] at hlen
    obtain ⟨room, rfl⟩ := Nat.exists_eq_succ_of_ne_zero (n := room) (by omega)
    have hrest := ih hw.2 (Nat.le_of_succ_le_succ hlen)
    simp only [List.length_cons, List.cons_append, readLine, if_neg (Ne.symm hw.1), hrest,
      Nat.succ_eq_add_one, Nat.add_sub_add_right]

/-- A piece that fills the buffer is read by itself. -/
theorem linesOf_full {room : ℕ} {w : List Char} (s : List Char) (hw : '\n' ∉ w)
    (hlen : w.length = room) (hroom : 0 < room) :
    linesOf (room + 1) (w ++ s) = w :: linesOf (room + 1) s := by
  have hne : w ++ s ≠ [] := by
    intro h
    obtain ⟨rfl, -⟩ := List.append_eq_nil_iff.mp h
    exact hroom.ne hlen
  rw [linesOf_cons (Nat.add_le_add_right hroom 1) hne, Nat.add_sub_cancel,
    readLine_append s hw hlen.le, hlen, Nat.sub_self, readLine, List.append_nil]

/-- The lines of a text are its pieces, and then the lines of what follows the last one. -/
theorem linesOf_pieces {room : ℕ} (hroom : 0 < room) (text s : List Char) :
    linesOf (room + 1) (text ++ s) =
      (pieces room text).1 ++ linesOf (room + 1) ((pieces room text).2 ++ s) := by
  induction text using List.reverseRecOn generalizing s with
  | nil => rfl
  | append_singleton text c ih =>
    obtain ⟨hnl, hlen⟩ := pieces_rest hroom text
    rw [List.append_assoc, ih, pieces_append_singleton, addChar]
    split_ifs with hend
    · rw [List.append_assoc, List.nil_append]
      congr 1
      by_cases hc : c = '\n'
      · subst hc
        exact linesOf_line hnl (by omega)
      · have hfull : (pieces room text).2.length + 1 = room := hend.resolve_left hc
        have hread := linesOf_full (w := (pieces room text).2 ++ [c]) s
          (by simpa [hnl] using Ne.symm hc) (by simpa using hfull) hroom
        rwa [List.append_assoc] at hread
    · rw [List.append_assoc]

/-- The lines of a text that ends in a newline are not joined with those behind it. -/
theorem linesOf_append {room : ℕ} (hroom : 0 < room) (text s : List Char) :
    linesOf (room + 1) (text ++ '\n' :: s) =
      linesOf (room + 1) (text ++ ['\n']) ++ linesOf (room + 1) s := by
  have hpieces : ∀ s, linesOf (room + 1) (text ++ ['\n'] ++ s) =
      (pieces room (text ++ ['\n'])).1 ++ linesOf (room + 1) s := by
    intro s
    have hend : (pieces room (text ++ ['\n'])).2 = [] := by
      rw [pieces_append_singleton, addChar, if_pos (Or.inl rfl)]
    have hlines := linesOf_pieces hroom (text ++ ['\n']) s
    rwa [hend] at hlines
  have hself := hpieces []
  rw [List.append_nil, linesOf_nil, List.append_nil] at hself
  rw [← List.singleton_append, ← List.append_assoc, hpieces s, hself]

/-- Pieces that fill the buffer are read one after the other. -/
theorem linesOf_flatten {room : ℕ} (hroom : 0 < room) {ws : List (List Char)}
    (hws : ∀ w ∈ ws, '\n' ∉ w ∧ w.length = room) (s : List Char) :
    linesOf (room + 1) (ws.flatten ++ s) = ws ++ linesOf (room + 1) s := by
  induction ws with
  | nil => rfl
  | cons w ws ih =>
    obtain ⟨hw, hlen⟩ := hws w (List.mem_cons_self ..)
    rw [List.flatten_cons, List.append_assoc, linesOf_full _ hw hlen hroom,
      ih fun v hv => hws v (List.mem_cons_of_mem w hv), List.cons_append]

end CLib

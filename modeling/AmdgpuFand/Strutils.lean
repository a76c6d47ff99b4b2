import AmdgpuFand.Lib.CString

/-!
# String helpers (`strutils.c`)

`strscpy` and `strsncpy` are given twice: as the source has them, loops that store
into memory cells, and as their callers see them, a return value and the string left
in the destination (`strscpyStr`, `strsncpyStr`). The two agree for every previous
content of the destination (`strscpy_eq`, `strsncpy_eq`), so the parser's model works
with strings alone.
-/

namespace AmdgpuFand

open CLib

/-! ## Bounded copies -/

/-- `while(i-- && (*d++ = *src++));` -/
def copyLoop : ℕ → List Char → List Char → List Char
  | 0, d, _ => d
  | _ + 1, [], _ => []
  | _ + 1, _ :: d, [] => '\x00' :: d
  | i + 1, _ :: d, c :: src => c :: copyLoop i d src

/-- `strscpy`, on the cells at and after `dst`. -/
def strscpy (dst src : List Char) (dstlen : ℕ) : ℤ × List Char :=
  let d := copyLoop dstlen dst src
  if dstlen ≤ src.length then (-e2big, d.set (dstlen - 1) '\x00') else (src.length, d)

/-- `strsncpy`, on the cells at and after `dst`. -/
def strsncpy (dst src : List Char) (dstlen n : ℕ) : ℤ × List Char :=
  let d := copyLoop (min dstlen n) dst src
  if dstlen ≤ n then (-e2big, d.set (dstlen - 1) '\x00')
  else if src.length < n then (-e2big, d)
  else (n, d.set n '\x00')

/-- `strscpy`, as its caller sees it. -/
def strscpyStr (src : List Char) (dstlen : ℕ) : ℤ × List Char :=
  if src.length < dstlen then (src.length, src) else (-e2big, src.take (dstlen - 1))

/-- `strsncpy`, as its caller sees it. -/
def strsncpyStr (src : List Char) (dstlen n : ℕ) : ℤ × List Char :=
  if dstlen ≤ n then (-e2big, src.take (dstlen - 1))
  else if src.length < n then (-e2big, src)
  else (n, src.take n)

/-- A copy has no characters of its own. -/
theorem mem_strscpyStr {c : Char} {src : List Char} {n : ℕ} (h : c ∈ (strscpyStr src n).2) :
    c ∈ src := by
  rw [strscpyStr] at h
  split_ifs at h
  · exact h
  · exact List.mem_of_mem_take h

theorem mem_strsncpyStr {c : Char} {src : List Char} {m n : ℕ}
    (h : c ∈ (strsncpyStr src m n).2) : c ∈ src := by
  rw [strsncpyStr] at h
  split_ifs at h
  · exact List.mem_of_mem_take h
  · exact h
  · exact List.mem_of_mem_take h

/-- The copy loop stores the string and its terminator, or as much as `i` cells hold. -/
theorem copyLoop_eq :
    ∀ {i : ℕ} {dst src : List Char}, i ≤ dst.length →
      copyLoop i dst src =
        if src.length < i then src ++ '\x00' :: dst.drop (src.length + 1)
        else src.take i ++ dst.drop i := by
  intro i
  induction i with
  | zero => intro dst src _; simp [copyLoop]
  | succ i ih =>
    intro dst src hi
    obtain ⟨a, dst, rfl⟩ := List.exists_cons_of_length_pos (l := dst) (by omega)
    cases src with
    | nil => simp [copyLoop]
    | cons c src =>
      simp only [List.length_cons] at hi
      simp only [copyLoop, ih (by omega : i ≤ dst.length), List.length_cons,
        Nat.add_lt_add_iff_right, List.take_succ_cons, List.drop_succ_cons]
      split_ifs <;> rfl

theorem set_append_drop {w dst : List Char} {i : ℕ} (hlen : w.length = i) (hi : i < dst.length)
    (c : Char) : (w ++ dst.drop i).set i c = w ++ c :: dst.drop (i + 1) := by
  subst hlen
  rw [List.set_append_right _ _ (le_refl _), Nat.sub_self, List.drop_eq_getElem_cons hi]
  rfl

/-- Cutting a string off with a NUL in the last of `n` cells. -/
theorem cstr_set_last {src dst : List Char} {n : ℕ} (hsrc : '\x00' ∉ src) (hn : 0 < n)
    (hlen : n ≤ src.length) :
    cstr ((src.take n ++ dst.drop n).set (n - 1) '\x00') = src.take (n - 1) := by
  have hset : (src.take n ++ dst.drop n).set (n - 1) '\x00' =
      src.take (n - 1) ++ '\x00' :: dst.drop n := by
    have hsplit : src.take n = src.take (n - 1) ++ [src[n - 1]] := by
      have := List.take_append_getElem (l := src) (i := n - 1) (by omega)
      rw [this]
      congr 1
      omega
    have htake : (src.take (n - 1)).length = n - 1 := List.length_take_of_le (by omega)
    rw [hsplit, List.append_assoc, List.set_append_right _ _ (by omega), htake, Nat.sub_self]
    rfl
  rw [hset]
  exact cstr_append fun h => hsrc (List.mem_of_mem_take h)

/-- `strscpy` leaves the same string for every destination. -/
theorem strscpy_eq {dst src : List Char} {dstlen : ℕ} (hsrc : '\x00' ∉ src) (hpos : 0 < dstlen)
    (hdst : dstlen ≤ dst.length) :
    (strscpy dst src dstlen).1 = (strscpyStr src dstlen).1 ∧
      cstr (strscpy dst src dstlen).2 = (strscpyStr src dstlen).2 := by
  by_cases hfit : src.length < dstlen
  · simp only [strscpy, strscpyStr, if_neg (Nat.not_le.mpr hfit), if_pos hfit,
      copyLoop_eq hdst]
    exact ⟨trivial, cstr_append hsrc⟩
  · simp only [strscpy, strscpyStr, if_pos (Nat.not_lt.mp hfit), if_neg hfit, copyLoop_eq hdst]
    exact ⟨trivial, cstr_set_last hsrc hpos (Nat.not_lt.mp hfit)⟩

/-- `strsncpy` leaves the same string for every destination. -/
theorem strsncpy_eq {dst src : List Char} {dstlen n : ℕ} (hsrc : '\x00' ∉ src) (hpos : 0 < dstlen)
    (hdst : dstlen ≤ dst.length) :
    (strsncpy dst src dstlen n).1 = (strsncpyStr src dstlen n).1 ∧
      cstr (strsncpy dst src dstlen n).2 = (strsncpyStr src dstlen n).2 := by
  by_cases hfit : dstlen ≤ n
  · simp only [strsncpy, strsncpyStr, if_pos hfit, Nat.min_eq_left hfit, copyLoop_eq hdst]
    refine ⟨trivial, ?_⟩
    by_cases hshort : src.length < dstlen
    · -- the source ends before the cut: the string is already terminated
      rw [if_pos hshort]
      have htake : src.take (dstlen - 1) = src := List.take_of_length_le (by omega)
      rw [htake]
      rcases Nat.lt_or_ge src.length (dstlen - 1) with hlt | hge
      · rw [List.set_append_right _ _ hlt.le, show dstlen - 1 - src.length =
          (dstlen - 1 - src.length - 1) + 1 by omega, List.set_cons_succ]
        exact cstr_append hsrc
      · rw [List.set_append_right _ _ (by omega), show dstlen - 1 - src.length = 0 by omega,
          List.set_cons_zero]
        exact cstr_append hsrc
    · rw [if_neg hshort]
      exact cstr_set_last hsrc hpos (Nat.not_lt.mp hshort)
  · have hmin : min dstlen n = n := Nat.min_eq_right (by omega)
    simp only [strsncpy, strsncpyStr, if_neg hfit, hmin, copyLoop_eq (by omega : n ≤ dst.length)]
    by_cases hshort : src.length < n
    · simp only [if_pos hshort]
      exact ⟨trivial, cstr_append hsrc⟩
    · simp only [if_neg hshort]
      refine ⟨trivial, ?_⟩
      rw [set_append_drop (List.length_take_of_le (by omega)) (by omega)]
      exact cstr_append fun h => hsrc (List.mem_of_mem_take h)

/-- A text that fits is copied whole. -/
theorem strsncpyStr_fits {src : List Char} {dstlen : ℕ} (h : src.length < dstlen) :
    strsncpyStr src dstlen src.length = ((src.length : ℤ), src) := by
  rw [strsncpyStr, if_neg (Nat.not_le.mpr h), if_neg (lt_irrefl _), List.take_length]

/-! ## Conversions -/

/-- `strtolower` -/
def strtolower (s : List Char) : List Char := s.map Char.toLower

/-- `strstoul`: the status and the value stored. -/
def strstoul (src : List Char) : ℤ × UInt64 :=
  if src = [] then (-einval, 0)
  else if (strtoul src).2 ≠ [] then (-einval, (strtoul src).1)
  else (0, (strtoul src).1)

/-- `strstoul` accepts the numbers. -/
theorem strstoul_eq_ok_iff {src : List Char} {value : UInt64} :
    strstoul src = (0, value) ↔ ∃ n : Numeral, n.text = src ∧ n.value = value := by
  refine ⟨?_, ?_⟩
  · intro h
    simp only [strstoul] at h
    split_ifs at h with hne hrest
    · cases h
    · cases h
    · rw [not_not] at hrest
      obtain ⟨n, rfl⟩ := exists_numeral hne hrest
      rw [n.strtoul_text] at h
      cases h
      exact ⟨n, rfl, rfl⟩
  · rintro ⟨n, rfl, rfl⟩
    rw [strstoul, if_neg n.text_ne_nil, n.strtoul_text, if_neg (not_not.mpr rfl)]

/-- `strstoul_range` -/
def strstoulRange (src : List Char) (low high : UInt64) : ℤ × UInt64 :=
  if (strstoul src).1 ≠ 0 then strstoul src
  else (-einval * if (strstoul src).2 < low ∨ high < (strstoul src).2 then 1 else 0,
    (strstoul src).2)

/-- What `strstoul_range` accepts is in the range. -/
theorem strstoulRange_mem {src : List Char} {low high : UInt64}
    (h : (strstoulRange src low high).1 = 0) :
    low ≤ (strstoulRange src low high).2 ∧ (strstoulRange src low high).2 ≤ high := by
  unfold strstoulRange at h ⊢
  by_cases hst : (strstoul src).1 ≠ 0
  · rw [if_pos hst] at h
    exact absurd h hst
  · rw [if_neg hst] at h ⊢
    by_cases hout : (strstoul src).2 < low ∨ high < (strstoul src).2
    · rw [if_pos hout] at h
      simp [einval] at h
    · rw [not_or, UInt64.not_lt, UInt64.not_lt] at hout
      exact hout

theorem strstoulRange_snd (src : List Char) (low high : UInt64) :
    (strstoulRange src low high).2 = (strstoul src).2 := by
  rw [strstoulRange]
  split_ifs <;> rfl

/-- A numeral is converted to its value. -/
theorem strstoul_digits {s : List Char} (hne : s ≠ []) (hd : ∀ c ∈ s, c.isDigit = true)
    (hlt : Nat.ofDigitChars 10 s 0 < 2 ^ 64) :
    strstoul s = (0, UInt64.ofNat (Nat.ofDigitChars 10 s 0)) := by
  simp only [strstoul, if_neg hne, strtoul_digits hne hd hlt, ne_eq, not_true_eq_false, if_false]

/-- A numeral in range is accepted with its value. -/
theorem strstoulRange_digits {s : List Char} {low high : UInt64} (hne : s ≠ [])
    (hd : ∀ c ∈ s, c.isDigit = true) (hlt : Nat.ofDigitChars 10 s 0 < 2 ^ 64)
    (hlow : low.toNat ≤ Nat.ofDigitChars 10 s 0) (hhigh : Nat.ofDigitChars 10 s 0 ≤ high.toNat) :
    strstoulRange s low high = (0, UInt64.ofNat (Nat.ofDigitChars 10 s 0)) := by
  have hin : ¬ (UInt64.ofNat (Nat.ofDigitChars 10 s 0) < low ∨
      high < UInt64.ofNat (Nat.ofDigitChars 10 s 0)) := by
    rw [UInt64.lt_iff_toNat_lt, UInt64.lt_iff_toNat_lt,
      UInt64.toNat_ofNat_of_lt' hlt]
    omega
  simp only [strstoulRange, strstoul_digits hne hd hlt, ne_eq, not_true_eq_false, if_false,
    if_neg hin, Int.mul_zero]

end AmdgpuFand

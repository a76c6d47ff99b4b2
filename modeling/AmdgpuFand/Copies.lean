import AmdgpuFand.Lib.Cells
import AmdgpuFand.Strutils

/-!
# The copies stay inside the buffer and terminate it

`strscpy` and `strsncpy` store by store. The model in `Strutils` says which cells a call leaves;
here every store is recorded with its index and is undefined outside of the destination, and so is
a load from the source outside of its object. The two agree (`strscpyAt_eq`, `strsncpyAt_eq`), and
`copies_exact` is what the callers rely on. A counter that is zero wraps around when it is
decremented, but that ends the loop, and it is not used again.
-/

namespace AmdgpuFand

open CLib

/-! ## The source, store by store -/

/-- `strlen` of the string at the front of an object, if it is terminated -/
def strlen (object : List Char) : Option ℕ :=
  if '\x00' ∈ object then some (cstr object).length else none

/-- `while(i-- && (*d++ = *src++));` -/
def scpyLoop : ℕ → ℕ → List Char → Cells Char → Option (Cells Char)
  | 0, _, _, m => some m
  | _ + 1, _, [], _ => none
  | i + 1, d, c :: src, m => do
    let m ← m.store d c
    if c = '\x00' then some m else scpyLoop i (d + 1) src m

/-- `while(i-- && nn-- && (*d++ = *src++));` -/
def sncpyLoop : ℕ → ℕ → ℕ → List Char → Cells Char → Option (Cells Char)
  | 0, _, _, _, m => some m
  | _ + 1, 0, _, _, m => some m
  | _ + 1, _ + 1, _, [], _ => none
  | i + 1, nn + 1, d, c :: src, m => do
    let m ← m.store d c
    if c = '\x00' then some m else sncpyLoop i nn (d + 1) src m

/-- `dst[dstlen - 1] = '\0'`. The index of an empty destination wraps around to the largest
`size_t`, which is outside of every object. -/
def storeLast (m : Cells Char) : ℕ → Option (Cells Char)
  | 0 => none
  | last + 1 => m.store last '\x00'

/-- `strscpy`, with the object that `src` points into -/
def strscpyAt (dst object : List Char) (dstlen : ℕ) : Option (ℤ × Cells Char) := do
  let srclen ← strlen object
  let m ← scpyLoop dstlen 0 object (.fresh dst)
  if dstlen ≤ srclen then
    let m ← storeLast m dstlen
    some (-e2big, m)
  else some (srclen, m)

/-- `strsncpy`, with the object that `src` points into -/
def strsncpyAt (dst object : List Char) (dstlen n : ℕ) : Option (ℤ × Cells Char) := do
  let srclen ← strlen object
  let m ← sncpyLoop dstlen n 0 object (.fresh dst)
  if dstlen ≤ n then
    let m ← storeLast m dstlen
    some (-e2big, m)
  else if srclen < n then some (-e2big, m)
  else
    let m ← m.store n '\x00'
    some (n, m)

/-! ## The loops -/

variable {src behind : List Char}

theorem strlen_append (hsrc : '\x00' ∉ src) (behind : List Char) :
    strlen (src ++ '\x00' :: behind) = some src.length := by
  have hmem : '\x00' ∈ src ++ '\x00' :: behind :=
    List.mem_append_right src (List.mem_cons_self ..)
  rw [strlen, if_pos hmem, cstr_append hsrc]

/-- The loop of `strsncpy` is the one of `strscpy` with the smaller count. -/
theorem sncpyLoop_eq (i nn d : ℕ) (object : List Char) (m : Cells Char) :
    sncpyLoop i nn d object m = scpyLoop (min i nn) d object m := by
  induction i generalizing nn d object m with
  | zero => rw [Nat.zero_min, sncpyLoop, scpyLoop]
  | succ i ih =>
    rcases nn with _ | nn
    · rw [Nat.min_zero, sncpyLoop, scpyLoop]
    · rw [Nat.succ_min_succ]
      rcases object with _ | ⟨c, object⟩
      · rfl
      · rw [sncpyLoop, scpyLoop]
        simp only [ih]

/-- The loop stores what `copyLoop` says, from the first cell on and without a gap. -/
theorem scpyLoop_eq (hsrc : '\x00' ∉ src) {i : ℕ} {front cells : List Char} {w : List ℕ}
    (hi : i ≤ cells.length) :
    scpyLoop i front.length (src ++ '\x00' :: behind) ⟨front ++ cells, w⟩ =
      some ⟨front ++ copyLoop i cells src,
        w ++ List.range' front.length (min i (src.length + 1))⟩ := by
  -- on the count: the cell that has been stored to becomes the last one of `front`
  induction i generalizing src front cells w with
  | zero => simp [scpyLoop, copyLoop]
  | succ i ih =>
    obtain ⟨a, cells, rfl⟩ := List.exists_cons_of_length_pos (Nat.zero_lt_of_lt hi)
    rcases src with _ | ⟨c, src⟩
    · rw [List.nil_append, scpyLoop, Cells.store_append]
      simp [copyLoop]
    · rw [List.mem_cons, not_or] at hsrc
      obtain ⟨hc, hsrc⟩ := hsrc
      have hrest : scpyLoop i (front ++ [c]).length (src ++ '\x00' :: behind)
          ⟨front ++ [c] ++ cells, w ++ [front.length]⟩ =
            some ⟨front ++ [c] ++ copyLoop i cells src,
              w ++ [front.length] ++ List.range' (front ++ [c]).length (min i (src.length + 1))⟩ :=
        ih hsrc (Nat.le_of_succ_le_succ hi)
      rw [List.length_append, List.length_singleton, List.append_assoc, List.singleton_append,
        List.append_assoc, List.append_assoc, List.singleton_append, List.singleton_append]
        at hrest
      rw [List.cons_append, scpyLoop, Cells.store_append, Option.bind_eq_bind, Option.bind_some,
        if_neg (Ne.symm hc), hrest, copyLoop, List.length_cons, Nat.succ_min_succ,
        List.range'_succ]

theorem tracks_scpyLoop {start object : List Char} {i d : ℕ} {m m' : Cells Char}
    (h : m.Tracks start) (hloop : scpyLoop i d object m = some m') : m'.Tracks start := by
  induction i generalizing d object m with
  | zero =>
    cases hloop
    exact h
  | succ i ih =>
    rcases object with _ | ⟨c, object⟩
    · cases hloop
    · rw [scpyLoop] at hloop
      obtain ⟨m₁, hstore, hrest⟩ := Option.bind_eq_some_iff.mp hloop
      split_ifs at hrest with hc
      · cases hrest
        exact h.store hstore
      · exact ih (h.store hstore) hrest

/-! ## Destinations -/

/-- The stores have been below `dstlen`, and nothing else has changed. -/
structure StoredBelow (dst : List Char) (dstlen : ℕ) (m : Cells Char) : Prop where
  tracks : m.Tracks dst
  written : ∀ i ∈ m.written, i < dstlen

/-- A destination as a bounded copy leaves it: with a terminator below `dstlen` -/
structure TerminatedBelow (dst : List Char) (dstlen : ℕ) (m : Cells Char) : Prop
    extends StoredBelow dst dstlen m where
  terminated : ∃ i < dstlen, m.contents[i]? = some '\x00'

variable {dst : List Char} {dstlen : ℕ}

theorem StoredBelow.store {m : Cells Char} (h : StoredBelow dst dstlen m)
    (hdst : dstlen ≤ dst.length) {i : ℕ} (hi : i < dstlen) (c : Char) :
    ∃ m', m.store i c = some m' ∧ m'.contents = m.contents.set i c ∧ StoredBelow dst dstlen m' := by
  have hlt : i < m.contents.length := by
    rw [h.tracks.length]
    omega
  have hstore : m.store i c = some ⟨m.contents.set i c, m.written ++ [i]⟩ := if_pos hlt
  refine ⟨_, hstore, rfl, h.tracks.store hstore, ?_⟩
  intro j hj
  rcases List.mem_append.mp hj with hj | hj
  · exact h.written j hj
  · rw [List.mem_singleton] at hj
    rwa [hj]

/-- A store of the terminator completes a copy. -/
theorem StoredBelow.terminate {m : Cells Char} (h : StoredBelow dst dstlen m)
    (hdst : dstlen ≤ dst.length) {i : ℕ} (hi : i < dstlen) :
    ∃ m', m.store i '\x00' = some m' ∧ m'.contents = m.contents.set i '\x00' ∧
      TerminatedBelow dst dstlen m' := by
  obtain ⟨m', hstore, hcontents, hbelow⟩ := h.store hdst hi '\x00'
  refine ⟨m', hstore, hcontents, hbelow, i, hi, ?_⟩
  have hlt : i < m.contents.length := by
    rw [h.tracks.length]
    omega
  rw [hcontents, List.getElem?_set_self hlt]

/-- The loop on an empty record -/
theorem scpyLoop_below (hsrc : '\x00' ∉ src) {i : ℕ} (hi : i ≤ dstlen)
    (hdst : dstlen ≤ dst.length) :
    ∃ m, (∀ behind, scpyLoop i 0 (src ++ '\x00' :: behind) (.fresh dst) = some m) ∧
      m.contents = copyLoop i dst src ∧ StoredBelow dst dstlen m := by
  have hloop : ∀ behind, scpyLoop i 0 (src ++ '\x00' :: behind) (.fresh dst) =
      some ⟨copyLoop i dst src, List.range' 0 (min i (src.length + 1))⟩ :=
    fun behind => @scpyLoop_eq src behind hsrc i [] dst [] (hi.trans hdst)
  refine ⟨_, hloop, rfl, tracks_scpyLoop (Cells.tracks_fresh dst) (hloop []), ?_⟩
  intro j hj
  obtain ⟨-, hlt⟩ := List.mem_range'_1.mp hj
  omega

theorem StoredBelow.storeLast {m : Cells Char} (h : StoredBelow dst dstlen m) (hpos : 1 ≤ dstlen)
    (hdst : dstlen ≤ dst.length) :
    ∃ m', storeLast m dstlen = some m' ∧ m'.contents = m.contents.set (dstlen - 1) '\x00' ∧
      TerminatedBelow dst dstlen m' := by
  obtain ⟨last, rfl⟩ := Nat.exists_eq_succ_of_ne_zero (Nat.one_le_iff_ne_zero.mp hpos)
  exact h.terminate hdst (Nat.lt_succ_self last)

/-- A text that is copied whole is terminated behind it. -/
theorem StoredBelow.terminated {m : Cells Char} (h : StoredBelow dst dstlen m)
    {text rest : List Char} (hcontents : m.contents = text ++ '\x00' :: rest)
    (hlen : text.length < dstlen) : TerminatedBelow dst dstlen m := by
  refine ⟨h, text.length, hlen, ?_⟩
  rw [hcontents, List.getElem?_append_right (le_refl _), Nat.sub_self, List.getElem?_cons_zero]

/-- `strscpy` leaves the cells that the model in `Strutils` says. -/
theorem strscpyAt_eq (hsrc : '\x00' ∉ src) (hpos : 1 ≤ dstlen) (hdst : dstlen ≤ dst.length) :
    ∃ m, (∀ behind, strscpyAt dst (src ++ '\x00' :: behind) dstlen =
        some ((strscpy dst src dstlen).1, m)) ∧
      m.contents = (strscpy dst src dstlen).2 ∧ TerminatedBelow dst dstlen m := by
  obtain ⟨m, hloop, hcontents, hbelow⟩ := @scpyLoop_below src dst dstlen hsrc _ (le_refl _) hdst
  by_cases hfit : dstlen ≤ src.length
  · obtain ⟨m', hstore, hcontents', hterminated⟩ := hbelow.storeLast hpos hdst
    refine ⟨m', fun behind => ?_, ?_, hterminated⟩
    · simp only [strscpyAt, strlen_append hsrc, hloop, Option.bind_eq_bind, Option.bind_some,
        if_pos hfit, hstore, strscpy]
    · rw [hcontents', hcontents, strscpy, if_pos hfit]
  · refine ⟨m, fun behind => ?_, ?_, ?_⟩
    · simp only [strscpyAt, strlen_append hsrc, hloop, Option.bind_eq_bind, Option.bind_some,
        if_neg hfit, strscpy]
    · rw [hcontents, strscpy, if_neg hfit]
    · rw [copyLoop_eq hdst, if_pos (Nat.lt_of_not_le hfit)] at hcontents
      exact hbelow.terminated hcontents (Nat.lt_of_not_le hfit)

/-- `strsncpy` leaves the cells that the model in `Strutils` says. -/
theorem strsncpyAt_eq (hsrc : '\x00' ∉ src) (hpos : 1 ≤ dstlen) (hdst : dstlen ≤ dst.length)
    (n : ℕ) :
    ∃ m, (∀ behind, strsncpyAt dst (src ++ '\x00' :: behind) dstlen n =
        some ((strsncpy dst src dstlen n).1, m)) ∧
      m.contents = (strsncpy dst src dstlen n).2 ∧ TerminatedBelow dst dstlen m := by
  obtain ⟨m, hloop, hcontents, hbelow⟩ :=
    @scpyLoop_below src dst dstlen hsrc (min dstlen n) (Nat.min_le_left _ _) hdst
  by_cases hfit : dstlen ≤ n
  · obtain ⟨m', hstore, hcontents', hterminated⟩ := hbelow.storeLast hpos hdst
    refine ⟨m', fun behind => ?_, ?_, hterminated⟩
    · simp only [strsncpyAt, strlen_append hsrc, sncpyLoop_eq, hloop, Option.bind_eq_bind,
        Option.bind_some, if_pos hfit, hstore, strsncpy]
    · rw [hcontents', hcontents, strsncpy, if_pos hfit]
  · have hmin : min dstlen n = n := Nat.min_eq_right (Nat.le_of_not_le hfit)
    by_cases hshort : src.length < n
    · refine ⟨m, fun behind => ?_, ?_, ?_⟩
      · simp only [strsncpyAt, strlen_append hsrc, sncpyLoop_eq, hloop, Option.bind_eq_bind,
          Option.bind_some, if_neg hfit, if_pos hshort, strsncpy]
      · rw [hcontents, strsncpy, if_neg hfit, if_pos hshort]
      · rw [hmin, copyLoop_eq (by omega), if_pos hshort] at hcontents
        exact hbelow.terminated hcontents (by omega)
    · obtain ⟨m', hstore, hcontents', hterminated⟩ := hbelow.terminate hdst (Nat.lt_of_not_le hfit)
      refine ⟨m', fun behind => ?_, ?_, hterminated⟩
      · simp only [strsncpyAt, strlen_append hsrc, sncpyLoop_eq, hloop, Option.bind_eq_bind,
          Option.bind_some, if_neg hfit, if_neg hshort, hstore, strsncpy]
      · rw [hcontents', hcontents, strsncpy, if_neg hfit, if_neg hshort]

/-! ## Texts -/

theorem strscpy_fits (hdst : dstlen ≤ dst.length) (h : src.length < dstlen) :
    strscpy dst src dstlen = ((src.length : ℤ), src ++ '\x00' :: dst.drop (src.length + 1)) := by
  rw [strscpy, if_neg (Nat.not_le.mpr h), copyLoop_eq hdst, if_pos h]

theorem strsncpy_fits (hdst : dstlen ≤ dst.length) {n : ℕ} (hn : n < dstlen)
    (h : n ≤ src.length) :
    strsncpy dst src dstlen n = ((n : ℤ), src.take n ++ '\x00' :: dst.drop (n + 1)) := by
  have hmin : min dstlen n = n := Nat.min_eq_right hn.le
  rw [strsncpy, if_neg (Nat.not_le.mpr hn), if_neg (Nat.not_lt.mpr h), hmin,
    copyLoop_eq (by omega), if_neg (Nat.not_lt.mpr h),
    set_append_drop (List.length_take_of_le h) (by omega)]

/-- What `strsncpy` leaves if it fails is cut off by the smaller of the two bounds. -/
theorem strsncpyStr_fails {n : ℕ} (h : ¬ (n < dstlen ∧ n ≤ src.length)) :
    strsncpyStr src dstlen n = (-e2big, src.take (min n (dstlen - 1))) := by
  rw [strsncpyStr]
  by_cases hfit : dstlen ≤ n
  · rw [if_pos hfit, Nat.min_eq_right (by omega)]
  · have hshort : src.length < n := by omega
    rw [if_neg hfit, if_pos hshort, Nat.min_eq_left (by omega), List.take_of_length_le hshort.le]

/-- **Bounded copies.** For every text, whatever is behind it and in the destination, every size of
the destination and every `n`: all stores are below `dstlen`, and there is a terminator below it.
`strscpy` returns the length if and only if there is room for the text, and `strsncpy` returns `n`
if and only if there is room for `n` characters and the text has as many; then the characters and
the terminator are all that changes. Otherwise the result is `-E2BIG`, with as much of the text as
the bounds admit. -/
theorem copies_exact (hsrc : '\x00' ∉ src) (hpos : 1 ≤ dstlen) (hdst : dstlen ≤ dst.length)
    (n : ℕ) :
    (∃ ret m, (∀ behind, strscpyAt dst (src ++ '\x00' :: behind) dstlen = some (ret, m)) ∧
      TerminatedBelow dst dstlen m ∧ (ret = src.length ↔ src.length < dstlen) ∧
      (src.length < dstlen → m.contents = src ++ '\x00' :: dst.drop (src.length + 1)) ∧
      (¬ src.length < dstlen → ret = -e2big ∧ cstr m.contents = src.take (dstlen - 1))) ∧
    (∃ ret m, (∀ behind, strsncpyAt dst (src ++ '\x00' :: behind) dstlen n = some (ret, m)) ∧
      TerminatedBelow dst dstlen m ∧ (ret = n ↔ n < dstlen ∧ n ≤ src.length) ∧
      (n < dstlen ∧ n ≤ src.length → m.contents = src.take n ++ '\x00' :: dst.drop (n + 1)) ∧
      (¬ (n < dstlen ∧ n ≤ src.length) →
        ret = -e2big ∧ cstr m.contents = src.take (min n (dstlen - 1)))) := by
  have hneg : ∀ k : ℕ, -e2big ≠ (k : ℤ) := by
    intro k
    rw [e2big]
    omega
  refine ⟨?_, ?_⟩
  · obtain ⟨m, hrun, hcontents, hterminated⟩ := strscpyAt_eq hsrc hpos hdst
    obtain ⟨hret, htext⟩ := strscpy_eq hsrc hpos hdst
    refine ⟨_, m, hrun, hterminated, ⟨fun hlen => ?_, fun hfit => ?_⟩, fun hfit => ?_,
      fun hbig => ?_⟩
    · by_contra hbig
      rw [hret, strscpyStr, if_neg hbig] at hlen
      exact hneg _ hlen
    · rw [strscpy_fits hdst hfit]
    · rw [hcontents, strscpy_fits hdst hfit]
    · rw [hcontents, hret, htext, strscpyStr, if_neg hbig]
      exact ⟨rfl, rfl⟩
  · obtain ⟨m, hrun, hcontents, hterminated⟩ := strsncpyAt_eq hsrc hpos hdst n
    obtain ⟨hret, htext⟩ := @strsncpy_eq dst src dstlen n hsrc hpos hdst
    refine ⟨_, m, hrun, hterminated, ⟨fun hlen => ?_, fun hfit => ?_⟩, fun hfit => ?_,
      fun hbig => ?_⟩
    · by_contra hbig
      rw [hret, strsncpyStr_fails hbig] at hlen
      exact hneg _ hlen
    · rw [strsncpy_fits hdst hfit.1 hfit.2]
    · rw [hcontents, strsncpy_fits hdst hfit.1 hfit.2]
    · rw [hcontents, hret, htext, strsncpyStr_fails hbig]
      exact ⟨rfl, rfl⟩

/-- `"String"` in a destination of eight cells, of which `strsncpy` is to copy nine -/
theorem copies_exact_string :
    (∃ m, strscpyAt (List.replicate 8 'x') ("String".toList ++ ['\x00']) 8 = some (6, m) ∧
      m.contents = "String\x00x".toList) ∧
    ∃ m, strsncpyAt (List.replicate 8 'x') ("String".toList ++ ['\x00']) 8 9 = some (-e2big, m) ∧
      cstr m.contents = "String".toList := by
  have hsrc : '\x00' ∉ "String".toList := by decide
  obtain ⟨⟨ret, m, hrun, -, hret, hfit, -⟩, ret', m', hrun', -, -, -, hbig⟩ :=
    @copies_exact "String".toList (List.replicate 8 'x') 8 hsrc (by decide) (by decide) 9
  refine ⟨⟨m, ?_, hfit (by decide)⟩, m', ?_, (hbig (by decide)).2⟩
  · rw [hrun [], hret.mpr (by decide)]
    rfl
  · rw [hrun' [], (hbig (by decide)).1]

end AmdgpuFand

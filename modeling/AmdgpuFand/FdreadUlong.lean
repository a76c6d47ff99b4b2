import AmdgpuFand.Hwmon
import AmdgpuFand.Sensor

/-!
# Reading a number byte by byte

`fdread_ulong` reads a byte at a time until it comes to a newline or a NUL. It differs from
`fread_ulong_excl`, which starts with a buffer of zeros, hands its size to `fgets` and puts a NUL in
the place of the newline: the buffer is uninitialised, the newline stays in it, the end of the file
is not noticed, and nothing bounds the index. `fdreadUlong_iff` says which files it reads all the
same: those with a NUL among the first sixteen bytes and no newline before it.
-/

namespace AmdgpuFand

open CLib

/-! ## The source -/

/-- What `read(fd, .., 1)` does: it stores a byte, or it returns 0, or -1 -/
inductive ReadResult
  | byte (b : UInt8)
  | eof
  | error
  deriving DecidableEq, Repr

/-- The cell behind the call. Without a byte it keeps what is in it. -/
def ReadResult.cell (stale : UInt8) : ReadResult → UInt8
  | byte b => b
  | eof => stale
  | error => stale

/-- `'\n'` -/
def newline : UInt8 := 10

/-- The loop of `fdread_ulong`. The call for the index `byteidx` is answered by `read byteidx`. An
index outside of the buffer is undefined, and comes before the loop can run out of `fuel`. -/
def fdreadLoop (read : ℕ → ReadResult) : ℕ → ℕ → List UInt8 → Option (List UInt8)
  | 0, _, _ => none
  | fuel + 1, byteidx, buffer =>
    if h : byteidx < buffer.length then
      if read byteidx = .error then some buffer
      else
        let c := (read byteidx).cell buffer[byteidx]
        let buffer := buffer.set byteidx c
        if c = newline ∨ c = 0 then some buffer else fdreadLoop read fuel (byteidx + 1) buffer
    else none

/-- The string in a buffer, if there is a terminator in it -/
def stringIn (buffer : List UInt8) : Option (List UInt8) :=
  if 0 ∈ buffer then some (pathOf buffer) else none

/-- The argument of `strstoul`, for a buffer that holds `stale` when the function is entered -/
def fdreadText (read : ℕ → ReadResult) (stale : List UInt8) : Option (List UInt8) :=
  (fdreadLoop read (stale.length + 1) 0 stale).bind stringIn

/-- `fdread_ulong` -/
def fdreadUlong (read : ℕ → ReadResult) (stale : Vector UInt8 fileUlongBufsize) :
    Option (ℤ × UInt64) :=
  (fdreadText read stale.toList).map fun text => strstoul (text.map charOf)

/-- The answers for a file with this content -/
def fileReads (content : List UInt8) (k : ℕ) : ReadResult :=
  (content[k]?).elim .eof .byte

/-! ## What is to be read -/

variable {read : ℕ → ReadResult}

/-- The argument of `strstoul` is there, and every byte of it has been read into its place, with no
newline and no NUL before it. -/
def FromFile (read : ℕ → ReadResult) (text : Option (List UInt8)) : Prop :=
  ∃ bytes, text = some bytes ∧ ∀ i b, bytes[i]? = some b →
    read i = .byte b ∧ ∀ j < i, read j ≠ .byte newline ∧ read j ≠ .byte 0

/-- A call reads a byte that the loop goes on behind. -/
def Ordinary (read : ℕ → ReadResult) (i : ℕ) : Prop :=
  ∃ b, read i = .byte b ∧ b ≠ newline ∧ b ≠ 0

/-- One of `n` calls from `k` on reads a NUL, and those before it read bytes that the loop goes on
behind. -/
def NulFrom (read : ℕ → ReadResult) (k n : ℕ) : Prop :=
  ∃ j, k ≤ j ∧ j < k + n ∧ (∀ i, k ≤ i → i < j → Ordinary read i) ∧ read j = .byte 0

/-! ## The loop -/

/-- One turn, on the cell behind what has been read -/
theorem fdreadLoop_cons (fuel : ℕ) (front : List UInt8) (stale : UInt8) (rest : List UInt8) :
    fdreadLoop read (fuel + 1) front.length (front ++ stale :: rest) =
      if read front.length = .error then some (front ++ stale :: rest)
      else
        let c := (read front.length).cell stale
        if c = newline ∨ c = 0 then some (front ++ c :: rest)
        else fdreadLoop read fuel (front ++ [c]).length (front ++ [c] ++ rest) := by
  have hlt : front.length < (front ++ stale :: rest).length := by
    rw [List.length_append, List.length_cons]
    omega
  have hget : (front ++ stale :: rest)[front.length] = stale := by
    rw [List.getElem_append_right (le_refl _)]
    simp
  have hset : ∀ c, (front ++ stale :: rest).set front.length c = front ++ c :: rest := by
    intro c
    rw [List.set_append_right _ _ (le_refl _), Nat.sub_self, List.set_cons_zero]
  rw [fdreadLoop, dif_pos hlt]
  simp only [hget, hset, List.length_append, List.length_singleton, List.append_assoc,
    List.singleton_append]

/-- Behind the last cell the index is outside of the buffer. -/
theorem fdreadLoop_nil (fuel : ℕ) (front : List UInt8) :
    fdreadLoop read fuel front.length front = none := by
  cases fuel with
  | zero => rfl
  | succ fuel => rw [fdreadLoop, dif_neg (lt_irrefl _)]

/-- What the loop has gone past stays in the buffer. -/
theorem fdreadLoop_prefix {fuel : ℕ} {front rest after : List UInt8}
    (h : fdreadLoop read fuel front.length (front ++ rest) = some after) : front <+: after := by
  induction rest generalizing fuel front with
  | nil =>
    rw [List.append_nil, fdreadLoop_nil] at h
    cases h
  | cons stale rest ih =>
    rcases fuel with _ | fuel
    · cases h
    · rw [fdreadLoop_cons] at h
      dsimp only at h
      split_ifs at h with herror hstop
      · cases h
        exact List.prefix_append _ _
      · cases h
        exact List.prefix_append _ _
      · exact (List.prefix_append _ _).trans (ih h)

/-! ## The text -/

/-- The cells that have been read so far, each by the call with its index -/
def ReadInto (read : ℕ → ReadResult) (front : List UInt8) : Prop :=
  ∀ i b, front[i]? = some b → read i = .byte b ∧ b ≠ newline ∧ b ≠ 0

namespace ReadInto

variable {front : List UInt8}

theorem nul_not_mem (h : ReadInto read front) : 0 ∉ front := by
  intro hmem
  obtain ⟨i, hi⟩ := List.mem_iff_getElem?.mp hmem
  exact (h i 0 hi).2.2 rfl

theorem call_ne (h : ReadInto read front) {j : ℕ} (hj : j < front.length) :
    read j ≠ .byte newline ∧ read j ≠ .byte 0 := by
  obtain ⟨hcall, hnewline, hnul⟩ := h j front[j] (List.getElem?_eq_getElem hj)
  rw [hcall]
  exact ⟨fun heq => hnewline (ReadResult.byte.inj heq), fun heq => hnul (ReadResult.byte.inj heq)⟩

theorem append (h : ReadInto read front) {b : UInt8} (hcall : read front.length = .byte b)
    (hnewline : b ≠ newline) (hnul : b ≠ 0) : ReadInto read (front ++ [b]) := by
  intro i c hc
  rcases Nat.lt_or_ge i front.length with hi | hi
  · rw [List.getElem?_append_left hi] at hc
    exact h i c hc
  · rw [List.getElem?_append_right hi, List.getElem?_singleton] at hc
    split_ifs at hc with hzero
    cases hc
    obtain rfl : i = front.length := by omega
    exact ⟨hcall, hnewline, hnul⟩

/-- What has been read is from the file, and so is one byte more. -/
theorem fromFile_append (h : ReadInto read front) {last : List UInt8}
    (hlast : ∀ b, last = [b] → read front.length = .byte b) (hlen : last.length ≤ 1) :
    FromFile read (some (front ++ last)) := by
  refine ⟨_, rfl, fun i b hb => ?_⟩
  rcases Nat.lt_or_ge i front.length with hi | hi
  · rw [List.getElem?_append_left hi] at hb
    exact ⟨(h i b hb).1, fun j hj => h.call_ne (hj.trans hi)⟩
  · rw [List.getElem?_append_right hi] at hb
    rcases last with _ | ⟨c, last⟩
    · cases hb
    · obtain rfl := List.eq_nil_of_length_eq_zero (Nat.le_zero.mp (Nat.le_of_succ_le_succ hlen))
      rw [List.getElem?_singleton] at hb
      split_ifs at hb with hzero
      cases hb
      obtain rfl : i = front.length := by omega
      exact ⟨hlast _ rfl, fun j hj => h.call_ne hj⟩

end ReadInto

theorem stringIn_append {text : List UInt8} (h : 0 ∉ text) (rest : List UInt8) :
    stringIn (text ++ 0 :: rest) = some text := by
  have hmem : 0 ∈ text ++ 0 :: rest := List.mem_append_right _ (List.mem_cons_self ..)
  rw [stringIn, if_pos hmem, pathOf_append _ h]

/-- A cell in front of the terminator is a byte of the text. -/
theorem FromFile.call {front after : List UInt8} {c : UInt8} (h : FromFile read (stringIn after))
    (hbegins : front ++ [c] <+: after) (hfront : 0 ∉ front) (hc : c ≠ 0) :
    read front.length = .byte c ∧
      ∀ j < front.length, read j ≠ .byte newline ∧ read j ≠ .byte 0 := by
  obtain ⟨bytes, hbytes, hall⟩ := h
  obtain ⟨rest, rfl⟩ := hbegins
  rw [stringIn] at hbytes
  split_ifs at hbytes
  cases hbytes
  refine hall front.length c ?_
  have hnonzero : ∀ b ∈ front ++ [c], decide (b ≠ 0) = true := by
    intro b hb
    rw [decide_eq_true_iff]
    rintro rfl
    rcases List.mem_append.mp hb with hb | hb
    · exact hfront hb
    · exact hc (List.mem_singleton.mp hb).symm
  rw [pathOf, List.takeWhile_append_of_pos hnonzero, List.append_assoc,
    List.getElem?_append_right (le_refl _), Nat.sub_self]
  rfl

/-! ## Which buffers do -/

/-- From the cell with index `k` on, a NUL ends the text: one that is read, or one that is there
behind a newline, or where nothing is read -/
def EndsInside (read : ℕ → ReadResult) : ℕ → List UInt8 → Prop
  | _, [] => False
  | k, stale :: rest =>
    match read k with
    | .byte b => b = 0 ∨ (b = newline ∧ rest.head? = some 0) ∨
        (b ≠ newline ∧ b ≠ 0 ∧ EndsInside read (k + 1) rest)
    | _ => stale = 0

/-- Where nothing is read, what has been in the cell must be the terminator. -/
theorem fromFile_stale {front rest : List UInt8} {stale : UInt8} {result : Option (List UInt8)}
    (hread : ReadInto read front) (hcall : ∀ b, read front.length ≠ .byte b)
    (hbegins : ∀ after, result = some after → front ++ [stale] <+: after)
    (hstop : stale = 0 → result = some (front ++ stale :: rest)) :
    FromFile read (result.bind stringIn) ↔ stale = 0 := by
  constructor
  · intro h
    by_contra hstale
    rcases result with _ | after
    · obtain ⟨bytes, hbytes, -⟩ := h
      cases hbytes
    · exact hcall stale (h.call (hbegins after rfl) hread.nul_not_mem hstale).1
  · intro hzero
    rw [hstop hzero, hzero, Option.bind_some, stringIn_append hread.nul_not_mem,
      ← List.append_nil front]
    exact hread.fromFile_append (fun b hb => by cases hb) (Nat.zero_le _)

/-- Behind a newline the next cell must be the terminator. -/
theorem fromFile_newline {front rest : List UInt8} (hread : ReadInto read front)
    (hcall : read front.length = .byte newline) :
    FromFile read (stringIn (front ++ newline :: rest)) ↔ rest.head? = some 0 := by
  have hne : newline ≠ 0 := by decide
  have hnul : 0 ∉ front ++ [newline] := by
    rw [List.mem_append, not_or]
    exact ⟨hread.nul_not_mem, fun h => hne (List.mem_singleton.mp h).symm⟩
  rw [← List.singleton_append, ← List.append_assoc]
  rcases rest with _ | ⟨d, rest⟩
  · refine iff_of_false ?_ (fun h => by cases h)
    rintro ⟨bytes, hbytes, -⟩
    rw [List.append_nil, stringIn, if_neg hnul] at hbytes
    cases hbytes
  · rw [List.head?_cons, Option.some.injEq]
    constructor
    · intro h
      by_contra hd
      have hbegins : front ++ [newline] ++ [d] <+: front ++ [newline] ++ d :: rest :=
        ⟨rest, by simp⟩
      obtain ⟨-, hbefore⟩ := h.call hbegins hnul hd
      have hlt : front.length < (front ++ [newline]).length := by
        rw [List.length_append, List.length_singleton]
        omega
      exact (hbefore front.length hlt).1 hcall
    · rintro rfl
      rw [stringIn_append hnul]
      refine hread.fromFile_append (fun b hb => ?_) (le_refl _)
      rw [hcall, (List.cons.inj hb).1]

/-- From a cell on, the loop does what it should if and only if a NUL ends the text. -/
theorem fromFile_loop_iff {front rest : List UInt8} {fuel : ℕ} (hread : ReadInto read front)
    (hfuel : rest.length < fuel) :
    FromFile read ((fdreadLoop read fuel front.length (front ++ rest)).bind stringIn) ↔
      EndsInside read front.length rest := by
  induction rest generalizing front fuel with
  | nil =>
    rw [List.append_nil, fdreadLoop_nil]
    refine iff_of_false ?_ id
    rintro ⟨bytes, hbytes, -⟩
    cases hbytes
  | cons stale rest ih =>
    obtain ⟨fuel, rfl⟩ := Nat.exists_eq_succ_of_ne_zero (Nat.ne_zero_of_lt hfuel)
    have hcell : front ++ [stale] <+: front ++ stale :: rest := ⟨rest, by simp⟩
    rw [fdreadLoop_cons, EndsInside]
    -- a byte, the end of the file, an error
    rcases hcall : read front.length with b | _ | _
    · rw [if_neg (by simp)]
      dsimp only [ReadResult.cell]
      by_cases hnewline : b = newline
      · subst hnewline
        have hne : newline ≠ 0 := by decide
        rw [if_pos (.inl rfl), Option.bind_some, fromFile_newline hread hcall]
        simp [hne]
      · by_cases hnul : b = 0
        · subst hnul
          rw [if_pos (.inr rfl), Option.bind_some, stringIn_append hread.nul_not_mem,
            ← List.append_nil front]
          exact iff_of_true (hread.fromFile_append (fun b hb => by cases hb) (Nat.zero_le _))
            (.inl rfl)
        · have hrest := ih (hread.append hcall hnewline hnul) (Nat.lt_of_succ_lt_succ hfuel)
          rw [List.length_append, List.length_singleton] at hrest
          rw [if_neg (not_or.mpr ⟨hnewline, hnul⟩), List.length_append, List.length_singleton,
            hrest]
          simp [hnewline, hnul]
    · -- the end of the file is taken for a byte, the one that is in the cell
      rw [if_neg (by simp)]
      dsimp only [ReadResult.cell]
      refine fromFile_stale hread (fun b h => by rw [hcall] at h; cases h) ?_
        fun h => if_pos (.inr h)
      intro after hafter
      split_ifs at hafter with hstop
      · cases hafter
        exact hcell
      · exact fdreadLoop_prefix hafter
    · rw [if_pos rfl]
      refine fromFile_stale hread (fun b h => by rw [hcall] at h; cases h) ?_ fun _ => rfl
      rintro after hafter
      cases hafter
      exact hcell

/-! ## All buffers -/

theorem nulFrom_succ_iff {k n : ℕ} :
    NulFrom read k (n + 1) ↔ read k = .byte 0 ∨ (Ordinary read k ∧ NulFrom read (k + 1) n) := by
  constructor
  · rintro ⟨j, hkj, hj, hbefore, hnul⟩
    rcases Nat.eq_or_lt_of_le hkj with rfl | hlt
    · exact .inl hnul
    · exact .inr ⟨hbefore k (le_refl _) hlt, j, hlt, by omega,
        fun i hki hij => hbefore i (Nat.le_of_succ_le hki) hij, hnul⟩
  · rintro (hnul | ⟨hk, j, hkj, hj, hbefore, hnul⟩)
    · exact ⟨k, le_refl _, by omega, fun i hki hik => absurd hik (by omega), hnul⟩
    · refine ⟨j, Nat.le_of_succ_le hkj, by omega, fun i hki hij => ?_, hnul⟩
      rcases Nat.eq_or_lt_of_le hki with rfl | hlt
      · exact hk
      · exact hbefore i hlt hij

/-- A NUL that is read ends the text in every buffer. -/
theorem NulFrom.endsInside {k : ℕ} {stale : List UInt8} (h : NulFrom read k stale.length) :
    EndsInside read k stale := by
  induction stale generalizing k with
  | nil =>
    obtain ⟨j, hkj, hj, -⟩ := h
    exact absurd hj (Nat.not_lt.mpr hkj)
  | cons c stale ih =>
    rw [EndsInside]
    rcases nulFrom_succ_iff.mp h with hnul | ⟨⟨b, hcall, hnewline, hzero⟩, hrest⟩
    · rw [hnul]
      exact .inl rfl
    · rw [hcall]
      exact .inr (.inr ⟨hnewline, hzero, ih hrest⟩)

/-- In a buffer without a NUL nothing else does. -/
theorem nulFrom_of_endsInside {k n : ℕ} (h : EndsInside read k (List.replicate n 1)) :
    NulFrom read k n := by
  have hone : (1 : UInt8) ≠ 0 := by decide
  induction n generalizing k with
  | zero => cases h
  | succ n ih =>
    rw [nulFrom_succ_iff]
    rw [List.replicate_succ, EndsInside] at h
    rcases hcall : read k with b | _ | _
    · rw [hcall] at h
      rcases h with hzero | ⟨-, hhead⟩ | ⟨hnewline, hzero, hrest⟩
      · exact .inl (by rw [hzero])
      · rw [List.head?_replicate] at hhead
        split_ifs at hhead
        exact absurd (Option.some.inj hhead) hone
      · exact .inr ⟨⟨b, hcall, hnewline, hzero⟩, ih hrest⟩
    · rw [hcall] at h
      exact absurd h hone
    · rw [hcall] at h
      exact absurd h hone

theorem fromFile_iff {stale : List UInt8} :
    FromFile read (fdreadText read stale) ↔ EndsInside read 0 stale := by
  have hread : ReadInto read [] := fun i b hb => by cases hb
  exact @fromFile_loop_iff read [] stale _ hread (Nat.lt_succ_self _)

/-- **When the loop ends in its buffer.** For every file and every pattern of results, and whatever
is in the buffer: the loop ends inside, and the argument of `strstoul` is terminated and read from
the file, if and only if one of the first sixteen calls reads a NUL and the calls before it read
bytes, none of them a newline. -/
theorem fdreadUlong_iff (read : ℕ → ReadResult) :
    (∀ stale : Vector UInt8 fileUlongBufsize, FromFile read (fdreadText read stale.toList)) ↔
      NulFrom read 0 fileUlongBufsize := by
  constructor
  · intro h
    have hones := fromFile_iff.mp (h (Vector.replicate fileUlongBufsize 1))
    rw [Vector.toList_replicate] at hones
    exact nulFrom_of_endsInside hones
  · intro h stale
    rw [fromFile_iff]
    exact NulFrom.endsInside (by rwa [stale.length_toList])

/-- A number and a newline, as the kernel prints it: the newline stops the loop and stays, and
nothing ends the text behind it. Without the newline the loop leaves the buffer. -/
theorem fdreadUlong_line :
    ¬ FromFile (fileReads (ascii "42\n"))
        (fdreadText (fileReads (ascii "42\n")) (Vector.replicate fileUlongBufsize 120).toList) ∧
      fdreadLoop (fileReads (ascii "42")) (fileUlongBufsize + 1) 0
        (Vector.replicate fileUlongBufsize 120).toList = none := by
  refine ⟨?_, by decide +kernel⟩
  have hnone : fdreadText (fileReads (ascii "42\n"))
      (Vector.replicate fileUlongBufsize 120).toList = none := by decide +kernel
  rw [hnone]
  rintro ⟨bytes, hbytes, -⟩
  cases hbytes

/-- A file that is read is converted, whatever was in the buffer. -/
theorem fdreadUlong_of_nulFrom (h : NulFrom read 0 fileUlongBufsize)
    (stale : Vector UInt8 fileUlongBufsize) :
    ∃ text : List UInt8, fdreadUlong read stale = some (strstoul (text.map charOf)) ∧
      ∀ i b, text[i]? = some b → read i = .byte b := by
  have hends : EndsInside read 0 stale.toList :=
    NulFrom.endsInside (by rwa [stale.length_toList])
  obtain ⟨text, htext, hall⟩ := fromFile_iff.mpr hends
  refine ⟨text, ?_, fun i b hb => (hall i b hb).1⟩
  rw [fdreadUlong, htext, Option.map_some]

end AmdgpuFand

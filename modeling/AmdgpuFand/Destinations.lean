import AmdgpuFand.Ipc

/-!
# What a failed `unpackf` leaves behind

`unpackf` copies conversion by conversion and finds out on its way that the format is wrong or the
buffer too short. What it has copied by then stays. The tests say that a failed call leaves its
destinations alone, but they call `packf`, which does.

Nothing is assumed of the format or of the arguments here: `nextDestination` reads one conversion
off their fronts as the loop does, and `unpackfLoop_cases` says what a turn of the loop can do.
-/

namespace AmdgpuFand

open CLib

/-! ## Conversions of any format -/

/-- What a conversion of `unpackf` writes: so many bytes to the front of an object -/
structure Destination where
  nbytes : ℕ
  mem : List UInt8

/-- The conversion at the front of a format with its destination, and what is left of the format and
of the arguments. There is none if the format does not go on, or not with a conversion. -/
def nextDestination (fmt : List Char) (args : List VaArg) :
    Option (Destination × List Char × List VaArg) :=
  if fmt.headD '\x00' ≠ '%' then none
  else do
    let (nrepeat, fmt, _, args) ← vaRepeat (fmt.drop 1) args
    if nrepeat = 0 then none
    else do
      let t ← FmtType.ofCode (dfaSimulate fmt)
      let (_, mem, rest) ← valistStripPointer args
      some (⟨nrepeat * dfaValsize t % 2 ^ 32, mem⟩, fmt.drop (dfaFmtlen t), rest)

/-- The destinations of a format, up to its end or to what is no conversion -/
def destinations : ℕ → List Char → List VaArg → List Destination
  | 0, _, _ => []
  | fuel + 1, fmt, args =>
    match nextDestination fmt args with
    | none => []
    | some (destination, fmt, rest) => destination :: destinations fuel fmt rest

/-- Every destination that `unpackf` gets to holds its bytes already. It gets to those whose bytes
are within `bufsize`. -/
def Undisturbed (buffer : List UInt8) (bufsize : ℕ) : ℕ → List Destination → Prop
  | _, [] => True
  | nread, destination :: rest =>
    nread + destination.nbytes ≤ bufsize →
      (buffer.drop nread).take destination.nbytes = destination.mem.take destination.nbytes ∧
        Undisturbed buffer bufsize (nread + destination.nbytes) rest

instance instDecidableUndisturbed (buffer : List UInt8) (bufsize : ℕ) :
    ∀ (nread : ℕ) (ds : List Destination), Decidable (Undisturbed buffer bufsize nread ds)
  | _, [] => isTrue trivial
  | nread, destination :: rest =>
    have := instDecidableUndisturbed buffer bufsize (nread + destination.nbytes) rest
    inferInstanceAs (Decidable (_ → _ ∧ _))

/-! ## One turn of the loop -/

/-- The arguments of a count are those in front of the ones left. -/
theorem vaRepeat_args {fmt fmt' : List Char} {args count args' : List VaArg} {nrepeat : ℕ}
    (h : vaRepeat fmt args = some (nrepeat, fmt', count, args')) : args = count ++ args' := by
  unfold vaRepeat at h
  split_ifs at h with hstar
  · cases args with
    | nil => cases h
    | cons arg args =>
      cases h
      rfl
  · cases h
    rfl

theorem valistStripPointer_eq_some {args rest : List VaArg} {addr : BitVec 64} {mem : List UInt8}
    (h : valistStripPointer args = some (addr, mem, rest)) : args = .pointer addr mem :: rest := by
  unfold valistStripPointer at h
  split at h
  · cases h
    rfl
  · cases h

section Turn

variable {buffer : List UInt8} {bufsize fuel nread : ℕ} {fmt : List Char} {args args' : List VaArg}
  {ret : ℤ}

/-- What a turn of the loop can do: it ends, it fails and leaves everything as it is, or it copies
to a destination and goes on. -/
theorem unpackfLoop_cases
    (h : unpackfLoop buffer bufsize (fuel + 1) fmt args nread = some (ret, args')) :
    (ret = nread ∧ args' = args) ∨
    (nextDestination fmt args = none ∧ args' = args) ∨
    ∃ destination fmt' front addr rest,
      nextDestination fmt args = some (destination, fmt', rest) ∧
      args = front ++ .pointer addr destination.mem :: rest ∧
      ((bufsize < (nread + destination.nbytes) % 2 ^ 64 ∧ args' = args) ∨
        ¬ bufsize < (nread + destination.nbytes) % 2 ^ 64 ∧
          ∃ bytes mem rest', Memory.load buffer nread destination.nbytes = some bytes ∧
            Memory.store destination.mem 0 bytes = some mem ∧
            unpackfLoop buffer bufsize fuel fmt' rest (nread + destination.nbytes) =
              some (ret, rest') ∧
            args' = front ++ .pointer addr mem :: rest') := by
  rw [unpackfLoop] at h
  by_cases hend : fmt.headD '\x00' = '\x00'
  · rw [if_pos hend] at h
    cases h
    exact Or.inl ⟨rfl, rfl⟩
  rw [if_neg hend] at h
  by_cases hpercent : fmt.headD '\x00' ≠ '%'
  · rw [if_pos hpercent] at h
    cases h
    exact Or.inr (Or.inl ⟨if_pos hpercent, rfl⟩)
  rw [if_neg hpercent] at h
  obtain ⟨⟨nrepeat, fmt₁, count, args₁⟩, hrepeat, h⟩ := Option.bind_eq_some_iff.mp h
  dsimp only at h
  -- up to the copy the loop does what `nextDestination` does
  have hnext : nextDestination fmt args =
      if nrepeat = 0 then none
      else (FmtType.ofCode (dfaSimulate fmt₁)).bind fun t =>
        (valistStripPointer args₁).bind fun (_, mem, rest) =>
          some (⟨nrepeat * dfaValsize t % 2 ^ 32, mem⟩, fmt₁.drop (dfaFmtlen t), rest) := by
    rw [nextDestination, if_neg hpercent, hrepeat]
    rfl
  by_cases hzero : nrepeat = 0
  · rw [if_pos hzero] at h hnext
    cases h
    exact Or.inr (Or.inl ⟨hnext, rfl⟩)
  rw [if_neg hzero] at h hnext
  cases htype : FmtType.ofCode (dfaSimulate fmt₁) with
  | none =>
    rw [htype] at h hnext
    cases h
    exact Or.inr (Or.inl ⟨hnext, rfl⟩)
  | some t =>
    rw [htype] at h hnext
    obtain ⟨⟨addr, mem, rest⟩, hpointer, h⟩ := Option.bind_eq_some_iff.mp h
    dsimp only at h
    rw [hpointer] at hnext
    refine Or.inr (Or.inr ⟨_, _, count, addr, rest, hnext, ?_, ?_⟩)
    · rw [vaRepeat_args hrepeat, valistStripPointer_eq_some hpointer]
    · by_cases hbig : bufsize < (nread + nrepeat * dfaValsize t % 2 ^ 32) % 2 ^ 64
      · rw [if_pos hbig] at h
        cases h
        exact Or.inl ⟨hbig, rfl⟩
      · rw [if_neg hbig] at h
        obtain ⟨bytes, hload, h⟩ := Option.bind_eq_some_iff.mp h
        obtain ⟨mem', hstore, h⟩ := Option.bind_eq_some_iff.mp h
        obtain ⟨⟨ret', rest'⟩, hrec, h⟩ := Option.bind_eq_some_iff.mp h
        cases h
        exact Or.inr ⟨hbig, bytes, mem', rest', hload, hstore, hrec, rfl⟩

end Turn

/-! ## Every call -/

/-- A copy to the front of an object leaves it as it is if the bytes are there already. -/
theorem store_eq_self_iff {mem mem' bytes : List UInt8} {n : ℕ}
    (h : Memory.store mem 0 bytes = some mem') (hlength : bytes.length = n) :
    mem' = mem ↔ bytes = mem.take n := by
  have hle : bytes.length ≤ mem.length := by
    unfold Memory.store at h
    split_ifs at h with hle
    omega
  rw [Memory.store_zero hle] at h
  cases h
  rw [hlength]
  refine ⟨?_, ?_⟩
  · intro heq
    rw [← heq]
    exact (List.take_left' hlength).symm
  · intro heq
    rw [heq, List.take_append_drop]

/-- The loop leaves its arguments as they are if nothing on its way is disturbed. -/
theorem unpackfLoop_unchanged_iff {buffer : List UInt8} (hobject : buffer.length < 2 ^ 63)
    {bufsize fuel nread : ℕ} {fmt : List Char} {args args' : List VaArg} {ret : ℤ}
    (h : unpackfLoop buffer bufsize fuel fmt args nread = some (ret, args')) (hret : ret < 0) :
    args' = args ↔ Undisturbed buffer bufsize nread (destinations fuel fmt args) := by
  induction fuel generalizing fmt args args' nread with
  | zero => cases h
  | succ fuel ih =>
    obtain ⟨hend, -⟩ | ⟨hnext, rfl⟩ | ⟨destination, fmt', front, addr, rest, hnext, rfl, hturn⟩ :=
      unpackfLoop_cases h
    · omega
    · rw [destinations, hnext]
      exact iff_of_true rfl trivial
    · rw [destinations, hnext, Undisturbed]
      obtain ⟨hbig, rfl⟩ | ⟨hfits, bytes, mem, rest', hload, hstore, hrec, rfl⟩ := hturn
      · have hmod := Nat.mod_le (nread + destination.nbytes) (2 ^ 64)
        exact iff_of_true rfl fun hle => absurd hle (by omega)
      · -- the load was inside the buffer, so the sum has not wrapped
        have hbytes : bytes = (buffer.drop nread).take destination.nbytes ∧
            nread + destination.nbytes ≤ buffer.length := by
          unfold Memory.load at hload
          split_ifs at hload with hle
          cases hload
          exact ⟨rfl, hle⟩
        obtain ⟨rfl, hle⟩ := hbytes
        rw [Nat.mod_eq_of_lt (by omega)] at hfits
        have hlength : ((buffer.drop nread).take destination.nbytes).length =
            destination.nbytes := by
          rw [List.length_take, List.length_drop, min_eq_left (by omega)]
        -- this destination keeps its bytes, and so do the ones behind it
        rw [← ih hrec, ← store_eq_self_iff hstore hlength]
        refine ⟨?_, ?_⟩
        · intro heq
          obtain ⟨-, htail⟩ := List.append_inj heq rfl
          obtain ⟨hhead, htail⟩ := List.cons.inj htail
          exact fun _ => ⟨(VaArg.pointer.inj hhead).2, htail⟩
        · intro heq
          obtain ⟨rfl, rfl⟩ := heq (not_lt.mp hfits)
          rfl

/-- **What a failed call leaves behind.** For every buffer and size, every format, well formed or
not, and all arguments: if `unpackf` returns a negative value, every destination holds what it held
before if and only if those it got to had their bytes already. -/
theorem unpackf_unchanged_iff (buffer : List UInt8) (hobject : buffer.length < 2 ^ 63)
    (bufsize : ℕ) (fmt : List Char) (args args' : List VaArg) (ret : ℤ)
    (h : unpackf buffer bufsize fmt args = some (ret, args')) (hret : ret < 0) :
    args' = args ↔
      Undisturbed buffer bufsize 0 (destinations (fmt.length + 1) fmt args) :=
  unpackfLoop_unchanged_iff hobject h hret

/-- The first conversion of two is too long. -/
theorem unpackf_unchanged_iff_short :
    unpackf [0, 0] 2 "%d%hhu".toList [.ref [1, 2, 3, 4], .ref [5]] =
      some (-e2big, [.ref [1, 2, 3, 4], .ref [5]]) ∧
    Undisturbed [0, 0] 2 0 (destinations 7 "%d%hhu".toList [.ref [1, 2, 3, 4], .ref [5]]) := by
  have hunpack : unpackf [0, 0] 2 "%d%hhu".toList [.ref [1, 2, 3, 4], .ref [5]] =
      some (-e2big, [.ref [1, 2, 3, 4], .ref [5]]) := by decide
  exact ⟨hunpack, (unpackf_unchanged_iff [0, 0] (by decide) 2 "%d%hhu".toList _ _ _ hunpack
    (by decide)).mp rfl⟩

/-- The call that `test_unpackf_insufficient_bufsize` is about: the buffer ends in the third
conversion, and the first two have been copied. -/
theorem unpackf_leaves_copies :
    unpackf [0, 0, 0, 0, 0] 5 "%hhu%hu%lld".toList
        [.ref [0xff], .ref [0xff, 0], .ref [0xff, 0, 0, 0, 0, 0, 0, 0]] =
      some (-e2big, [.ref [0], .ref [0, 0], .ref [0xff, 0, 0, 0, 0, 0, 0, 0]]) ∧
    (-e2big : ℤ) < 0 ∧
    [VaArg.ref [0], .ref [0, 0], .ref [0xff, 0, 0, 0, 0, 0, 0, 0]] ≠
      [.ref [0xff], .ref [0xff, 0], .ref [0xff, 0, 0, 0, 0, 0, 0, 0]] := by
  decide

end AmdgpuFand

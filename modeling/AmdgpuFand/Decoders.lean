import AmdgpuFand.Server

/-!
# What the control interface accepts

The unpack functions are given whatever a peer has sent. Each adds the return values of its calls
of `unpackf` to a running length and compares the sum with the length byte of the message; an error
is a negative summand, so the sum of an unfinished message could still be a length.

For a message with an `int` and for the answer to an exit request it never is. For a matrix it is
one: zero rows make `unpackf` return -1, and three bytes less one are two. A count of more rows
than the union has room for is not rejected either. `decoder_exact` says that these are all.
-/

namespace AmdgpuFand

open CLib

/-! ## `unpackf` with one destination -/

section UnpackTo

variable {buffer mem : List UInt8}

/-- One conversion reads its bytes or finds too few. -/
theorem unpackTo_conversion {fmt : List Char} {count : List VaArg} {t : FmtType} {nrepeat : ℕ}
    (hrepeat : ∀ args, vaRepeat fmt (count ++ args) = some (nrepeat, t.text, count, args))
    (hpos : nrepeat ≠ 0) (hsize : nrepeat * dfaValsize t < 2 ^ 32) :
    unpackTo buffer buffer.length ('%' :: fmt) count mem =
      if buffer.length < nrepeat * dfaValsize t then some (-e2big, mem)
      else if mem.length < nrepeat * dfaValsize t then none
      else some (((nrepeat * dfaValsize t : ℕ) : ℤ),
        buffer.take (nrepeat * dfaValsize t) ++ mem.drop (nrepeat * dfaValsize t)) := by
  have hstep := @unpackfLoop_conversion buffer.length (fmt.length + 1) 0 nrepeat buffer mem fmt t []
    (count ++ [.ref mem]) count [] 0 (by rw [List.append_nil]; exact hrepeat _) hpos
  have hbytes : nrepeat * dfaValsize t % 2 ^ 32 = nrepeat * dfaValsize t := Nat.mod_eq_of_lt hsize
  have hsum : (0 + nrepeat * dfaValsize t) % 2 ^ 64 = nrepeat * dfaValsize t := by
    rw [Nat.zero_add]
    exact Nat.mod_eq_of_lt (by omega)
  rw [hbytes, hsum, Nat.zero_add] at hstep
  rw [unpackTo, unpackf, List.length_cons, hstep]
  by_cases hshort : buffer.length < nrepeat * dfaValsize t
  · simp [if_pos hshort, VaArg.ref]
  · have hload : Memory.load buffer 0 (nrepeat * dfaValsize t) =
        some (buffer.take (nrepeat * dfaValsize t)) := by
      rw [Memory.load, if_pos (by omega), List.drop_zero]
    have hlen : (buffer.take (nrepeat * dfaValsize t)).length = nrepeat * dfaValsize t :=
      List.length_take_of_le (by omega)
    rw [if_neg hshort, if_neg hshort, hload, Option.bind_some]
    by_cases hroom : mem.length < nrepeat * dfaValsize t
    · rw [Memory.store, if_neg (by rw [hlen]; omega), if_pos hroom]
      rfl
    · rw [Memory.store_zero (by rw [hlen]; omega), if_neg hroom, hlen]
      simp [unpackfLoop]

theorem unpackTo_scalar (t : FmtType) (hroom : dfaValsize t ≤ mem.length) :
    unpackTo buffer buffer.length ('%' :: t.text) [] mem =
      if buffer.length < dfaValsize t then some (-e2big, mem)
      else some ((dfaValsize t : ℤ), buffer.take (dfaValsize t) ++ mem.drop (dfaValsize t)) := by
  have hle := dfaValsize_le t
  have hstep := @unpackTo_conversion buffer mem t.text [] t 1
    (fun args => by simpa using vaRepeat_text t [] args) one_ne_zero (by omega)
  rw [one_mul, if_neg (not_lt.mpr hroom)] at hstep
  exact hstep

/-- The number of repetitions is not zero. -/
theorem unpackTo_uchars {n : ℕ} (hpos : n ≠ 0) (hn : n < 2 ^ 32) :
    unpackTo buffer buffer.length "%*hhu".toList [.integral (BitVec.ofNat 64 n)] mem =
      if buffer.length < n then some (-e2big, mem)
      else if mem.length < n then none
      else some ((n : ℤ), buffer.take n ++ mem.drop n) := by
  have hone : n * dfaValsize .hhu = n := Nat.mul_one n
  have hstep := @unpackTo_conversion buffer mem ('*' :: FmtType.hhu.text)
    [.integral (BitVec.ofNat 64 n)] .hhu n (fun args => vaRepeat_star FmtType.hhu.text n hn args)
    hpos (by rwa [hone])
  rw [hone] at hstep
  exact hstep

/-- No repetitions are an error. -/
theorem unpackTo_zero (bufsize : ℕ) :
    unpackTo buffer bufsize "%*hhu".toList [.integral (BitVec.ofNat 64 0)] mem =
      some (-1, mem) := by
  have hrepeat := vaRepeat_star FmtType.hhu.text 0 (by decide) [.ref mem]
  have hloop : unpackf buffer bufsize "%*hhu".toList [.integral (BitVec.ofNat 64 0), .ref mem] =
      some (-1, [.integral (BitVec.ofNat 64 0), .ref mem]) := by
    change unpackfLoop buffer bufsize (5 + 1) ('%' :: '*' :: FmtType.hhu.text) _ 0 = _
    rw [unpackfLoop, List.headD_cons, if_neg (by decide), if_neg (by decide), List.drop_one,
      List.tail_cons, hrepeat]
    rfl
  rw [unpackTo, List.singleton_append, hloop]
  rfl

end UnpackTo

/-! ## Accepting and rejecting -/

namespace Decoder

/-- The unpack function returns `ipc_rsp_ok`. -/
def Accepts (decoder : Decoder) (bytes result : List UInt8) : Prop :=
  ∃ result', decoder.unpack bytes bytes.length result = some (0, result')

/-- It returns a value that is not `ipc_rsp_ok` after the conversion to `ipc_response`. -/
def Rejects (decoder : Decoder) (bytes result : List UInt8) : Prop :=
  ∃ value result', decoder.unpack bytes bytes.length result = some (value, result') ∧
    UInt8.ofInt value ≠ 0

/-- What the pack function that belongs to it writes -/
def Produces (decoder : Decoder) (message : List UInt8) : Prop :=
  ∃ buffer : Vector UInt8 ipcMaxMsgLength,
    match decoder with
    | speed => ∃ value, Holds message (packSpeed buffer.toList ipcMaxMsgLength value)
    | temp => ∃ value, Holds message (packTemp buffer.toList ipcMaxMsgLength value)
    | matrix => ∃ (rows : Vector UInt8 matrixMaxSize) (nrows : UInt8), 1 ≤ nrows.toNat ∧
        nrows.toNat ≤ maxTempThresholds ∧
        Holds message (packMatrix buffer.toList ipcMaxMsgLength rows.toList nrows)
    | exit => Holds message (packExitRsp buffer.toList ipcMaxMsgLength)

/-- The bytes begin with such a message, and its length byte is its length. -/
def Begins (decoder : Decoder) (bytes : List UInt8) : Prop :=
  ∃ message, message <+: bytes ∧ decoder.Produces message ∧
    message.head?.map UInt8.toNat = some message.length

/-- Messages of the pack function are accepted and everything else is rejected, whatever the union
held. -/
def Exact (decoder : Decoder) (bytes : List UInt8) : Prop :=
  ∀ result : Vector UInt8 unpackResultSize,
    (decoder.Begins bytes → decoder.Accepts bytes result.toList) ∧
      (¬ decoder.Begins bytes → decoder.Rejects bytes result.toList)

end Decoder

theorem ofInt_toNat (x : UInt8) : UInt8.ofInt (x.toNat : ℤ) = x := by
  rw [UInt8.ofInt, Int.emod_eq_of_lt (Int.natCast_nonneg _) (by exact_mod_cast x.toNat_lt),
    Int.toNat_natCast, UInt8.ofNat_toNat]

/-! ## What the unpack functions return -/

/-- There is room for an `int`. -/
theorem four_le_length {size : ℕ} (hsize : 4 ≤ size) (result : Vector UInt8 size) :
    4 ≤ result.toList.length := by
  rwa [Vector.length_toList]

section Values

variable {result : List UInt8} (hresult : 4 ≤ result.length) {len rsp : UInt8}
  {rest : List UInt8} (hsmall : rest.length + 2 < 2 ^ 63)

/-- The comparison at the end of every unpack function -/
theorem compare_rejects {sum : ℤ} (hrsp : rsp ≠ 0 ∨ sum ≠ len.toNat) :
    ∃ value result',
      (if sum ≠ len.toNat then some (-1, result) else some ((rsp.toNat : ℤ), result)) =
        some (value, result') ∧ UInt8.ofInt value ≠ 0 := by
  by_cases hsum : sum = len.toNat
  · refine ⟨rsp.toNat, result, if_neg (not_not.mpr hsum), ?_⟩
    rw [ofInt_toNat]
    exact hrsp.resolve_right (not_not.mpr hsum)
  · exact ⟨-1, result, if_pos hsum, by decide⟩

include hresult

/-- The `int` behind the head of a message -/
theorem unpackTo_behind_head (len rsp : UInt8) :
    unpackTo ((len :: rsp :: rest).drop (2 : ℤ).toNat) (rest.length + 2 - (2 : ℤ).toNat) "%d".toList
        [] result =
      if rest.length < 4 then some (-e2big, result)
      else some (4, rest.take 4 ++ result.drop 4) :=
  @unpackTo_scalar rest result .d hresult

/-- A matrix without the number of its rows -/
theorem rejects_unpackMatrix_nil :
    ∃ value result', unpackMatrix [len, ipcRspOk] 2 result = some (value, result') ∧
      UInt8.ofInt value ≠ 0 := by
  have hone : dfaValsize .hhu ≤ result.length := Nat.le_trans (by decide) hresult
  have hcount := @unpackTo_scalar [] result .hhu hone
  rw [if_pos (by decide)] at hcount
  have hcount' : unpackTo ([len, ipcRspOk].drop (2 : ℤ).toNat) (2 - (2 : ℤ).toNat) "%hhu".toList []
      result = some (-e2big, result) := hcount
  have hrows : unpackRows [len, ipcRspOk] 2 2 result = some (2 + -e2big, result) := by
    rw [unpackRows, hcount']
    rfl
  refine ⟨2 + -e2big, result, ?_, by decide⟩
  rw [unpackMatrix, unpackHead_eq len ipcRspOk [] (by decide) (by decide)]
  simp only [Option.bind_eq_bind, Option.bind_some]
  rw [if_neg (by decide), if_neg (by decide), hrows]
  rfl

/-- The number of rows goes to `matrix[0]`, and the rows behind it. -/
theorem unpackRows_cons (nrows : UInt8) (rows : List UInt8) :
    unpackRows (len :: rsp :: nrows :: rows) (rows.length + 3) 2 result =
      (unpackTo rows rows.length "%*hhu".toList [.integral (BitVec.ofNat 64 (2 * nrows.toNat))]
        (result.drop 1)).bind fun (n, mem) => some (3 + n, nrows :: mem) := by
  have hone : dfaValsize .hhu ≤ result.length := Nat.le_trans (by decide) hresult
  have hcount := @unpackTo_scalar (nrows :: rows) result .hhu hone
  rw [if_neg (by simp [dfaValsize, FmtType.code])] at hcount
  have hcount' : unpackTo ((len :: rsp :: nrows :: rows).drop (2 : ℤ).toNat)
      (rows.length + 3 - (2 : ℤ).toNat) "%hhu".toList [] result =
        some (1, nrows :: result.drop 1) := hcount
  rw [unpackRows, hcount']
  rfl

include hsmall

theorem unpackInt_ok (hrest : 4 ≤ rest.length) :
    unpackInt (6 :: ipcRspOk :: rest) (rest.length + 2) result =
      some (0, rest.take 4 ++ result.drop 4) := by
  rw [unpackInt, unpackHead_eq 6 ipcRspOk rest (by omega) hsmall]
  simp only [Option.bind_eq_bind, Option.bind_some]
  rw [if_neg (by decide), unpackTo_behind_head hresult, if_neg (not_lt.mpr hrest)]
  rfl

theorem rejects_unpackInt (h : ¬ (rsp = 0 ∧ len = 6 ∧ 4 ≤ rest.length)) :
    ∃ value result', unpackInt (len :: rsp :: rest) (rest.length + 2) result =
      some (value, result') ∧ UInt8.ofInt value ≠ 0 := by
  rw [unpackInt, unpackHead_eq len rsp rest (by omega) hsmall]
  simp only [Option.bind_eq_bind, Option.bind_some]
  rw [if_neg (by decide), unpackTo_behind_head hresult]
  by_cases hshort : rest.length < 4
  · rw [if_pos hshort, Option.bind_some]
    -- the sum is negative, and no length byte is
    refine compare_rejects (.inr ?_)
    simp only [e2big]
    omega
  · rw [if_neg hshort, Option.bind_some]
    refine compare_rejects ?_
    by_contra hnot
    push Not at hnot
    exact h ⟨hnot.1, UInt8.toNat_inj.mp (Int.ofNat_inj.mp hnot.2).symm, by omega⟩

omit hresult in
theorem unpackExitRsp_ok :
    unpackExitRsp (2 :: ipcRspOk :: rest) (rest.length + 2) result = some (0, result) := by
  rw [unpackExitRsp, unpackHead_eq 2 ipcRspOk rest (by omega) hsmall]
  rfl

theorem rejects_unpackExitRsp (h : ¬ (rsp = 0 ∧ len = 2)) :
    ∃ value result', unpackExitRsp (len :: rsp :: rest) (rest.length + 2) result =
      some (value, result') ∧ UInt8.ofInt value ≠ 0 := by
  rw [unpackExitRsp, unpackHead_eq len rsp rest (by omega) hsmall]
  simp only [Option.bind_eq_bind, Option.bind_some]
  rw [if_neg (by decide)]
  by_cases hrsp : rsp = 0
  · rw [if_neg (not_not.mpr hrsp)]
    refine compare_rejects (.inr fun hlen => h ⟨hrsp, ?_⟩)
    exact UInt8.toNat_inj.mp (Int.ofNat_inj.mp hlen).symm
  · rw [if_pos hrsp, unpackTo_behind_head hresult]
    split_ifs
    · rw [Option.bind_some]
      exact compare_rejects (.inl hrsp)
    · rw [Option.bind_some]
      exact compare_rejects (.inl hrsp)

theorem rejects_unpackMatrix_err (hrsp : rsp ≠ 0) :
    ∃ value result', unpackMatrix (len :: rsp :: rest) (rest.length + 2) result =
      some (value, result') ∧ UInt8.ofInt value ≠ 0 := by
  rw [unpackMatrix, unpackHead_eq len rsp rest (by omega) hsmall]
  simp only [Option.bind_eq_bind, Option.bind_some]
  rw [if_neg (by decide), if_pos hrsp, unpackTo_behind_head hresult]
  split_ifs
  · exact ⟨2 + -e2big, result, rfl, by decide⟩
  · rw [Option.bind_some]
    exact compare_rejects (.inl hrsp)

/-- The number of rows and the rows behind it -/
theorem unpackMatrix_rows {nrows : UInt8} {rows : List UInt8} (hrest : rest = nrows :: rows) :
    unpackMatrix (len :: ipcRspOk :: rest) (rest.length + 2) result =
      if nrows = 0 then
        some (if len = 2 then 0 else -1, nrows :: result.drop 1)
      else if rows.length < 2 * nrows.toNat then some (3 + -e2big, nrows :: result.drop 1)
      else if result.length - 1 < 2 * nrows.toNat then none
      else some (if len.toNat = 2 * nrows.toNat + 3 then 0 else -1,
        nrows :: (rows.take (2 * nrows.toNat) ++ result.drop (2 * nrows.toNat + 1))) := by
  subst hrest
  have hlt := nrows.toNat_lt
  have hroom : (result.drop 1).length = result.length - 1 := List.length_drop
  rw [unpackMatrix, unpackHead_eq len ipcRspOk (nrows :: rows) (by omega) hsmall]
  simp only [Option.bind_eq_bind, Option.bind_some]
  rw [if_neg (by decide), if_neg (by decide), List.length_cons, unpackRows_cons hresult]
  -- a count of 0 is read as no count at all
  by_cases hzero : nrows = 0
  · rw [if_pos hzero, hzero]
    have hnone := @unpackTo_zero rows (result.drop 1) rows.length
    change ((unpackTo rows rows.length "%*hhu".toList [.integral (BitVec.ofNat 64 0)]
      (result.drop 1)).bind _).bind _ = _
    rw [hnone]
    simp only [Option.bind_some]
    rw [if_neg (by decide)]
    by_cases hlen : len = 2
    · rw [if_neg (not_not.mpr (by rw [hlen]; rfl)), if_pos hlen]
      rfl
    · have hne : (3 : ℤ) + -1 ≠ len.toNat :=
        fun h => hlen (UInt8.toNat_inj.mp (Int.ofNat_inj.mp h).symm)
      rw [if_pos hne, if_neg hlen]
  · have hpos : 0 < nrows.toNat := UInt8.lt_iff_toNat_lt.mp (UInt8.pos_iff_ne_zero.mpr hzero)
    rw [if_neg hzero, unpackTo_uchars (by omega) (by omega), hroom]
    by_cases hshort : rows.length < 2 * nrows.toNat
    · rw [if_pos hshort, if_pos hshort]
      rfl
    rw [if_neg hshort, if_neg hshort]
    by_cases hover : result.length - 1 < 2 * nrows.toNat
    · rw [if_pos hover, if_pos hover]
      rfl
    rw [if_neg hover, if_neg hover, List.drop_drop, Nat.add_comm 1]
    simp only [Option.bind_some]
    rw [if_neg (by omega)]
    by_cases hlen : len.toNat = 2 * nrows.toNat + 3
    · rw [if_neg (by omega), if_pos hlen]
      rfl
    · rw [if_pos (by omega), if_neg hlen]

end Values

/-- The same for an object of any size, without an error -/
theorem unpackMatrix_vector {size : ℕ} (hsize : 4 ≤ size) {len nrows : UInt8} {rows : List UInt8}
    (hsmall : rows.length + 3 < 2 ^ 63) (result : Vector UInt8 size) :
    unpackMatrix (len :: ipcRspOk :: nrows :: rows) (rows.length + 3) result.toList =
      if nrows = 0 then
        some (if len = 2 then 0 else -1, nrows :: result.toList.drop 1)
      else if rows.length < 2 * nrows.toNat then some (3 + -e2big, nrows :: result.toList.drop 1)
      else if size - 1 < 2 * nrows.toNat then none
      else some (if len.toNat = 2 * nrows.toNat + 3 then 0 else -1,
        nrows :: (rows.take (2 * nrows.toNat) ++ result.toList.drop (2 * nrows.toNat + 1))) := by
  have hrows := @unpackMatrix_rows result.toList (four_le_length hsize result) len (nrows :: rows)
    hsmall nrows rows rfl
  rw [Vector.length_toList] at hrows
  exact hrows

/-- Without a head there is nothing to look at. -/
theorem rejects_short (decoder : Decoder) {bytes : List UInt8} (h : bytes.length < 2)
    (result : List UInt8) : decoder.Rejects bytes result := by
  have hhead : ∃ len rsp, unpackHead bytes bytes.length = some (-e2big, len, rsp) := by
    rcases bytes with _ | ⟨b, _ | ⟨c, bytes⟩⟩
    · exact ⟨0, 0, rfl⟩
    · exact ⟨b, 0, rfl⟩
    · rw [List.length_cons, List.length_cons] at h
      omega
  obtain ⟨len, rsp, hhead⟩ := hhead
  refine ⟨-e2big, result, ?_, by decide⟩
  cases decoder with
  | speed | temp =>
    change unpackInt bytes bytes.length result = _
    rw [unpackInt, hhead]
    rfl
  | matrix =>
    change unpackMatrix bytes bytes.length result = _
    rw [unpackMatrix, hhead]
    rfl
  | exit =>
    change unpackExitRsp bytes bytes.length result = _
    rw [unpackExitRsp, hhead]
    rfl

/-! ## The messages -/

/-- The message in a buffer is determined. -/
theorem Holds.unique {m m' : List UInt8} {packed : Option (ℤ × List UInt8)} (h : Holds m packed)
    (h' : Holds m' packed) : m = m' := by
  obtain ⟨rest, h⟩ := h
  obtain ⟨rest', h'⟩ := h'
  rw [h, Option.some.injEq, Prod.mk.injEq] at h'
  obtain ⟨hlen, happend⟩ := h'
  exact (List.append_inj happend (Int.ofNat_inj.mp hlen)).1

namespace Decoder

/-- Any four bytes are an `int`. -/
theorem exists_leBytes {bytes : List UInt8} (h : bytes.length = 4) :
    ∃ value : BitVec 32, Memory.leBytes 4 value.toNat = bytes := by
  have hlt := Memory.leValue_lt bytes
  have hbytes := Memory.leBytes_leValue bytes
  rw [h] at hlt hbytes
  refine ⟨BitVec.ofNat 32 (Memory.leValue bytes), ?_⟩
  rw [BitVec.toNat_ofNat, Nat.mod_eq_of_lt (by omega), hbytes]

/-- The messages with a reading -/
theorem begins_int {decoder : Decoder} (hdecoder : decoder = .speed ∨ decoder = .temp)
    {bytes : List UInt8} :
    decoder.Begins bytes ↔ ∃ rest, bytes = 6 :: ipcRspOk :: rest ∧ 4 ≤ rest.length := by
  have hproduces : ∀ message, decoder.Produces message ↔
      ∃ value, message = intMessage ipcRspOk value := by
    intro message
    have hint : (∃ buffer : Vector UInt8 ipcMaxMsgLength, ∃ value,
        Holds message (packInt buffer.toList ipcMaxMsgLength ipcRspOk value)) ↔
          ∃ value, message = intMessage ipcRspOk value := by
      refine ⟨?_, ?_⟩
      · rintro ⟨buffer, value, h⟩
        exact ⟨value, h.unique (holds_packInt buffer ipcRspOk value)⟩
      · rintro ⟨value, rfl⟩
        exact ⟨Vector.replicate _ 0, value, holds_packInt _ ipcRspOk value⟩
    rcases hdecoder with rfl | rfl
    · exact hint
    · exact hint
  refine ⟨?_, ?_⟩
  · rintro ⟨message, ⟨rest, rfl⟩, hmessage, -⟩
    obtain ⟨value, rfl⟩ := (hproduces message).mp hmessage
    refine ⟨Memory.leBytes 4 value.toNat ++ rest, rfl, ?_⟩
    rw [List.length_append, Memory.leBytes_length]
    omega
  · rintro ⟨rest, rfl, hrest⟩
    obtain ⟨value, hvalue⟩ := exists_leBytes (List.length_take_of_le hrest)
    refine ⟨intMessage ipcRspOk value, ?_, (hproduces _).mpr ⟨value, rfl⟩, ?_⟩
    · rw [intMessage, hvalue]
      exact ⟨rest.drop 4, by simp⟩
    · rw [length_intMessage]
      rfl

theorem begins_exit {bytes : List UInt8} :
    exit.Begins bytes ↔ ∃ rest, bytes = 2 :: ipcRspOk :: rest := by
  refine ⟨?_, ?_⟩
  · rintro ⟨message, ⟨rest, rfl⟩, ⟨buffer, hmessage⟩, -⟩
    obtain rfl := hmessage.unique (holds_packExitRsp buffer)
    exact ⟨rest, rfl⟩
  · rintro ⟨rest, rfl⟩
    exact ⟨exitMessage, ⟨rest, rfl⟩, ⟨Vector.replicate _ 0, holds_packExitRsp _⟩, rfl⟩

theorem begins_matrix {bytes : List UInt8} :
    matrix.Begins bytes ↔ ∃ len nrows rows, bytes = len :: ipcRspOk :: nrows :: rows ∧
      1 ≤ nrows.toNat ∧ nrows.toNat ≤ maxTempThresholds ∧ 2 * nrows.toNat ≤ rows.length ∧
      len.toNat = 2 * nrows.toNat + 3 := by
  have hholds : ∀ (buffer : Vector UInt8 ipcMaxMsgLength) (rows : Vector UInt8 matrixMaxSize)
      (nrows : UInt8), 1 ≤ nrows.toNat → nrows.toNat ≤ maxTempThresholds →
      Holds (matrixMessage nrows (rows.toList.take (2 * nrows.toNat)))
        (packMatrix buffer.toList ipcMaxMsgLength rows.toList nrows) := by
    intro buffer rows nrows hpos hle
    exact @holds_packMatrix buffer ⟨false, nrows, 0, 0, rows⟩ hpos hle
  have hlength : ∀ (rows : Vector UInt8 matrixMaxSize) (n : ℕ), n ≤ maxTempThresholds →
      (rows.toList.take (2 * n)).length = 2 * n := by
    intro rows n hn
    rw [List.length_take, Vector.length_toList, min_eq_left]
    exact Nat.mul_le_mul_left 2 hn
  refine ⟨?_, ?_⟩
  · rintro ⟨message, ⟨rest, rfl⟩, ⟨buffer, rows, nrows, hpos, hle, hmessage⟩, -⟩
    obtain rfl := hmessage.unique (hholds buffer rows nrows hpos hle)
    refine ⟨_, nrows, rows.toList.take (2 * nrows.toNat) ++ rest, rfl, hpos, hle, ?_, ?_⟩
    · rw [List.length_append, hlength rows _ hle]
      omega
    · simp only [maxTempThresholds] at hle
      rw [hlength rows _ hle, UInt8.toNat_ofNat', Nat.mod_eq_of_lt (by omega)]
  · rintro ⟨len, nrows, rows, rfl, hpos, hle, hrows, hlen⟩
    have hsize : (rows.take (2 * nrows.toNat)).length = 2 * nrows.toNat :=
      List.length_take_of_le hrows
    -- the array behind the rows in use does not matter
    let array : Vector UInt8 matrixMaxSize :=
      ⟨((rows.take (2 * nrows.toNat)) ++
        List.replicate (matrixMaxSize - 2 * nrows.toNat) 0).toArray, by
          simp only [List.size_toArray, List.length_append, hsize, List.length_replicate,
            matrixMaxSize, maxTempThresholds] at hle ⊢
          omega⟩
    have harray : array.toList.take (2 * nrows.toNat) = rows.take (2 * nrows.toNat) := by
      have htoList : array.toList = rows.take (2 * nrows.toNat) ++
          List.replicate (matrixMaxSize - 2 * nrows.toNat) 0 := rfl
      rw [htoList, List.take_left' hsize]
    have hlenbyte : UInt8.ofNat (2 * nrows.toNat + 3) = len := by
      rw [← hlen, UInt8.ofNat_toNat]
    refine ⟨matrixMessage nrows (rows.take (2 * nrows.toNat)), ?_,
      ⟨Vector.replicate _ 0, array, nrows, hpos, hle, ?_⟩, ?_⟩
    · rw [matrixMessage, hsize, hlenbyte]
      exact ⟨rows.drop (2 * nrows.toNat), by simp⟩
    · rw [← harray]
      exact hholds _ array nrows hpos hle
    · rw [length_matrixMessage, matrixMessage, hsize, hlenbyte, ← hlen]
      rfl

end Decoder

/-! ## Exactness -/

/-- A matrix that `unpack_matrix` takes although nobody packs it: no rows with the length 2, or
more rows than the union has room for, all of them there. Seventeen just fit behind the array. -/
def Misread (bytes : List UInt8) : Prop :=
  ∃ len nrows rows, bytes = len :: ipcRspOk :: nrows :: rows ∧
    (nrows = 0 ∧ len = 2 ∨
      2 * nrows.toNat ≤ rows.length ∧ (nrows = 17 ∧ len = 37 ∨ 18 ≤ nrows.toNat))

namespace Decoder

variable {bytes : List UInt8} {len rsp : UInt8} {rest : List UInt8}

theorem exact_int {decoder : Decoder} (hdecoder : decoder = .speed ∨ decoder = .temp)
    (hsmall : rest.length + 2 < 2 ^ 63) : decoder.Exact (len :: rsp :: rest) := by
  intro result
  have hresult := four_le_length (by decide) result
  have hunpack : ∀ bytes bufsize result, decoder.unpack bytes bufsize result =
      unpackInt bytes bufsize result := by
    rcases hdecoder with rfl | rfl
    · exact fun _ _ _ => rfl
    · exact fun _ _ _ => rfl
  rw [begins_int hdecoder]
  refine ⟨?_, fun h => ?_⟩
  · rintro ⟨rest', heq, hrest⟩
    cases heq
    rw [Accepts, hunpack]
    exact ⟨_, unpackInt_ok hresult hsmall hrest⟩
  · rw [Rejects, hunpack]
    refine rejects_unpackInt hresult hsmall fun ⟨hrsp, hlen, hrest⟩ => h ⟨rest, ?_, hrest⟩
    rw [hrsp, hlen]
    rfl

theorem exact_exit (hsmall : rest.length + 2 < 2 ^ 63) : exit.Exact (len :: rsp :: rest) := by
  intro result
  have hresult := four_le_length (by decide) result
  rw [begins_exit]
  refine ⟨?_, fun h => ?_⟩
  · rintro ⟨rest', heq⟩
    cases heq
    exact ⟨_, unpackExitRsp_ok hsmall⟩
  · refine rejects_unpackExitRsp hresult hsmall fun ⟨hrsp, hlen⟩ => h ⟨rest, ?_⟩
    rw [hrsp, hlen]
    rfl

/-- Where the value is 0 or stays different from it, the unpack function is exact if the value is 0
for the messages of the pack function and for them only. -/
theorem exact_iff_of_value {decoder : Decoder} {value : ℤ}
    (hvalue : ∀ result : Vector UInt8 unpackResultSize, ∃ result',
      decoder.unpack bytes bytes.length result.toList = some (value, result'))
    (hrsp : value = 0 ∨ UInt8.ofInt value ≠ 0) :
    decoder.Exact bytes ↔ (value = 0 ↔ decoder.Begins bytes) := by
  refine ⟨?_, ?_⟩
  · intro h
    obtain ⟨result', hunpack⟩ := hvalue (Vector.replicate _ 0)
    refine ⟨?_, ?_⟩
    · intro hzero
      by_contra hbegins
      obtain ⟨v, r, hrejects, hne⟩ := (h (Vector.replicate _ 0)).2 hbegins
      rw [hunpack] at hrejects
      cases hrejects
      rw [hzero] at hne
      exact hne rfl
    · intro hbegins
      obtain ⟨r, haccepts⟩ := (h (Vector.replicate _ 0)).1 hbegins
      rw [hunpack] at haccepts
      cases haccepts
      rfl
  · intro h result
    obtain ⟨result', hunpack⟩ := hvalue result
    refine ⟨fun hbegins => ⟨result', ?_⟩, fun hbegins => ⟨value, result', hunpack, ?_⟩⟩
    · rw [hunpack, h.mpr hbegins]
    · exact hrsp.resolve_left (mt h.mp hbegins)

theorem Begins.two_le {decoder : Decoder} (h : decoder.Begins bytes) : 2 ≤ bytes.length := by
  cases decoder with
  | speed =>
    obtain ⟨rest, rfl, -⟩ := (begins_int (.inl rfl)).mp h
    simp
  | temp =>
    obtain ⟨rest, rfl, -⟩ := (begins_int (.inr rfl)).mp h
    simp
  | matrix =>
    obtain ⟨len, nrows, rows, rfl, -⟩ := begins_matrix.mp h
    simp
  | exit =>
    obtain ⟨rest, rfl⟩ := begins_exit.mp h
    simp

theorem exact_short (decoder : Decoder) (h : bytes.length < 2) : decoder.Exact bytes :=
  fun result => ⟨fun hbegins => absurd hbegins.two_le (by omega),
    fun _ => rejects_short decoder h result.toList⟩

/-- Accepting nothing is not enough where the result is undefined. -/
theorem not_exact_of_undefined {decoder : Decoder} {result : Vector UInt8 unpackResultSize}
    (hbegins : ¬ decoder.Begins bytes)
    (h : decoder.unpack bytes bytes.length result.toList = none) : ¬ decoder.Exact bytes := by
  intro hexact
  obtain ⟨v, r, hrejects, -⟩ := (hexact result).2 hbegins
  rw [h] at hrejects
  cases hrejects

theorem begins_matrix_cons {nrows : UInt8} {rows : List UInt8} :
    matrix.Begins (len :: ipcRspOk :: nrows :: rows) ↔ 1 ≤ nrows.toNat ∧
      nrows.toNat ≤ maxTempThresholds ∧ 2 * nrows.toNat ≤ rows.length ∧
      len.toNat = 2 * nrows.toNat + 3 := by
  rw [begins_matrix]
  refine ⟨?_, ?_⟩
  · rintro ⟨len', nrows', rows', heq, h⟩
    cases heq
    exact h
  · intro h
    exact ⟨len, nrows, rows, rfl, h⟩

theorem misread_cons {nrows : UInt8} {rows : List UInt8} :
    Misread (len :: ipcRspOk :: nrows :: rows) ↔ nrows = 0 ∧ len = 2 ∨
      2 * nrows.toNat ≤ rows.length ∧ (nrows = 17 ∧ len = 37 ∨ 18 ≤ nrows.toNat) := by
  refine ⟨?_, ?_⟩
  · rintro ⟨len', nrows', rows', heq, h⟩
    cases heq
    exact h
  · intro h
    exact ⟨len, nrows, rows, rfl, h⟩

/-- A matrix message up to the number of its rows, which decides whether it is misread -/
theorem exact_matrix_iff {nrows : UInt8} {rows : List UInt8} (hsmall : rows.length + 3 < 2 ^ 63) :
    matrix.Exact (len :: ipcRspOk :: nrows :: rows) ↔
      ¬ Misread (len :: ipcRspOk :: nrows :: rows) := by
  have hvalue : ∀ result : Vector UInt8 unpackResultSize,
      matrix.unpack (len :: ipcRspOk :: nrows :: rows) (len :: ipcRspOk :: nrows :: rows).length
        result.toList =
      if nrows = 0 then
        some (if len = 2 then 0 else -1, nrows :: result.toList.drop 1)
      else if rows.length < 2 * nrows.toNat then some (3 + -e2big, nrows :: result.toList.drop 1)
      else if 35 < 2 * nrows.toNat then none
      else some (if len.toNat = 2 * nrows.toNat + 3 then 0 else -1,
        nrows :: (rows.take (2 * nrows.toNat) ++ result.toList.drop (2 * nrows.toNat + 1))) :=
    unpackMatrix_vector (by decide) hsmall
  have hbegins := @begins_matrix_cons len nrows rows
  have hzero : nrows = 0 ↔ nrows.toNat = 0 := UInt8.toNat_inj.symm
  rw [misread_cons]
  by_cases hnrows : nrows = 0
  · simp only [if_pos hnrows] at hvalue
    rw [exact_iff_of_value (fun result => ⟨_, hvalue result⟩), hbegins]
    · have hn := hzero.mp hnrows
      by_cases hlen : len = 2
      · simp [hlen, hnrows]
      · simp [hlen, hnrows]
    · by_cases hlen : len = 2
      · exact .inl (if_pos hlen)
      · rw [if_neg hlen]
        exact .inr (by decide)
  simp only [if_neg hnrows] at hvalue
  have hpos : 1 ≤ nrows.toNat := Nat.one_le_iff_ne_zero.mpr (mt hzero.mpr hnrows)
  by_cases hshort : rows.length < 2 * nrows.toNat
  · simp only [if_pos hshort] at hvalue
    rw [exact_iff_of_value (fun result => ⟨_, hvalue result⟩) (.inr (by decide)), hbegins]
    refine iff_of_true (iff_of_false (by decide) fun h => ?_) ?_
    · omega
    · rintro (h | h)
      · exact hnrows h.1
      · omega
  simp only [if_neg hshort] at hvalue
  by_cases hover : 35 < 2 * nrows.toNat
  · simp only [if_pos hover] at hvalue
    -- the rows are written behind the end of the union
    have hbegins' : ¬ matrix.Begins (len :: ipcRspOk :: nrows :: rows) := by
      rw [hbegins]
      simp only [maxTempThresholds]
      omega
    exact iff_of_false (not_exact_of_undefined hbegins' (hvalue (Vector.replicate _ 0)))
      (not_not.mpr (.inr ⟨by omega, .inr (by omega)⟩))
  · simp only [if_neg hover] at hvalue
    rw [exact_iff_of_value (fun result => ⟨_, hvalue result⟩), hbegins]
    · have hseventeen : nrows = 17 ↔ nrows.toNat = 17 := UInt8.toNat_inj.symm
      have hlast : len = 37 ↔ len.toNat = 37 := UInt8.toNat_inj.symm
      rw [hseventeen, hlast]
      simp only [hnrows, false_and, false_or, maxTempThresholds]
      by_cases hlen : len.toNat = 2 * nrows.toNat + 3
      · simp only [if_pos hlen, true_iff]
        omega
      · simp only [if_neg hlen, show ¬ (-1 : ℤ) = 0 by decide, false_iff]
        omega
    · split_ifs
      · exact .inl rfl
      · exact .inr (by decide)

end Decoder

/-- **What the unpack functions accept.** On every message that fits the buffer of the control
interface, an unpack function accepts what its pack function can have written and rejects
everything else, except for the matrices that are misread. -/
theorem decoder_exact (decoder : Decoder) (bytes : List UInt8)
    (hlen : bytes.length ≤ ipcMaxMsgLength) :
    decoder.Exact bytes ↔ ¬ (decoder = .matrix ∧ Misread bytes) := by
  simp only [ipcMaxMsgLength] at hlen
  -- messages without a head are rejected by all
  rcases bytes with _ | ⟨len, _ | ⟨rsp, rest⟩⟩
  · refine iff_of_true (Decoder.exact_short decoder (by simp)) ?_
    rintro ⟨-, len, nrows, rows, heq, -⟩
    cases heq
  · refine iff_of_true (Decoder.exact_short decoder (by simp)) ?_
    rintro ⟨-, len, nrows, rows, heq, -⟩
    cases heq
  · rw [List.length_cons, List.length_cons] at hlen
    cases decoder with
    | speed => exact iff_of_true (Decoder.exact_int (.inl rfl) (by omega)) (by simp)
    | temp => exact iff_of_true (Decoder.exact_int (.inr rfl) (by omega)) (by simp)
    | exit => exact iff_of_true (Decoder.exact_exit (by omega)) (by simp)
    | matrix =>
      simp only [true_and]
      by_cases hrsp : rsp = ipcRspOk
      · subst hrsp
        rcases rest with _ | ⟨nrows, rows⟩
        · have hbegins : ¬ Decoder.matrix.Begins [len, ipcRspOk] := by
            rw [Decoder.begins_matrix]
            rintro ⟨len', nrows, rows, heq, -⟩
            cases heq
          refine iff_of_true (fun result => ⟨fun h => absurd h hbegins, fun _ => ?_⟩) ?_
          · exact rejects_unpackMatrix_nil (four_le_length (by decide) result)
          · rintro ⟨len', nrows, rows, heq, -⟩
            cases heq
        · rw [List.length_cons] at hlen
          exact Decoder.exact_matrix_iff (by omega)
      · have hbegins : ¬ Decoder.matrix.Begins (len :: rsp :: rest) := by
          rw [Decoder.begins_matrix]
          rintro ⟨len', nrows, rows, heq, -⟩
          cases heq
          exact hrsp rfl
        refine iff_of_true (fun result => ⟨fun h => absurd h hbegins, fun _ => ?_⟩) ?_
        · exact rejects_unpackMatrix_err (four_le_length (by decide) result) (by omega) hrsp
        · rintro ⟨len', nrows, rows, heq, -⟩
          cases heq
          exact hrsp rfl

/-- A matrix of one row -/
theorem decoder_exact_one_row : Decoder.matrix.Exact [5, 0, 1, 50, 20] := by
  refine (decoder_exact .matrix [5, 0, 1, 50, 20] (by decide)).mpr ?_
  rintro ⟨-, len, nrows, rows, heq, h⟩
  cases heq
  revert h
  decide

/-- A matrix without rows is accepted with the length 2, which is not its length. -/
theorem unpackMatrix_accepts_no_rows :
    Decoder.matrix.Accepts [2, 0, 0] (List.replicate unpackResultSize 0) ∧
      ¬ Decoder.matrix.Begins [2, 0, 0] ∧ ¬ Decoder.matrix.Exact [2, 0, 0] := by
  have haccepts : Decoder.matrix.Accepts [2, 0, 0] (List.replicate unpackResultSize 0) :=
    ⟨List.replicate unpackResultSize 0, by decide⟩
  have hbegins : ¬ Decoder.matrix.Begins [2, 0, 0] := by
    rw [Decoder.begins_matrix]
    rintro ⟨len, nrows, rows, heq, hpos, -⟩
    cases heq
    exact absurd hpos (by decide)
  refine ⟨haccepts, hbegins, fun h => ?_⟩
  obtain ⟨value, result', hvalue, hne⟩ := (h (Vector.replicate _ 0)).2 hbegins
  obtain ⟨result'', haccepts⟩ := haccepts
  have heq : some (0, result'') = some (value, result') := haccepts.symm.trans hvalue
  cases heq
  exact hne rfl

end AmdgpuFand

import AmdgpuFand.Conversions

/-!
# Messages between daemon and control interface

The constants of `ipc.h` and the message functions of `serialize.c`. A message is a length byte, a
response code, and an `int` or a matrix. `pack_*` and `unpack_*` are calls of `packf` and `unpackf`
with fixed formats; the length byte is computed by hand on one side and compared on the other.

The lemmas at the end say what a pack function writes to a buffer, and what an unpack function
makes of such bytes.
-/

namespace AmdgpuFand

/-! ## Constants -/

/-- `IPC_MAX_MSG_LENGTH` -/
def ipcMaxMsgLength : ℕ := 48

def ipcReqExit : UInt8 := 1
def ipcReqUnprivileged : UInt8 := 32
def ipcReqSpeed : UInt8 := 33
def ipcReqTemp : UInt8 := 34
def ipcReqMatrix : UInt8 := 35

/-- `ipc_valid_requests` -/
def ipcValidRequests : List UInt8 :=
  [ipcReqExit, ipcReqSpeed, ipcReqTemp, ipcReqMatrix]

def ipcRspOk : UInt8 := 0
def ipcRspErr : UInt8 := 1

/-! ## Arguments -/

namespace VaArg

/-- An `unsigned char`, promoted -/
def uchar (x : UInt8) : VaArg :=
  integral (x.toBitVec.setWidth 64)

/-- An `int`; nobody looks at the upper half of its slot. -/
def int (x : BitVec 32) : VaArg :=
  integral (x.setWidth 64)

/-- A pointer whose address nothing depends on -/
def ref (mem : List UInt8) : VaArg :=
  pointer 0 mem

end VaArg

/-! ## Packing -/

/-- The common form of `pack_error`, `pack_speed` and `pack_temp` -/
def packInt (buffer : List UInt8) (bufsize : ℕ) (rsp : UInt8) (value : BitVec 32) :
    Option (ℤ × List UInt8) :=
  packf buffer bufsize "%hhu%hhu%d".toList [.integral (1 + 1 + 4), .uchar rsp, .int value]

/-- `pack_error` -/
def packError (buffer : List UInt8) (bufsize : ℕ) (error : BitVec 32) : Option (ℤ × List UInt8) :=
  packInt buffer bufsize ipcRspErr error

/-- `pack_speed` -/
def packSpeed (buffer : List UInt8) (bufsize : ℕ) (speed : BitVec 32) : Option (ℤ × List UInt8) :=
  packInt buffer bufsize ipcRspOk speed

/-- `pack_temp` -/
def packTemp (buffer : List UInt8) (bufsize : ℕ) (temp : BitVec 32) : Option (ℤ × List UInt8) :=
  packInt buffer bufsize ipcRspOk temp

/-- `pack_matrix` -/
def packMatrix (buffer : List UInt8) (bufsize : ℕ) (matrix : List UInt8) (nrows : UInt8) :
    Option (ℤ × List UInt8) :=
  let len := UInt8.ofNat (1 + 1 * (nrows.toNat * 2 + 2))
  packf buffer bufsize "%hhu%hhu%hhu%*hhu".toList
    [.uchar len, .uchar ipcRspOk, .uchar nrows, .integral (BitVec.ofNat 64 (2 * nrows.toNat)),
      .ref matrix]

/-- `pack_exit_rsp` -/
def packExitRsp (buffer : List UInt8) (bufsize : ℕ) : Option (ℤ × List UInt8) :=
  packf buffer bufsize "%hhu%hhu".toList [.integral (1 + 1), .uchar ipcRspOk]

/-! ## Unpacking -/

/-- `sizeof(union unpack_result)`: 33 bytes for the matrix, aligned for the `int`s -/
def unpackResultSize : ℕ := 36

/-- `unpackf` with one destination -/
def unpackTo (buffer : List UInt8) (bufsize : ℕ) (fmt : List Char) (count : List VaArg)
    (mem : List UInt8) : Option (ℤ × List UInt8) := do
  let (n, args) ← unpackf buffer bufsize fmt (count ++ [.ref mem])
  match args.getLast? with
  | some (.pointer _ mem) => some (n, mem)
  | _ => none

/-- The first call of every unpack function: the return value, `len` and `rsp`. The two variables
are looked at only after both have been written. -/
def unpackHead (buffer : List UInt8) (bufsize : ℕ) : Option (ℤ × UInt8 × UInt8) := do
  let (rsplen, args) ← unpackf buffer bufsize "%hhu%hhu".toList [.ref [0], .ref [0]]
  match args with
  | [.pointer _ [len], .pointer _ [rsp]] => some (rsplen, len, rsp)
  | _ => none

/-- `unpack_int`. The members `error` and `temp` are the same bytes of the union. -/
def unpackInt (buffer : List UInt8) (bufsize : ℕ) (result : List UInt8) :
    Option (ℤ × List UInt8) := do
  let (rsplen, len, rsp) ← unpackHead buffer bufsize
  if rsplen < 0 then some (rsplen, result)
  else do
    let (n, result) ←
      unpackTo (buffer.drop rsplen.toNat) (bufsize - rsplen.toNat) "%d".toList [] result
    if rsplen + n ≠ len.toNat then some (-1, result)
    else some (rsp.toNat, result)

/-- `unpack_speed` -/
def unpackSpeed (buffer : List UInt8) (bufsize : ℕ) (result : List UInt8) :
    Option (ℤ × List UInt8) :=
  unpackInt buffer bufsize result

/-- `unpack_temp` -/
def unpackTemp (buffer : List UInt8) (bufsize : ℕ) (result : List UInt8) :
    Option (ℤ × List UInt8) :=
  unpackInt buffer bufsize result

/-- The rows in `unpack_matrix`: the number of rows to `matrix[0]`, the rows behind it. The value
is added to `rsplen`, and a negative sum ends the function. -/
def unpackRows (buffer : List UInt8) (bufsize : ℕ) (rsplen : ℤ) (result : List UInt8) :
    Option (ℤ × List UInt8) := do
  let (n, result) ←
    unpackTo (buffer.drop rsplen.toNat) (bufsize - rsplen.toNat) "%hhu".toList [] result
  let rsplen := rsplen + n
  if rsplen < 0 then some (rsplen, result)
  else do
    let nrows := result.headD 0
    let (n, rows) ← unpackTo (buffer.drop rsplen.toNat) (bufsize - rsplen.toNat) "%*hhu".toList
      [.integral (BitVec.ofNat 64 (2 * nrows.toNat))] (result.drop 1)
    some (rsplen + n, result.take 1 ++ rows)

/-- `unpack_matrix` -/
def unpackMatrix (buffer : List UInt8) (bufsize : ℕ) (result : List UInt8) :
    Option (ℤ × List UInt8) := do
  let (rsplen, len, rsp) ← unpackHead buffer bufsize
  if rsplen < 0 then some (rsplen, result)
  else do
    let (rsplen, result) ←
      if rsp ≠ 0 then do
        let (n, result) ←
          unpackTo (buffer.drop rsplen.toNat) (bufsize - rsplen.toNat) "%d".toList [] result
        some (rsplen + n, result)
      else
        unpackRows buffer bufsize rsplen result
    if rsplen < 0 then some (rsplen, result)
    else if rsplen ≠ len.toNat then some (-1, result)
    else some (rsp.toNat, result)

/-- `unpack_exit_rsp` -/
def unpackExitRsp (buffer : List UInt8) (bufsize : ℕ) (result : List UInt8) :
    Option (ℤ × List UInt8) := do
  let (rsplen, len, rsp) ← unpackHead buffer bufsize
  if rsplen < 0 then some (rsplen, result)
  else do
    let (rsplen, result) ←
      if rsp ≠ 0 then do
        let (n, result) ←
          unpackTo (buffer.drop rsplen.toNat) (bufsize - rsplen.toNat) "%d".toList [] result
        some (rsplen + n, result)
      else
        some (rsplen, result)
    if rsplen ≠ len.toNat then some (-1, result)
    else some (rsp.toNat, result)

/-! ## What the functions write and read -/

namespace Item

/-- An `unsigned char` -/
def uchar (x : UInt8) : Item :=
  scalar .hhu (x.toBitVec.setWidth 64)

/-- An `int` -/
def int (x : BitVec 32) : Item :=
  scalar .d (x.setWidth 64)

theorem bytes_uchar (x : UInt8) : (uchar x).bytes = [x] := by
  have hx : (x.toBitVec.setWidth 64).toNat = x.toNat := by
    rw [BitVec.toNat_setWidth, UInt8.toNat_toBitVec, Nat.mod_eq_of_lt]
    have := x.toNat_lt
    omega
  rw [uchar, bytes, hx]
  exact Memory.leBytes_one x

theorem bytes_int (x : BitVec 32) : (int x).bytes = Memory.leBytes 4 x.toNat := by
  have hx : (x.setWidth 64).toNat = x.toNat := by
    rw [BitVec.toNat_setWidth, Nat.mod_eq_of_lt]
    have := x.isLt
    omega
  rw [int, bytes, hx]
  rfl

/-- Two `unsigned char`s or more, with what stands behind them in memory -/
def uchars (xs behind : List UInt8) (two_le : 2 ≤ xs.length) (fits : xs.length < 2 ^ 32) : Item :=
  array .hhu 0 (xs.map fun x => BitVec.ofNat (8 * dfaValsize .hhu) x.toNat) behind
    (by rwa [List.length_map])
    (by rw [List.length_map, show dfaValsize .hhu = 1 from rfl, mul_one]; exact fits)

theorem bytes_uchars {xs behind : List UInt8} {two_le : 2 ≤ xs.length}
    {fits : xs.length < 2 ^ 32} : (uchars xs behind two_le fits).bytes = xs := by
  have hbyte : ∀ x : UInt8,
      Memory.leBytes (dfaValsize .hhu)
        (BitVec.ofNat (8 * dfaValsize .hhu) x.toNat).toNat = [x] := by
    intro x
    rw [BitVec.toNat_ofNat, show dfaValsize .hhu = 1 from rfl, mul_one,
      Nat.mod_eq_of_lt x.toNat_lt, Memory.leBytes_one]
  rw [uchars, bytes, List.flatMap_map]
  simp only [hbyte, List.flatMap_singleton']

theorem packArgs_uchars {xs behind : List UInt8} {two_le : 2 ≤ xs.length}
    {fits : xs.length < 2 ^ 32} : (uchars xs behind two_le fits).packArgs =
      [.integral (BitVec.ofNat 64 xs.length), .ref (xs ++ behind)] := by
  have hbytes := @bytes_uchars xs behind two_le fits
  rw [uchars] at hbytes ⊢
  rw [packArgs, hbytes, List.length_map, VaArg.ref]

theorem count_uchars {xs behind : List UInt8} {two_le : 2 ≤ xs.length}
    {fits : xs.length < 2 ^ 32} : (uchars xs behind two_le fits).count =
      [.integral (BitVec.ofNat 64 xs.length)] := by
  rw [uchars, count, List.length_map]

theorem size_uchar (x : UInt8) : (uchar x).size = 1 := rfl

theorem size_uchars {xs behind : List UInt8} {two_le : 2 ≤ xs.length}
    {fits : xs.length < 2 ^ 32} : (uchars xs behind two_le fits).size = xs.length := by
  rw [← length_bytes, bytes_uchars]

end Item

/-- The bytes of a message with an `int` -/
def intMessage (rsp : UInt8) (value : BitVec 32) : List UInt8 :=
  6 :: rsp :: Memory.leBytes 4 value.toNat

/-- The bytes of a message with the rows of a matrix -/
def matrixMessage (nrows : UInt8) (rows : List UInt8) : List UInt8 :=
  UInt8.ofNat (rows.length + 3) :: ipcRspOk :: nrows :: rows

/-- The bytes of the answer to an exit request -/
def exitMessage : List UInt8 :=
  [2, ipcRspOk]

theorem packInt_eq {buffer : List UInt8} {bufsize : ℕ} (rsp : UInt8) (value : BitVec 32)
    (hsize : 6 ≤ bufsize) (hsmall : bufsize < 2 ^ 63) (hbuf : bufsize ≤ buffer.length) :
    packInt buffer bufsize rsp value = some (6, intMessage rsp value ++ buffer.drop 6) := by
  have hpack := packf_items [.uchar 6, .uchar rsp, .int value] hsmall hbuf hsize
  simp only [itemsBytes, List.flatMap_cons, List.flatMap_nil, Item.bytes_uchar, Item.bytes_int,
    List.append_nil, List.cons_append, List.nil_append] at hpack
  exact hpack

theorem packExitRsp_eq {buffer : List UInt8} {bufsize : ℕ} (hsize : 2 ≤ bufsize)
    (hsmall : bufsize < 2 ^ 63) (hbuf : bufsize ≤ buffer.length) :
    packExitRsp buffer bufsize = some (2, exitMessage ++ buffer.drop 2) := by
  have hpack := packf_items [.uchar 2, .uchar ipcRspOk] hsmall hbuf hsize
  simp only [itemsBytes, List.flatMap_cons, List.flatMap_nil, Item.bytes_uchar,
    List.append_nil, List.cons_append, List.nil_append] at hpack
  exact hpack

/-- `pack_matrix` writes the rows in use. -/
theorem packMatrix_eq {buffer matrix : List UInt8} {bufsize : ℕ} {nrows : UInt8}
    (hrows : nrows ≠ 0) (hmatrix : 2 * nrows.toNat ≤ matrix.length)
    (hsize : 2 * nrows.toNat + 3 ≤ bufsize) (hsmall : bufsize < 2 ^ 63)
    (hbuf : bufsize ≤ buffer.length) :
    packMatrix buffer bufsize matrix nrows =
      some (((2 * nrows.toNat + 3 : ℕ) : ℤ),
        matrixMessage nrows (matrix.take (2 * nrows.toNat)) ++
          buffer.drop (2 * nrows.toNat + 3)) := by
  have hlen : (matrix.take (2 * nrows.toNat)).length = 2 * nrows.toNat := by
    rw [List.length_take, min_eq_left hmatrix]
  have hpos : 0 < nrows.toNat := UInt8.lt_iff_toNat_lt.mp (UInt8.pos_iff_ne_zero.mpr hrows)
  have hlt := nrows.toNat_lt
  have hlenbyte : UInt8.ofNat (1 + 1 * (nrows.toNat * 2 + 2)) =
      UInt8.ofNat (2 * nrows.toNat + 3) := by
    congr 1
    omega
  have hpack := packf_items [.uchar (UInt8.ofNat (2 * nrows.toNat + 3)), .uchar ipcRspOk,
    .uchar nrows, .uchars (matrix.take (2 * nrows.toNat)) (matrix.drop (2 * nrows.toNat))
      (by omega) (by omega)] hsmall hbuf (by
        simp only [itemsSize, List.map_cons, List.map_nil, List.sum_cons, List.sum_nil,
          Item.size_uchar, Item.size_uchars, hlen]
        omega)
  have hsum : 1 + (1 + (1 + (2 * nrows.toNat + 0))) = 2 * nrows.toNat + 3 := by omega
  simp only [itemsBytes, itemsSize, itemsPackArgs, List.flatMap_cons, List.flatMap_nil,
    List.map_cons, List.map_nil, List.sum_cons, List.sum_nil, Item.bytes_uchar, Item.bytes_uchars,
    Item.size_uchar, Item.size_uchars, Item.packArgs_uchars, List.take_append_drop, hlen, hsum,
    List.append_nil, List.cons_append, List.nil_append] at hpack
  rw [packMatrix, hlenbyte, matrixMessage, hlen]
  exact hpack

/-! ## What the unpack functions make of a message -/

theorem unpackHead_eq {bufsize : ℕ} (len rsp : UInt8) (behind : List UInt8) (hsize : 2 ≤ bufsize)
    (hsmall : bufsize < 2 ^ 63) :
    unpackHead (len :: rsp :: behind) bufsize = some (2, len, rsp) := by
  have hunpack := unpackf_fields [⟨.uchar len, 0, [0], le_rfl⟩, ⟨.uchar rsp, 0, [0], le_rfl⟩]
    behind hsmall hsize
  simp only [fieldsItems, fieldsFilled, itemsBytes, List.map_cons, List.map_nil, List.flatMap_cons,
    List.flatMap_nil, Field.filled, Item.bytes_uchar, List.append_nil, List.cons_append,
    List.nil_append] at hunpack
  have hcall : unpackf (len :: rsp :: behind) bufsize "%hhu%hhu".toList [.ref [0], .ref [0]] =
      some (2, [.pointer 0 [len], .pointer 0 [rsp]]) := hunpack
  rw [unpackHead, hcall]
  rfl

/-- `unpackf` with one destination takes an item to it. -/
theorem unpackTo_item (item : Item) {bufsize : ℕ} {mem : List UInt8} (behind : List UInt8)
    (hroom : item.size ≤ mem.length) (hsize : item.size ≤ bufsize) (hsmall : bufsize < 2 ^ 63) :
    unpackTo (item.bytes ++ behind) bufsize item.fmt item.count mem =
      some ((item.size : ℤ), item.bytes ++ mem.drop item.size) := by
  have hunpack := unpackf_fields [⟨item, 0, mem, hroom⟩] behind hsmall
    (by simpa [fieldsItems, itemsSize] using hsize)
  simp only [fieldsItems, fieldsArgs, fieldsFilled, itemsBytes, itemsSize, itemsFmt, List.map_cons,
    List.map_nil, List.flatMap_cons, List.flatMap_nil, List.append_nil, List.sum_cons, List.sum_nil,
    add_zero, Field.args, Field.filled] at hunpack
  rw [unpackTo, VaArg.ref, hunpack]
  simp

/-- An `int` behind the head of a message -/
theorem unpackTo_int {result : List UInt8} (value : BitVec 32) (behind : List UInt8)
    (hroom : 4 ≤ result.length) :
    unpackTo (Memory.leBytes 4 value.toNat ++ behind) 4 "%d".toList [] result =
      some (4, Memory.leBytes 4 value.toNat ++ result.drop 4) := by
  have hitem := @unpackTo_item (.int value) 4 result behind hroom le_rfl (by decide)
  rw [Item.bytes_int] at hitem
  exact hitem

/-- A number of rows behind the head, and the rows behind it -/
theorem unpackRows_eq {result rows : List UInt8} {nrows : UInt8} (len rsp : UInt8)
    (behind : List UInt8) (hlen : rows.length = 2 * nrows.toNat) (hrows : nrows ≠ 0)
    (hroom : rows.length < result.length) :
    unpackRows (len :: rsp :: nrows :: (rows ++ behind)) (rows.length + 3) 2 result =
      some (((rows.length + 3 : ℕ) : ℤ), nrows :: rows ++ result.drop (rows.length + 1)) := by
  have hpos : 0 < nrows.toNat := UInt8.lt_iff_toNat_lt.mp (UInt8.pos_iff_ne_zero.mpr hrows)
  have hlt := nrows.toNat_lt
  have hcount := @unpackTo_item (.uchar nrows) (rows.length + 1) result (rows ++ behind)
    (by rw [Item.size_uchar]; omega) (by rw [Item.size_uchar]; omega) (by omega)
  rw [Item.bytes_uchar, Item.size_uchar] at hcount
  have hmatrix := @unpackTo_item (.uchars rows [] (by omega) (by omega)) rows.length
    (result.drop 1) behind (by rw [Item.size_uchars, List.length_drop]; omega)
    (by rw [Item.size_uchars]) (by omega)
  rw [Item.bytes_uchars, Item.size_uchars, List.drop_drop] at hmatrix
  have hargs : ∀ h₁ h₂, (Item.uchars rows [] h₁ h₂).count =
      [.integral (BitVec.ofNat 64 (2 * nrows.toNat))] := by
    intro h₁ h₂
    rw [Item.uchars, Item.count, List.length_map, hlen]
  rw [hargs] at hmatrix
  have hcount' : unpackTo ((len :: rsp :: nrows :: (rows ++ behind)).drop (2 : ℤ).toNat)
      (rows.length + 3 - (2 : ℤ).toNat) "%hhu".toList [] result =
        some (1, nrows :: result.drop 1) := hcount
  have hmatrix' : unpackTo ((len :: rsp :: nrows :: (rows ++ behind)).drop (2 + 1 : ℤ).toNat)
      (rows.length + 3 - (2 + 1 : ℤ).toNat) "%*hhu".toList
        [.integral (BitVec.ofNat 64 (2 * nrows.toNat))] (result.drop 1) =
        some ((rows.length : ℤ), rows ++ result.drop (1 + rows.length)) := hmatrix
  rw [unpackRows, hcount']
  simp only [Option.bind_eq_bind, Option.bind_some]
  rw [if_neg (by decide)]
  simp only [List.headD_cons, List.drop_one, List.tail_cons, List.take_succ_cons,
    List.take_zero] at hmatrix' ⊢
  rw [hmatrix', Nat.add_comm 1]
  refine congrArg some (Prod.ext ?_ rfl)
  push_cast
  ring

section Decoders

variable {result : List UInt8} (hresult : result.length = unpackResultSize) (behind : List UInt8)
include hresult

/-- `unpack_int` on either kind of message with an `int` -/
theorem unpackInt_intMessage (rsp : UInt8) (value : BitVec 32) :
    unpackInt (intMessage rsp value ++ behind) 6 result =
      some ((rsp.toNat : ℤ), Memory.leBytes 4 value.toNat ++ result.drop 4) := by
  have hint := unpackTo_int value behind (hresult ▸ by decide : 4 ≤ result.length)
  have hhead := @unpackHead_eq 6 6 rsp (Memory.leBytes 4 value.toNat ++ behind) (by decide)
    (by decide)
  rw [unpackInt, intMessage, List.cons_append, List.cons_append, hhead]
  simp only [Option.bind_eq_bind, Option.bind_some]
  rw [if_neg (by decide), show (2 : ℤ).toNat = 2 from rfl, List.drop_succ_cons,
    List.drop_succ_cons, List.drop_zero, hint]
  rfl

theorem unpackMatrix_intMessage {rsp : UInt8} (hrsp : rsp ≠ 0) (value : BitVec 32) :
    unpackMatrix (intMessage rsp value ++ behind) 6 result =
      some ((rsp.toNat : ℤ), Memory.leBytes 4 value.toNat ++ result.drop 4) := by
  have hint := unpackTo_int value behind (hresult ▸ by decide : 4 ≤ result.length)
  have hhead := @unpackHead_eq 6 6 rsp (Memory.leBytes 4 value.toNat ++ behind) (by decide)
    (by decide)
  rw [unpackMatrix, intMessage, List.cons_append, List.cons_append, hhead]
  simp only [Option.bind_eq_bind, Option.bind_some]
  rw [if_neg (by decide), if_pos hrsp, show (2 : ℤ).toNat = 2 from rfl, List.drop_succ_cons,
    List.drop_succ_cons, List.drop_zero, hint]
  rfl

theorem unpackExitRsp_intMessage {rsp : UInt8} (hrsp : rsp ≠ 0) (value : BitVec 32) :
    unpackExitRsp (intMessage rsp value ++ behind) 6 result =
      some ((rsp.toNat : ℤ), Memory.leBytes 4 value.toNat ++ result.drop 4) := by
  have hint := unpackTo_int value behind (hresult ▸ by decide : 4 ≤ result.length)
  have hhead := @unpackHead_eq 6 6 rsp (Memory.leBytes 4 value.toNat ++ behind) (by decide)
    (by decide)
  rw [unpackExitRsp, intMessage, List.cons_append, List.cons_append, hhead]
  simp only [Option.bind_eq_bind, Option.bind_some]
  rw [if_neg (by decide), if_pos hrsp, show (2 : ℤ).toNat = 2 from rfl, List.drop_succ_cons,
    List.drop_succ_cons, List.drop_zero, hint]
  rfl

/-- `unpack_matrix` on the message of a matrix that fits the union -/
theorem unpackMatrix_matrixMessage {rows : List UInt8} {nrows : UInt8}
    (hlen : rows.length = 2 * nrows.toNat) (hrows : nrows ≠ 0) (hroom : rows.length < 36) :
    unpackMatrix (matrixMessage nrows rows ++ behind) (rows.length + 3) result =
      some (0, nrows :: rows ++ result.drop (rows.length + 1)) := by
  have hread := @unpackRows_eq result rows nrows (UInt8.ofNat (rows.length + 3)) ipcRspOk behind
    hlen hrows (hresult ▸ hroom)
  have hlenbyte : (UInt8.ofNat (rows.length + 3)).toNat = rows.length + 3 := by
    rw [UInt8.toNat_ofNat', Nat.mod_eq_of_lt (by omega)]
  rw [unpackMatrix, matrixMessage, List.cons_append, List.cons_append, List.cons_append,
    unpackHead_eq _ _ _ (by omega) (by omega)]
  simp only [Option.bind_eq_bind, Option.bind_some]
  rw [if_neg (by decide), if_neg (by decide), hread]
  simp only [Option.bind_some, hlenbyte]
  rw [if_neg (by omega), if_neg (not_not.mpr rfl)]
  rfl

omit hresult in
theorem unpackExitRsp_exitMessage :
    unpackExitRsp (exitMessage ++ behind) 2 result = some (0, result) := by
  rw [unpackExitRsp, exitMessage, List.cons_append, List.cons_append, List.nil_append,
    unpackHead_eq _ _ _ (by decide) (by decide)]
  rfl

end Decoders

end AmdgpuFand

import AmdgpuFand.Decoders
import AmdgpuFand.Lib.Ere

/-!
# What the client does with a matrix

The client hands a response to `unpack_matrix` and the union it filled to `format`, which prints
the matrix row by row. Neither knows how large the member `matrix` is: `unpack_matrix` copies as
many rows as the message says it has, and `format_matrix` prints as many as `matrix[0]` says.

The member is taken here as an object of its own, so that a store or a load behind its end has no
result. A message of 48 bytes has room for 22 rows and the member for 16; `bounded_iff` says that
the counts between the two, with their rows present, are the only messages that go wrong.
-/

namespace AmdgpuFand

open Ere CLib

/-! ## `format.c` -/

/-- `UTF-8$` -/
def utf8Regex : Regex := "UTF-8".toList.map (fun c => .chars .one (· == c) 0) ++ [.eol]

/-- What `format_utf8_support` asks the C library -/
structure FormatEnv where
  /-- `regcomp_info` succeeds -/
  regcompOk : Bool
  /-- what `setlocale` returns, `none` for a null pointer -/
  locale : Option (List Char)

def formatUtf8Support (env : FormatEnv) : Bool :=
  if ¬ env.regcompOk then false
  else match env.locale with
    | none => false
    | some locale => (regexec utf8Regex locale).isSome

def degcAscii : List Char := "'C".toList
def degcUtf8 : List Char := "°C".toList

/-- `degc` -/
def degc (env : FormatEnv) : List Char := if formatUtf8Support env then degcUtf8 else degcAscii

def matrixCellWidth : ℕ := 9

/-- A `printf` of `"*%s*%s*\n"` with the buffer full of `fill` -/
def formatRule (fill : Char) : List Char :=
  let buffer := List.replicate (matrixCellWidth - 1) fill
  '*' :: buffer ++ '*' :: buffer ++ ['*', '\n']

/-- A `printf` of `"%3hhu"` -/
def formatCell (value : UInt8) : List Char :=
  List.leftpad 3 ' ' (Nat.toDigits 10 value.toNat)

/-- The two calls of `printf` in the body of the loop -/
def formatRow (env : FormatEnv) (temp speed : UInt8) : List Char :=
  "| ".toList ++ formatCell temp ++ [' '] ++ degc env ++ " |  ".toList ++ formatCell speed ++
    " % |\n".toList ++ formatRule '-'

/-- The first `n` iterations of the loop. Reading behind the end of the matrix has no result. -/
def formatRows (env : FormatEnv) (matrix : List UInt8) : ℕ → Option (List Char)
  | 0 => some []
  | n + 1 => do
    let text ← formatRows env matrix n
    let temp ← matrix[2 * n]?
    let speed ← matrix[2 * n + 1]?
    some (text ++ formatRow env temp speed)

def formatMatrix (env : FormatEnv) (nrows : UInt8) (matrix : List UInt8) : Option (List Char) := do
  let rows ← formatRows env matrix nrows.toNat
  some (formatRule '=' ++ "|  temp  | speed  |\n".toList ++ formatRule '=' ++ rows)

/-- A `printf` of `"%d"` -/
def formatInt (value : BitVec 32) : List Char := (toString value.toInt).toList

def formatTemp (env : FormatEnv) (temp : BitVec 32) : List Char :=
  formatInt temp ++ degc env ++ ['\n']

def formatSpeed (speed : BitVec 32) : List Char := formatInt speed ++ "%\n".toList

/-- What `format` returns and what it prints -/
structure Printed where
  status : ℤ
  stdout : List Char
  stderr : List Char
  deriving DecidableEq

/-- `result` are the bytes of the union, and `strerror` is the function of the C library. -/
def format (env : FormatEnv) (strerror : BitVec 32 → List Char) (result : List UInt8)
    (req rsp : UInt8) : Option Printed :=
  if rsp = ipcRspErr then some ⟨-1, [], strerror (Answer.resultInt result) ++ ['\n']⟩
  else if rsp ≠ ipcRspOk then
    some ⟨-1, [], "Invalid response ".toList ++ Nat.toDigits 10 rsp.toNat ++ ['\n']⟩
  else if req = ipcReqSpeed then some ⟨0, formatSpeed (Answer.resultInt result), []⟩
  else if req = ipcReqTemp then some ⟨0, formatTemp env (Answer.resultInt result), []⟩
  else if req = ipcReqMatrix then do
    let nrows ← result[0]?
    let text ← formatMatrix env nrows (result.drop 1)
    some ⟨0, text, []⟩
  else some ⟨-1, [], "Invalid request ".toList ++ Nat.toDigits 10 req.toNat ++ ['\n']⟩

/-! ## Rows that are there are printed -/

/-- Only the first `2 * n` entries are read, and they have to be there. -/
theorem formatRows_take (env : FormatEnv) {matrix : List UInt8} {n : ℕ}
    (h : 2 * n ≤ matrix.length) :
    ∃ text, formatRows env matrix n = some text ∧
      ∀ matrix', matrix'.take (2 * n) = matrix.take (2 * n) →
        formatRows env matrix' n = some text := by
  induction n with
  | zero => exact ⟨[], rfl, fun _ _ => rfl⟩
  | succ n ih =>
    obtain ⟨text, -, hsame⟩ := ih (by omega)
    -- both arrays agree at the two entries of the last row
    have hlast : ∀ matrix', matrix'.take (2 * (n + 1)) = matrix.take (2 * (n + 1)) →
        formatRows env matrix' (n + 1) =
          some (text ++ formatRow env matrix[2 * n] matrix[2 * n + 1]) := by
      intro matrix' heq
      have hentry : ∀ i < 2 * (n + 1), matrix'[i]? = matrix[i]? := by
        intro i hi
        rw [← List.getElem?_take_of_lt hi, heq, List.getElem?_take_of_lt hi]
      have hfront : matrix'.take (2 * n) = matrix.take (2 * n) := by
        have htake := congrArg (List.take (2 * n)) heq
        rwa [List.take_take, List.take_take, min_eq_left (by omega)] at htake
      rw [formatRows, hsame matrix' hfront, hentry (2 * n) (by omega),
        hentry (2 * n + 1) (by omega), List.getElem?_eq_getElem (by omega),
        List.getElem?_eq_getElem (by omega)]
      rfl
    exact ⟨_, hlast matrix rfl, hlast⟩

theorem formatMatrix_take (env : FormatEnv) {nrows : UInt8} {rows : List UInt8}
    (h : 2 * nrows.toNat ≤ rows.length) (behind : List UInt8) :
    ∃ text, formatMatrix env nrows (rows.take (2 * nrows.toNat)) = some text ∧
      formatMatrix env nrows (rows.take (2 * nrows.toNat) ++ behind) = some text := by
  have hlen : (rows.take (2 * nrows.toNat)).length = 2 * nrows.toNat := List.length_take_of_le h
  obtain ⟨text, htext, hsame⟩ := formatRows_take env hlen.ge
  refine ⟨_, by rw [formatMatrix, htext]; rfl, ?_⟩
  rw [formatMatrix, hsame _ (by rw [List.take_left' hlen, List.take_of_length_le hlen.le])]
  rfl

/-! ## Bounded decoding -/

/-- The size of the member `matrix` of the union -/
def resultMatrixSize : ℕ := 2 * maxTempThresholds + 1

/-- The number of rows in a message -/
def messageRows (bytes : List UInt8) : UInt8 := bytes.getD 2 0

/-- The entries of a message -/
def messageEntries (bytes : List UInt8) : List UInt8 :=
  (bytes.drop 3).take (2 * (messageRows bytes).toNat)

/-- Whatever the member held, `unpack_matrix` stores inside it only, and a matrix it accepts has no
more rows than there is room for and is printed from the entries of the message alone. -/
def Bounded (bytes : List UInt8) : Prop :=
  ∀ (env : FormatEnv) (strerror : BitVec 32 → List Char) (result : Vector UInt8 resultMatrixSize),
    ∃ value result', unpackMatrix bytes bytes.length result.toList = some (value, result') ∧
      (UInt8.ofInt value = ipcRspOk →
        result'.head? = some (messageRows bytes) ∧
        2 * (messageRows bytes).toNat + 1 ≤ 2 * maxTempThresholds + 1 ∧
        ∃ text, formatMatrix env (messageRows bytes) (messageEntries bytes) = some text ∧
          format env strerror result' ipcReqMatrix (UInt8.ofInt value) = some ⟨0, text, []⟩)

/-- More rows than the member has room for, all of them in the message -/
def Overlong (bytes : List UInt8) : Prop :=
  ∃ len nrows rows, bytes = len :: ipcRspOk :: nrows :: rows ∧
    maxTempThresholds < nrows.toNat ∧ 2 * nrows.toNat ≤ rows.length

/-- A message that is rejected is not printed as a matrix. -/
theorem bounded_of_rejects {bytes : List UInt8}
    (h : ∀ result : Vector UInt8 resultMatrixSize, Decoder.matrix.Rejects bytes result.toList) :
    Bounded bytes := by
  intro env strerror result
  obtain ⟨value, result', hunpack, hne⟩ := h result
  exact ⟨value, result', hunpack, fun hok => absurd hok hne⟩

/-- A matrix is printed from the rows behind its first byte. -/
theorem format_ipcReqMatrix {env : FormatEnv} {strerror : BitVec 32 → List Char} {nrows : UInt8}
    {matrix : List UInt8} {text : List Char} (h : formatMatrix env nrows matrix = some text) :
    format env strerror (nrows :: matrix) ipcReqMatrix ipcRspOk = some ⟨0, text, []⟩ := by
  have hformat : format env strerror (nrows :: matrix) ipcReqMatrix ipcRspOk =
      (formatMatrix env nrows matrix).bind fun text => some ⟨0, text, []⟩ := rfl
  rw [hformat, h, Option.bind_some]

/-- An overlong message has the number of its rows. -/
theorem Overlong.three_le {bytes : List UInt8} (h : Overlong bytes) : 3 ≤ bytes.length := by
  obtain ⟨len, nrows, rows, rfl, -⟩ := h
  exact Nat.le_add_left 3 rows.length

section Rows

variable {len nrows : UInt8} {rows : List UInt8}

theorem overlong_iff : Overlong (len :: ipcRspOk :: nrows :: rows) ↔
    maxTempThresholds < nrows.toNat ∧ 2 * nrows.toNat ≤ rows.length := by
  refine ⟨?_, ?_⟩
  · rintro ⟨len', nrows', rows', heq, h⟩
    cases heq
    exact h
  · intro h
    exact ⟨len, nrows, rows, rfl, h⟩

/-- A matrix whose rows are all there and stay inside the member -/
theorem bounded_of_entries (hrows : 2 * nrows.toNat ≤ rows.length)
    (hroom : nrows.toNat ≤ maxTempThresholds)
    (h : ∀ result : Vector UInt8 resultMatrixSize, ∃ value behind,
      unpackMatrix (len :: ipcRspOk :: nrows :: rows) (rows.length + 3) result.toList =
        some (value, nrows :: (rows.take (2 * nrows.toNat) ++ behind))) :
    Bounded (len :: ipcRspOk :: nrows :: rows) := by
  intro env strerror result
  obtain ⟨value, behind, hunpack⟩ := h result
  obtain ⟨text, htext, hsame⟩ := formatMatrix_take env hrows behind
  refine ⟨value, _, hunpack, fun hok => ⟨rfl, ?_, text, htext, ?_⟩⟩
  · exact Nat.add_le_add_right (Nat.mul_le_mul_left 2 hroom) 1
  · rw [hok]
    exact format_ipcReqMatrix hsame

variable (hsmall : rows.length + 3 < 2 ^ 63)

include hsmall

/-- The number of rows decides. -/
theorem bounded_rows_iff : Bounded (len :: ipcRspOk :: nrows :: rows) ↔
    ¬ Overlong (len :: ipcRspOk :: nrows :: rows) := by
  have hunpack := @unpackMatrix_vector resultMatrixSize (by decide) len nrows rows hsmall
  have hroom : resultMatrixSize - 1 < 2 * nrows.toNat ↔ maxTempThresholds < nrows.toNat := by
    rw [resultMatrixSize, Nat.add_sub_cancel, Nat.mul_lt_mul_left (Nat.zero_lt_two)]
  simp only [hroom] at hunpack
  rw [overlong_iff]
  by_cases hzero : nrows = 0
  · -- no rows, which are copied by no store
    subst hzero
    refine iff_of_true ?_ fun h => Nat.not_lt_zero _ h.1
    refine bounded_of_entries (Nat.zero_le _) (Nat.zero_le _) fun result => ?_
    exact ⟨_, result.toList.drop 1, (hunpack result).trans (if_pos rfl)⟩
  simp only [if_neg hzero] at hunpack
  by_cases hshort : rows.length < 2 * nrows.toNat
  · simp only [if_pos hshort] at hunpack
    refine iff_of_true ?_ fun h => absurd h.2 (not_le.mpr hshort)
    exact bounded_of_rejects fun result => ⟨_, _, hunpack result, by decide⟩
  simp only [if_neg hshort] at hunpack
  by_cases hover : maxTempThresholds < nrows.toNat
  · simp only [if_pos hover] at hunpack
    refine iff_of_false (fun h => ?_) (not_not.mpr ⟨hover, not_lt.mp hshort⟩)
    -- the rows are stored behind the end of the member
    obtain ⟨value, result', hvalue, -⟩ := h ⟨true, none⟩ (fun _ => []) (Vector.replicate _ 0)
    have hnone := hunpack (Vector.replicate _ 0)
    have heq : none = some (value, result') := hnone.symm.trans hvalue
    cases heq
  · simp only [if_neg hover] at hunpack
    refine iff_of_true ?_ fun h => hover h.1
    exact bounded_of_entries (not_lt.mp hshort) (not_lt.mp hover) fun result =>
      ⟨_, _, hunpack result⟩

end Rows

/-- **Where decoding is bounded.** The rows of a received message stay inside the member `matrix`,
and the printed entries are those of the message, unless the message counts more rows than the
member has room for and brings them along. -/
theorem bounded_iff (bytes : List UInt8) (hlen : bytes.length ≤ ipcMaxMsgLength) :
    Bounded bytes ↔ ¬ Overlong bytes := by
  simp only [ipcMaxMsgLength] at hlen
  -- an overlong message has a head without an error and a number of rows
  rcases bytes with _ | ⟨len, _ | ⟨rsp, rest⟩⟩
  · refine iff_of_true ?_ fun h => absurd h.three_le (by decide)
    exact bounded_of_rejects fun result => rejects_short .matrix (by decide) _
  · refine iff_of_true ?_ fun h => absurd h.three_le (by simp)
    exact bounded_of_rejects fun result => rejects_short .matrix (by simp) _
  rw [List.length_cons, List.length_cons] at hlen
  by_cases hrsp : rsp = ipcRspOk
  · subst hrsp
    rcases rest with _ | ⟨nrows, rows⟩
    · refine iff_of_true ?_ fun h => absurd h.three_le (by simp)
      exact bounded_of_rejects fun result =>
        rejects_unpackMatrix_nil (four_le_length (by decide) result)
    · rw [List.length_cons] at hlen
      exact bounded_rows_iff (by omega)
  · refine iff_of_true ?_ ?_
    · exact bounded_of_rejects fun result =>
        rejects_unpackMatrix_err (four_le_length (by decide) result) (by omega) hrsp
    · rintro ⟨len', nrows, rows, heq, -⟩
      cases heq
      exact hrsp rfl

/-- One row -/
theorem bounded_one_row : Bounded [5, 0, 1, 50, 20] := by
  refine (bounded_iff [5, 0, 1, 50, 20] (by decide)).mpr ?_
  rintro ⟨len, nrows, rows, heq, hover, -⟩
  cases heq
  exact absurd hover (by decide)

/-- Seventeen rows with the length that belongs to them -/
theorem unpackMatrix_seventeen_rows :
    ¬ Bounded ([37, 0, 17] ++ List.replicate 34 50) ∧
      ([37, 0, 17] ++ List.replicate 34 50 : List UInt8).length ≤ ipcMaxMsgLength := by
  refine ⟨fun h => ?_, by decide⟩
  obtain ⟨value, result', hvalue, -⟩ := h ⟨true, none⟩ (fun _ => []) (Vector.replicate _ 0)
  have hnone : unpackMatrix ([37, 0, 17] ++ List.replicate 34 50)
      ([37, 0, 17] ++ List.replicate 34 50 : List UInt8).length
      (Vector.replicate resultMatrixSize 0).toList = none := by
    decide +kernel
  rw [hnone] at hvalue
  cases hvalue

end AmdgpuFand

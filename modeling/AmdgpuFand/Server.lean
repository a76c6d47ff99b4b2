import AmdgpuFand.Fandcfg
import AmdgpuFand.Ipc
import AmdgpuFand.Sigchld

/-!
# Serving a client

The child that the daemon forks for a client runs `server_recv_and_respond`: one byte is received,
the request is validated, the answer is packed into a buffer on the stack and sent. The control
interface reads it with the unpack function that belongs to its request.

What the two sides agree on is an `Answer`. `serverRecvAndRespond_eq` says that the server sends the
message of the answer, `reads_answer` that the client reads it off again;
`serverRecvAndRespond_agrees` is the two together.
-/

namespace AmdgpuFand

open CLib

/-! ## The server -/

/-- An error number as an `int` -/
def errno (number : ℤ) : BitVec 32 :=
  BitVec.ofInt 32 number

/-- What `recv` returns -/
inductive Recv
  | failed
  | closed
  | request (r : UInt8)

/-- What the calls out of `server_recv_and_respond` return -/
structure ServerCalls where
  recv : Recv
  /-- `getsockopt` with `SO_PEERCRED`: the client's uid, or `errno` -/
  peercred : Except (BitVec 32) UInt32
  /-- `fanctrl_get_speed` -/
  speed : BitVec 32
  /-- `fanctrl_get_temp` -/
  temp : BitVec 32
  /-- `send` does not return -1 -/
  sent : Bool

/-- `server_validate_request`: 0 or an error number -/
def serverValidateRequest (calls : ServerCalls) (request : UInt8) : BitVec 32 :=
  if request ∉ ipcValidRequests then errno einval
  else if request < ipcReqUnprivileged then
    match calls.peercred with
    | .error number => number
    | .ok uid => if uid ≠ 0 then errno eacces else 0
  else 0

/-- `server_pack_result` -/
def serverPackResult (calls : ServerCalls) (buffer : List UInt8) (bufsize : ℕ) (request : UInt8) :
    Option (ℤ × List UInt8) :=
  let rspval : BitVec 32 :=
    if request = ipcReqSpeed then calls.speed
    else if request = ipcReqTemp then calls.temp
    else -1
  if rspval.toInt < 0 then packError buffer bufsize (errno eagain)
  else if request = ipcReqSpeed then packSpeed buffer bufsize rspval
  else packTemp buffer bufsize rspval

/-- The response in `server_recv_and_respond`: the error, or the `switch` on the request -/
def serverPack (calls : ServerCalls) (config : FandConfig) (buffer : List UInt8) (bufsize : ℕ)
    (request : UInt8) (status : BitVec 32) : Option (ℤ × List UInt8) :=
  if status ≠ 0 then packError buffer bufsize status
  else if request = ipcReqExit then packExitRsp buffer bufsize
  else if request = ipcReqSpeed then serverPackResult calls buffer bufsize request
  else if request = ipcReqTemp then serverPackResult calls buffer bufsize request
  else if request = ipcReqMatrix then
    packMatrix buffer bufsize config.matrix.toList config.matrixRows
  else packError buffer bufsize (errno einval)

/-- The return value of `server_recv_and_respond` and the bytes it sends -/
structure Reply where
  code : ℤ
  bytes : List UInt8
  deriving DecidableEq

/-- `server_recv_and_respond`, with the initial content of its buffer -/
def serverRecvAndRespond (calls : ServerCalls) (config : FandConfig)
    (buffer : Vector UInt8 ipcMaxMsgLength) : Option Reply :=
  match calls.recv with
  | .failed => some ⟨1, []⟩
  | .closed => some ⟨1, []⟩
  | .request request => do
    let status := serverValidateRequest calls request
    let exitcode := if status = 0 ∧ request = ipcReqExit then fandServerExit.toNat else 0
    let (rsplen, buffer) ←
      serverPack calls config buffer.toList ipcMaxMsgLength request status
    if rsplen < 0 then some ⟨(exitcode ||| 1 : ℕ), []⟩
    else do
      let bytes ← Memory.load buffer 0 rsplen.toNat
      some ⟨if calls.sent then exitcode else (exitcode ||| 1 : ℕ), bytes⟩

/-! ## Answers -/

/-- What a request is answered with -/
inductive Answer
  | done
  | reading (value : BitVec 32)
  | matrix (nrows : UInt8) (rows : List UInt8)
  | error (number : BitVec 32)

namespace Answer

/-- A reading that is not available is negative. -/
def ofReading (value : BitVec 32) : Answer :=
  if value.toInt < 0 then error (errno eagain) else reading value

/-- The answer to a request by a user -/
def of (request : UInt8) (uid : UInt32) (config : FandConfig) (speed temp : BitVec 32) : Answer :=
  if request = ipcReqExit then if uid = 0 then done else error (errno eacces)
  else if request = ipcReqSpeed then ofReading speed
  else if request = ipcReqTemp then ofReading temp
  else if request = ipcReqMatrix then
    matrix config.matrixRows (config.matrix.toList.take (2 * config.rows))
  else error (errno einval)

/-- The message that carries an answer -/
def message : Answer → List UInt8
  | done => exitMessage
  | reading value => intMessage ipcRspOk value
  | matrix nrows rows => matrixMessage nrows rows
  | error number => intMessage ipcRspErr number

/-- The members `error`, `temp` and `speed` of the union -/
def resultInt (result : List UInt8) : BitVec 32 :=
  BitVec.ofNat 32 (Memory.leValue (result.take 4))

/-- A client has an answer when it has the response code and, in the union, the `int` or the
number of rows followed by the rows. -/
def Decoded : Answer → ℤ → List UInt8 → Prop
  | done, rsp, _ => rsp = ipcRspOk.toNat
  | reading value, rsp, result =>
    rsp = ipcRspOk.toNat ∧ resultInt result = value
  | matrix nrows rows, rsp, result =>
    rsp = ipcRspOk.toNat ∧ result.take (rows.length + 1) = nrows :: rows
  | error number, rsp, result =>
    rsp = ipcRspErr.toNat ∧ resultInt result = number

end Answer

/-! ## The client -/

/-- The unpack functions of the control interface -/
inductive Decoder
  | speed | temp | matrix | exit
  deriving DecidableEq

def Decoder.unpack : Decoder → List UInt8 → ℕ → List UInt8 → Option (ℤ × List UInt8)
  | speed => unpackSpeed
  | temp => unpackTemp
  | matrix => unpackMatrix
  | exit => unpackExitRsp

/-- The unpack function that `request_process_get` and `request_process_exit` choose. They send no
other requests; any function may be asked to read the answer to one. -/
def decoders (request : UInt8) : List Decoder :=
  if request = ipcReqExit then [.exit]
  else if request = ipcReqSpeed then [.speed]
  else if request = ipcReqTemp then [.temp]
  else if request = ipcReqMatrix then [.matrix]
  else [.speed, .temp, .matrix, .exit]

/-! ## The server sends the answer -/

@[simp] theorem length_intMessage (rsp : UInt8) (value : BitVec 32) :
    (intMessage rsp value).length = 6 := by
  rw [intMessage, List.length_cons, List.length_cons, Memory.leBytes_length]

@[simp] theorem length_matrixMessage (nrows : UInt8) (rows : List UInt8) :
    (matrixMessage nrows rows).length = rows.length + 3 := rfl

/-- A message stands at the front of the buffer, with its length returned. -/
def Holds (message : List UInt8) (packed : Option (ℤ × List UInt8)) : Prop :=
  ∃ rest, packed = some ((message.length : ℤ), message ++ rest)

section Buffer

variable (buffer : Vector UInt8 ipcMaxMsgLength)

theorem holds_packInt (rsp : UInt8) (value : BitVec 32) :
    Holds (intMessage rsp value) (packInt buffer.toList ipcMaxMsgLength rsp value) := by
  refine ⟨buffer.toList.drop 6, ?_⟩
  rw [packInt_eq rsp value (by decide) (by decide) (by simp), length_intMessage]
  rfl

theorem holds_packExitRsp : Holds exitMessage (packExitRsp buffer.toList ipcMaxMsgLength) := by
  refine ⟨buffer.toList.drop 2, ?_⟩
  rw [packExitRsp_eq (by decide) (by decide) (by simp)]
  rfl

theorem holds_packMatrix {config : FandConfig} (hpos : 1 ≤ config.rows)
    (hrows : config.rows ≤ maxTempThresholds) :
    Holds (matrixMessage config.matrixRows (config.matrix.toList.take (2 * config.rows)))
      (packMatrix buffer.toList ipcMaxMsgLength config.matrix.toList config.matrixRows) := by
  simp only [FandConfig.rows, maxTempThresholds] at hpos hrows ⊢
  have hlen : (config.matrix.toList.take (2 * config.matrixRows.toNat)).length =
      2 * config.matrixRows.toNat := by
    rw [List.length_take, Vector.length_toList, min_eq_left]
    simp only [matrixMaxSize, maxTempThresholds]
    omega
  have hne : config.matrixRows ≠ 0 := by
    intro h
    rw [h] at hpos
    exact absurd hpos (by decide)
  refine ⟨buffer.toList.drop (2 * config.matrixRows.toNat + 3), ?_⟩
  rw [packMatrix_eq hne _ _ (by decide) (by simp), length_matrixMessage, hlen]
  · rw [Vector.length_toList]
    simp only [matrixMaxSize, maxTempThresholds]
    omega
  · simp only [ipcMaxMsgLength]
    omega

/-- A request without a reading is answered like a negative one. -/
theorem holds_serverPackResult (calls : ServerCalls) (request : UInt8) (value : BitVec 32)
    (hvalue : (if request = ipcReqSpeed then calls.speed
      else if request = ipcReqTemp then calls.temp else -1) = value) :
    Holds (Answer.ofReading value).message
      (serverPackResult calls buffer.toList ipcMaxMsgLength request) := by
  rw [serverPackResult, hvalue, Answer.ofReading]
  by_cases hneg : value.toInt < 0
  · simp only [if_pos hneg]
    exact holds_packInt buffer ipcRspErr (errno eagain)
  · simp only [if_neg hneg, packSpeed, packTemp, ite_self]
    exact holds_packInt buffer ipcRspOk value

end Buffer

/-- One byte is written by a `%hhu`, or there is no room for it. -/
theorem packfLoop_uchar {bufsize fuel nwritten : ℕ} {buffer out : List UInt8} {rest : List Char}
    {x : UInt8} {args : List VaArg} {n : ℤ}
    (h : packfLoop bufsize (fuel + 1) buffer ('%' :: (FmtType.hhu.text ++ rest))
      (.uchar x :: args) nwritten = some (n, out)) :
    n < 0 ∨ ∃ buffer', packfLoop bufsize fuel buffer' rest args (nwritten + 1) = some (n, out) := by
  rw [packfLoop_conversion (vaRepeat_text .hhu rest (.uchar x :: args)) one_ne_zero rfl] at h
  split_ifs at h
  · cases h
    exact .inl (by decide)
  · obtain ⟨bytes, -, h⟩ := Option.bind_eq_some_iff.mp h
    obtain ⟨buffer', -, h⟩ := Option.bind_eq_some_iff.mp h
    exact .inr ⟨buffer', h⟩

/-- An array that is not there is not packed. -/
theorem packfLoop_array_short {bufsize fuel nwritten count : ℕ} {buffer mem out : List UInt8}
    {n : ℤ} (hcount : count < 2 ^ 32) (hshort : count = 0 ∨ 1 < count ∧ mem.length < count)
    (h : packfLoop bufsize (fuel + 1) buffer ('%' :: '*' :: (FmtType.hhu.text ++ []))
      [.integral (BitVec.ofNat 64 count), .ref mem] nwritten = some (n, out)) : n < 0 := by
  have hrepeat := vaRepeat_star (FmtType.hhu.text ++ []) count hcount [.ref mem]
  rcases hshort with rfl | ⟨hone, hshort⟩
  · simp only [packfLoop, List.headD_cons, List.drop_one, List.tail_cons, hrepeat] at h
    cases h
    decide
  · have hsource : packSource .hhu count [.ref mem] = some (mem, []) := by
      rw [packSource, if_neg (by omega)]
      rfl
    have hload : Memory.load mem 0 (count * dfaValsize .hhu % 2 ^ 32) = none := by
      rw [show dfaValsize .hhu = 1 from rfl, mul_one, Nat.mod_eq_of_lt hcount, Memory.load,
        if_neg (by omega)]
    rw [packfLoop_conversion hrepeat (by omega) hsource, hload] at h
    split_ifs at h
    · cases h
      decide
    · cases h

/-- Rows that the matrix does not have, or none at all, are not packed. -/
theorem packMatrix_refused {buffer matrix out : List UInt8} {bufsize : ℕ} {nrows : UInt8} {n : ℤ}
    (hrows : nrows = 0 ∨ matrix.length < 2 * nrows.toNat)
    (hpack : packMatrix buffer bufsize matrix nrows = some (n, out)) : n < 0 := by
  have hlt := nrows.toNat_lt
  have hfmt : "%hhu%hhu%hhu%*hhu".toList = '%' :: (FmtType.hhu.text ++ '%' :: (FmtType.hhu.text ++
      '%' :: (FmtType.hhu.text ++ '%' :: '*' :: (FmtType.hhu.text ++ [])))) := by decide
  have hshort : 2 * nrows.toNat = 0 ∨ 1 < 2 * nrows.toNat ∧ matrix.length < 2 * nrows.toNat := by
    rcases hrows with rfl | hshort
    · exact .inl rfl
    · exact .inr ⟨by omega, hshort⟩
  rw [packMatrix, packf, hfmt] at hpack
  -- the head of the message, one byte after the other
  rcases packfLoop_uchar hpack with hneg | ⟨_, hpack⟩
  · exact hneg
  rcases packfLoop_uchar hpack with hneg | ⟨_, hpack⟩
  · exact hneg
  rcases packfLoop_uchar hpack with hneg | ⟨_, hpack⟩
  · exact hneg
  exact packfLoop_array_short (by omega) hshort hpack

/-- A request outside `ipc_valid_requests` is none of the four. -/
theorem mem_ipcValidRequests {request : UInt8} :
    request ∈ ipcValidRequests ↔ request = ipcReqExit ∨ request = ipcReqSpeed ∨
      request = ipcReqTemp ∨ request = ipcReqMatrix := by
  simp [ipcValidRequests]

theorem serverValidateRequest_unprivileged {calls : ServerCalls} {request : UInt8}
    (hvalid : request ∈ ipcValidRequests) (hrequest : ¬ request < ipcReqUnprivileged) :
    serverValidateRequest calls request = 0 := by
  rw [serverValidateRequest, if_neg (not_not.mpr hvalid), if_neg hrequest]

/-- What is packed is the answer. -/
theorem holds_answer {calls : ServerCalls} {uid : UInt32} (hcred : calls.peercred = .ok uid)
    {config : FandConfig} (hpos : 1 ≤ config.rows) (hrows : config.rows ≤ maxTempThresholds)
    (buffer : Vector UInt8 ipcMaxMsgLength) (request : UInt8) :
    Holds (Answer.of request uid config calls.speed calls.temp).message
      (serverPack calls config buffer.toList ipcMaxMsgLength request
        (serverValidateRequest calls request)) := by
  by_cases hvalid : request ∈ ipcValidRequests
  case neg =>
    have hstatus : serverValidateRequest calls request = errno einval := by
      rw [serverValidateRequest, if_pos hvalid]
    rw [mem_ipcValidRequests] at hvalid
    push Not at hvalid
    obtain ⟨h₁, h₂, h₃, h₄⟩ := hvalid
    have hpack : serverPack calls config buffer.toList ipcMaxMsgLength request (errno einval) =
        packInt buffer.toList ipcMaxMsgLength ipcRspErr (errno einval) := by
      rw [serverPack, if_pos (by decide), packError]
    rw [hstatus, hpack, Answer.of, if_neg h₁, if_neg h₂, if_neg h₃, if_neg h₄]
    exact holds_packInt buffer ipcRspErr (errno einval)
  case pos =>
    -- the four requests in turn
    rcases mem_ipcValidRequests.mp hvalid with rfl | rfl | rfl | rfl
    · have hstatus : serverValidateRequest calls ipcReqExit =
          if uid ≠ 0 then errno eacces else 0 := by
        rw [serverValidateRequest, if_neg (by decide), if_pos (by decide), hcred]
      rw [hstatus, Answer.of, if_pos rfl]
      by_cases huid : uid = 0
      · rw [if_neg (not_not.mpr huid), if_pos huid, serverPack, if_neg (not_not.mpr rfl),
          if_pos rfl]
        exact holds_packExitRsp buffer
      · rw [if_pos huid, if_neg huid, serverPack, if_pos (by decide), packError]
        exact holds_packInt buffer ipcRspErr (errno eacces)
    · rw [serverValidateRequest_unprivileged hvalid (by decide), serverPack,
        if_neg (not_not.mpr rfl), if_neg (by decide), if_pos rfl, Answer.of, if_neg (by decide),
        if_pos rfl]
      exact holds_serverPackResult buffer calls ipcReqSpeed calls.speed (if_pos rfl)
    · rw [serverValidateRequest_unprivileged hvalid (by decide), serverPack,
        if_neg (not_not.mpr rfl), if_neg (by decide), if_neg (by decide), if_pos rfl, Answer.of,
        if_neg (by decide), if_neg (by decide), if_pos rfl]
      exact holds_serverPackResult buffer calls ipcReqTemp calls.temp (by
        rw [if_neg (by decide), if_pos rfl])
    · rw [serverValidateRequest_unprivileged hvalid (by decide), serverPack,
        if_neg (not_not.mpr rfl), if_neg (by decide), if_neg (by decide), if_neg (by decide),
        if_pos rfl, Answer.of, if_neg (by decide), if_neg (by decide), if_neg (by decide),
        if_pos rfl]
      exact holds_packMatrix buffer hpos hrows

/-- The exit code of the child without the result of `send` -/
def exitcode (request : UInt8) (uid : UInt32) : ℕ :=
  if request = ipcReqExit ∧ uid = 0 then fandServerExit.toNat else 0

/-- A validated exit request is one by root. -/
theorem serverValidateRequest_exit {calls : ServerCalls} {uid : UInt32}
    (hcred : calls.peercred = .ok uid) (request : UInt8) :
    (serverValidateRequest calls request = 0 ∧ request = ipcReqExit) ↔
      (request = ipcReqExit ∧ uid = 0) := by
  refine ⟨?_, ?_⟩
  · rintro ⟨hstatus, rfl⟩
    refine ⟨rfl, ?_⟩
    rw [serverValidateRequest, if_neg (by decide), if_pos (by decide), hcred] at hstatus
    by_contra huid
    simp only [if_pos huid] at hstatus
    exact absurd hstatus (by decide)
  · rintro ⟨rfl, rfl⟩
    rw [serverValidateRequest, if_neg (by decide), if_pos (by decide), hcred]
    exact ⟨rfl, rfl⟩

/-- The server sends the message of the answer. -/
theorem serverRecvAndRespond_eq {calls : ServerCalls} {uid : UInt32} {request : UInt8}
    (hrecv : calls.recv = .request request) (hcred : calls.peercred = .ok uid)
    {config : FandConfig} (hpos : 1 ≤ config.rows) (hrows : config.rows ≤ maxTempThresholds)
    (buffer : Vector UInt8 ipcMaxMsgLength) :
    serverRecvAndRespond calls config buffer =
      some ⟨if calls.sent then exitcode request uid else (exitcode request uid ||| 1 : ℕ),
        (Answer.of request uid config calls.speed calls.temp).message⟩ := by
  obtain ⟨rest, hpack⟩ := holds_answer hcred hpos hrows buffer request
  rw [serverRecvAndRespond, hrecv]
  simp only [serverValidateRequest_exit hcred, hpack, Option.bind_eq_bind, Option.bind_some,
    Int.toNat_natCast, Memory.load_zero]
  rw [if_neg (not_lt.mpr (Int.natCast_nonneg _))]
  rfl

/-! ## The client reads the answer -/

/-- An `int` at the front of the union -/
theorem resultInt_leBytes (value : BitVec 32) (rest : List UInt8) :
    Answer.resultInt (Memory.leBytes 4 value.toNat ++ rest) = value := by
  have htake : (Memory.leBytes 4 value.toNat ++ rest).take 4 = Memory.leBytes 4 value.toNat := by
    rw [List.take_left' (Memory.leBytes_length 4 _)]
  rw [Answer.resultInt, htake, Memory.leValue_leBytes, Nat.mod_eq_of_lt (by
    have := value.isLt
    omega), BitVec.ofNat_toNat, BitVec.setWidth_eq]

/-- From the bytes received, whatever stands behind them and whatever the union held, a decoder
returns a value and fills the union so that the client has the answer. -/
def Decoder.Reads (decoder : Decoder) (bytes : List UInt8) (answer : Answer) : Prop :=
  ∀ (result : Vector UInt8 unpackResultSize) (behind : List UInt8), ∃ rsp result',
    decoder.unpack (bytes ++ behind) bytes.length result.toList = some (rsp, result') ∧
      answer.Decoded rsp result'

namespace Decoder

/-- Every decoder reads an error. -/
theorem reads_error (decoder : Decoder) (number : BitVec 32) :
    decoder.Reads (Answer.error number).message (.error number) := by
  intro result behind
  refine ⟨ipcRspErr.toNat, Memory.leBytes 4 number.toNat ++ result.toList.drop 4, ?_, rfl,
    resultInt_leBytes number _⟩
  rw [Answer.message, length_intMessage]
  cases decoder with
  | speed => exact unpackInt_intMessage result.length_toList behind _ _
  | temp => exact unpackInt_intMessage result.length_toList behind _ _
  | matrix => exact unpackMatrix_intMessage result.length_toList behind (by decide) _
  | exit => exact unpackExitRsp_intMessage result.length_toList behind (by decide) _

/-- `unpack_speed` and `unpack_temp` read a reading, or that there is none. -/
theorem reads_ofReading {decoder : Decoder} (hdecoder : decoder.unpack = unpackInt)
    (value : BitVec 32) : decoder.Reads (Answer.ofReading value).message (.ofReading value) := by
  rw [Answer.ofReading]
  by_cases hneg : value.toInt < 0
  · rw [if_pos hneg]
    exact reads_error decoder (errno eagain)
  · rw [if_neg hneg]
    intro result behind
    refine ⟨ipcRspOk.toNat, Memory.leBytes 4 value.toNat ++ result.toList.drop 4, ?_, rfl,
      resultInt_leBytes value _⟩
    rw [Answer.message, length_intMessage, hdecoder]
    exact unpackInt_intMessage result.length_toList behind _ _

theorem reads_done : exit.Reads Answer.done.message .done := by
  intro result behind
  exact ⟨0, result.toList, unpackExitRsp_exitMessage behind, rfl⟩

theorem reads_matrix {config : FandConfig} (hpos : 1 ≤ config.rows)
    (hrows : config.rows ≤ maxTempThresholds) :
    matrix.Reads
      (Answer.matrix config.matrixRows (config.matrix.toList.take (2 * config.rows))).message
      (.matrix config.matrixRows (config.matrix.toList.take (2 * config.rows))) := by
  intro result behind
  have hlen : (config.matrix.toList.take (2 * config.rows)).length = 2 * config.rows := by
    rw [List.length_take, Vector.length_toList, min_eq_left (Nat.mul_le_mul_left 2 hrows)]
  have hfits : 2 * config.rows < 36 := by
    simp only [maxTempThresholds] at hrows
    omega
  refine ⟨0, _, unpackMatrix_matrixMessage result.length_toList behind hlen ?_
    (hlen.trans_lt hfits), rfl, ?_⟩
  · intro h
    rw [FandConfig.rows, h] at hpos
    exact absurd hpos (by decide)
  · rw [← List.length_cons, List.take_left]

/-- The decoder that belongs to a request reads the answer to it; for an unknown request every
decoder does. -/
theorem reads_answer {config : FandConfig} (hpos : 1 ≤ config.rows)
    (hrows : config.rows ≤ maxTempThresholds) {request : UInt8} (uid : UInt32)
    (speed temp : BitVec 32) {decoder : Decoder} (hdecoder : decoder ∈ decoders request) :
    decoder.Reads (Answer.of request uid config speed temp).message
      (.of request uid config speed temp) := by
  unfold decoders at hdecoder
  unfold Answer.of
  split_ifs at hdecoder ⊢ with hexit huid hspeed htemp hmatrix
  · rw [List.mem_singleton] at hdecoder
    exact hdecoder ▸ reads_done
  · exact reads_error decoder (errno eacces)
  · rw [List.mem_singleton] at hdecoder
    exact reads_ofReading (hdecoder ▸ rfl) speed
  · rw [List.mem_singleton] at hdecoder
    exact reads_ofReading (hdecoder ▸ rfl) temp
  · rw [List.mem_singleton] at hdecoder
    exact hdecoder ▸ reads_matrix hpos hrows
  · exact reads_error decoder (errno einval)

end Decoder

/-! ## Agreement -/

/-- Whatever a client asks for, and whoever it is, the unpack function for its request makes of the
server's reply exactly the answer. The server's child exits with `FAND_SERVER_EXIT` if and only if
root asked for it, whether the reply can be sent or not. -/
theorem serverRecvAndRespond_agrees (request : UInt8) (uid : UInt32) (config : FandConfig)
    (speed temp : BitVec 32) (sent : Bool) (buffer : Vector UInt8 ipcMaxMsgLength)
    (hpos : 1 ≤ config.rows) (hrows : config.rows ≤ maxTempThresholds) :
    ∃ reply, serverRecvAndRespond ⟨.request request, .ok uid, speed, temp, sent⟩ config buffer =
        some reply ∧
      (reply.code = fandServerExit ↔ request = ipcReqExit ∧ uid = 0) ∧
      ∀ decoder ∈ decoders request,
        decoder.Reads reply.bytes (Answer.of request uid config speed temp) := by
  refine ⟨_, serverRecvAndRespond_eq rfl rfl hpos hrows buffer, ?_, ?_⟩
  · simp only [exitcode]
    by_cases hexit : request = ipcReqExit ∧ uid = 0
    · simp only [if_pos hexit]
      cases sent <;> exact iff_of_true (by decide) hexit
    · simp only [if_neg hexit]
      cases sent <;> exact iff_of_false (by decide) hexit
  · intro decoder hdecoder
    exact Decoder.reads_answer hpos hrows uid speed temp hdecoder

/-- Any user may ask for the matrix, here of one row. -/
theorem serverRecvAndRespond_agrees_one_row :
    ∃ reply, serverRecvAndRespond ⟨.request ipcReqMatrix, .ok 1000, 40, 55, false⟩
        { FandConfig.zero with matrixRows := 1 } (Vector.replicate ipcMaxMsgLength 0) =
        some reply ∧
      (reply.code = fandServerExit ↔ ipcReqMatrix = ipcReqExit ∧ (1000 : UInt32) = 0) ∧
      ∀ decoder ∈ decoders ipcReqMatrix,
        decoder.Reads reply.bytes (.of ipcReqMatrix 1000 { FandConfig.zero with matrixRows := 1 }
          40 55) :=
  serverRecvAndRespond_agrees _ _ _ _ _ _ _ (by decide) (by decide)

end AmdgpuFand

import AmdgpuFand.ExitRequest
import AmdgpuFand.Format

/-!
# What the client shows

`amdgpu-fanctl --get` converts the name of what is asked for to a request, sends it, and hands the
reply to the unpack function that belongs to it and then to `format`. All of this happens in two
objects on the stack that nothing has been stored to, a buffer for the reply and a union for what is
read from it.

`requestProcessGet_shown` says what is printed for every outcome of the transport. It depends on the
bytes of the reply only: whatever the stack held, there is a value on the standard output only if
the reply carries one, and the text of an error only if the reply carries its number. The one
exception is a matrix without rows, which `unpack_matrix` takes at the wrong length (`Taken`). The
matrices with more rows than the union has room for are left out (`bounded_iff`).
-/

namespace AmdgpuFand

open CLib

/-! ## `request.c` -/

/-- `ipc_req_inval` -/
def ipcReqInval : UInt8 := 0xff

/-- `ipc_request_map` -/
def ipcRequestMap : List (List Char × UInt8) :=
  [("speed".toList, ipcReqSpeed), ("temp".toList, ipcReqTemp),
    ("temperature".toList, ipcReqTemp), ("matrix".toList, ipcReqMatrix)]

/-- `request_convert`: the return value and `*request` -/
def requestConvert (target : List Char) : ℤ × UInt8 :=
  let request := ((ipcRequestMap.find? fun pair => pair.1 = target).map Prod.snd).getD ipcReqInval
  if request = ipcReqInval then (-1, request) else (0, request)

/-- The unpack function in the `switch` of `request_process_get` -/
def getDecoder (request : UInt8) : Option Decoder :=
  if request = ipcReqSpeed then some .speed
  else if request = ipcReqTemp then some .temp
  else if request = ipcReqMatrix then some .matrix
  else none

section Get

variable (env : FormatEnv) (strerror : BitVec 32 → List Char)

/-- `request_process_get`, with what its variables hold at the start. The messages of
`client_send_and_recv` about the transport are left out. -/
def requestProcessGet (x : Exchange) (rspbuffer result : List UInt8) (request : UInt8) :
    Option Printed :=
  let (rsplen, rspbuffer) := clientSendAndRecv x rspbuffer
  if rsplen < 0 then some ⟨rsplen, [], []⟩
  else
    match getDecoder request with
    | none => some ⟨-1, [], "Invalid request ".toList ++ Nat.toDigits 10 request.toNat ++ ['\n']⟩
    | some decoder => do
      let (rsp, result) ← decoder.unpack rspbuffer (toSizeT rsplen) result
      let printed ← format env strerror result request (UInt8.ofInt rsp)
      some (if printed.status ≠ 0 then { printed with status := -1 } else printed)

/-- `main` for the argument of `--get`: what `request_convert` says of it, or what
`request_process_get` does -/
def fanctlGet (x : Exchange) (rspbuffer result : List UInt8) (target : List Char) :
    Option Printed :=
  let (status, request) := requestConvert target
  if status ≠ 0 then some ⟨1, [], "Invalid request: ".toList ++ target ++ ['\n']⟩
  else do
    let printed ← requestProcessGet env strerror x rspbuffer result request
    some (if printed.status ≠ 0 then { printed with status := 1 } else printed)

/-! ## What a reply says -/

/-- The reply carries what was asked for: it begins with a message that the pack function of this
request writes. -/
def CarriesValue (request : UInt8) (bytes : List UInt8) : Prop :=
  ∃ decoder, getDecoder request = some decoder ∧ decoder.Begins bytes

/-- The client takes the reply for one that carries the value. Besides those that do, it takes a
matrix without rows for one, if the length of these three bytes is given as 2. -/
def Taken (request : UInt8) (bytes : List UInt8) : Prop :=
  CarriesValue request bytes ∨
    request = ipcReqMatrix ∧ ∃ rows, bytes = 2 :: ipcRspOk :: 0 :: rows

/-- The reply carries an error number. -/
def CarriesErrno (bytes : List UInt8) : Prop :=
  ∃ body, bytes = 6 :: ipcRspErr :: body ∧ 4 ≤ body.length

/-- The value in a reply as it is printed -/
def valueText (request : UInt8) (bytes : List UInt8) : Option (List Char) :=
  if request = ipcReqSpeed then some (formatSpeed (Answer.resultInt (bytes.drop 2)))
  else if request = ipcReqTemp then some (formatTemp env (Answer.resultInt (bytes.drop 2)))
  else formatMatrix env (messageRows bytes) (messageEntries bytes)

/-- What is shown of a reply, and of none -/
inductive Shown (request : UInt8) : Option (List UInt8) → Printed → Prop
  | unreached : Shown request none ⟨-1, [], []⟩
  | value {bytes : List UInt8} {text : List Char} (hvalue : Taken request bytes)
      (htext : valueText env request bytes = some text) : Shown request (some bytes) ⟨0, text, []⟩
  | error {bytes : List UInt8} (herror : CarriesErrno bytes) :
      Shown request (some bytes)
        ⟨-1, [], strerror (Answer.resultInt (bytes.drop 2)) ++ ['\n']⟩
  | invalid {bytes : List UInt8} (code : UInt8) (hvalue : ¬ Taken request bytes)
      (herror : ¬ CarriesErrno bytes) :
      Shown request (some bytes)
        ⟨-1, [], "Invalid response ".toList ++ Nat.toDigits 10 code.toNat ++ ['\n']⟩

end Get

/-! ## Only the reply is read -/

section Local

variable {bytes : List UInt8} (behind : List UInt8) (hsmall : bytes.length < 2 ^ 63)

include hsmall

/-- `unpackf` reads no further than it is told. -/
theorem unpackf_append (fmt : List Char) (args : List VaArg) :
    unpackf (bytes ++ behind) bytes.length fmt args = unpackf bytes bytes.length fmt args := by
  have htake := @unpackfLoop_take (bytes ++ behind) bytes.length hsmall (by simp) (fmt.length + 1)
    fmt args 0 (Nat.zero_le _)
  rw [List.take_left] at htake
  exact htake.symm

theorem unpackHead_append :
    unpackHead (bytes ++ behind) bytes.length = unpackHead bytes bytes.length := by
  rw [unpackHead, unpackHead, unpackf_append behind hsmall]

/-- A decoder made of it does not see what stands behind its message. -/
theorem unpackTo_append (fmt : List Char) (count : List VaArg) (mem : List UInt8) :
    unpackTo (bytes ++ behind) bytes.length fmt count mem =
      unpackTo bytes bytes.length fmt count mem := by
  rw [unpackTo, unpackTo, unpackf_append behind hsmall]

/-- The same behind the front of the reply -/
theorem unpackTo_drop_append {k : ℕ} (hk : k ≤ bytes.length) (fmt : List Char)
    (count : List VaArg) (mem : List UInt8) :
    unpackTo ((bytes ++ behind).drop k) (bytes.length - k) fmt count mem =
      unpackTo (bytes.drop k) (bytes.length - k) fmt count mem := by
  have hlength : (bytes.drop k).length = bytes.length - k := List.length_drop
  rw [List.drop_append_of_le_length hk, ← hlength]
  exact unpackTo_append behind (by omega) fmt count mem

omit hsmall in
/-- A head that has been read is two bytes long. -/
theorem unpackHead_cases {rsplen : ℤ} {len rsp : UInt8}
    (h : unpackHead bytes bytes.length = some (rsplen, len, rsp)) :
    rsplen < 0 ∨ rsplen = 2 ∧ ∃ rest, bytes = len :: rsp :: rest := by
  rcases bytes with _ | ⟨len', _ | ⟨rsp', rest⟩⟩
  · have hhead : unpackHead [] 0 = some (-e2big, 0, 0) := rfl
    rw [List.length_nil, hhead] at h
    cases h
    exact .inl (by decide)
  · have hhead : unpackHead [len'] 1 = some (-e2big, len', 0) := rfl
    rw [List.length_singleton, hhead] at h
    cases h
    exact .inl (by decide)
  · obtain ⟨len'', rsp'', hhead⟩ := unpackHead_cells (len' :: rsp' :: rest).length len' rsp' rest
    rw [hhead, if_neg (by simp)] at h
    cases h
    exact .inr ⟨rfl, rest, rfl⟩

theorem unpackInt_append (result : List UInt8) :
    unpackInt (bytes ++ behind) bytes.length result = unpackInt bytes bytes.length result := by
  rw [unpackInt, unpackInt, unpackHead_append behind hsmall]
  refine Option.bind_congr fun head hhead => ?_
  obtain ⟨rsplen, len, rsp⟩ := head
  dsimp only
  rcases unpackHead_cases hhead with hneg | ⟨rfl, rest, rfl⟩
  · rw [if_pos hneg, if_pos hneg]
  · rw [unpackTo_drop_append behind hsmall (by simp)]

theorem unpackRows_append {len rsp : UInt8} {rest : List UInt8}
    (hbytes : bytes = len :: rsp :: rest) (result : List UInt8) (hresult : 1 ≤ result.length) :
    unpackRows (bytes ++ behind) bytes.length 2 result =
      unpackRows bytes bytes.length 2 result := by
  rw [unpackRows, unpackRows, unpackTo_drop_append behind hsmall (by simp [hbytes])]
  subst hbytes
  refine Option.bind_congr fun first hfirst => ?_
  obtain ⟨n, result'⟩ := first
  have hcount : unpackTo ((len :: rsp :: rest).drop (2 : ℤ).toNat)
      ((len :: rsp :: rest).length - (2 : ℤ).toNat) "%hhu".toList [] result =
        if rest.length < 1 then some (-e2big, result)
        else some (1, rest.take 1 ++ result.drop 1) := @unpackTo_scalar rest result .hhu hresult
  rw [hcount] at hfirst
  dsimp only
  by_cases hnone : rest.length < 1
  · rw [if_pos hnone] at hfirst
    cases hfirst
    rw [if_pos (by decide), if_pos (by decide)]
  · rw [if_neg hnone] at hfirst
    cases hfirst
    rw [if_neg (by decide), if_neg (by decide), unpackTo_drop_append behind hsmall]
    simp only [List.length_cons]
    have hthree : (2 + 1 : ℤ).toNat = 3 := rfl
    omega

theorem unpackMatrix_append (result : List UInt8) (hresult : 1 ≤ result.length) :
    unpackMatrix (bytes ++ behind) bytes.length result =
      unpackMatrix bytes bytes.length result := by
  rw [unpackMatrix, unpackMatrix, unpackHead_append behind hsmall]
  refine Option.bind_congr fun head hhead => ?_
  obtain ⟨rsplen, len, rsp⟩ := head
  dsimp only
  rcases unpackHead_cases hhead with hneg | ⟨rfl, rest, hbytes⟩
  · rw [if_pos hneg, if_pos hneg]
  · rw [unpackTo_drop_append behind hsmall (by simp [hbytes]),
      unpackRows_append behind hsmall hbytes result hresult]

end Local

/-! ## The value of the unpack functions -/

section Values

variable {rest result : List UInt8} (len rsp : UInt8) (hresult : 4 ≤ result.length)
  (hsmall : rest.length + 2 < 2 ^ 63)

/-- A response code is returned if the length byte is right. -/
theorem compare_length {n : ℤ} {len : UInt8} {k : ℕ} (hn : n = k) (x : ℤ) (mem : List UInt8) :
    (if n ≠ len.toNat then some (-1, mem) else some (x, mem)) =
      some (if len.toNat = k then x else -1, mem) := by
  subst hn
  by_cases hlen : len.toNat = k
  · rw [if_neg (by rw [hlen]; exact not_not.mpr rfl), if_pos hlen]
  · rw [if_pos (fun h => hlen (Int.ofNat_inj.mp h).symm), if_neg hlen]

include hresult hsmall

/-- What `unpack_result` makes of a reply for a number -/
theorem unpackInt_eq :
    unpackInt (len :: rsp :: rest) (rest.length + 2) result =
      if rest.length < 4 then some (-1, result)
      else some (if len.toNat = 6 then (rsp.toNat : ℤ) else -1,
        rest.take 4 ++ result.drop 4) := by
  rw [unpackInt, unpackHead_eq len rsp rest (by omega) hsmall]
  simp only [Option.bind_eq_bind, Option.bind_some]
  rw [if_neg (by decide), unpackTo_behind_head hresult]
  by_cases hshort : rest.length < 4
  · rw [if_pos hshort, if_pos hshort, Option.bind_some]
    have hneg : (2 : ℤ) + -e2big ≠ len.toNat := by
      simp only [e2big]
      omega
    exact if_pos hneg
  · rw [if_neg hshort, if_neg hshort, Option.bind_some]
    exact compare_length (by rfl) _ _

/-- `unpack_matrix` reads an error message as the other decoders do. -/
theorem unpackMatrix_err (hrsp : rsp ≠ 0) :
    unpackMatrix (len :: rsp :: rest) (rest.length + 2) result =
      if rest.length < 4 then some (2 + -e2big, result)
      else some (if len.toNat = 6 then (rsp.toNat : ℤ) else -1,
        rest.take 4 ++ result.drop 4) := by
  rw [unpackMatrix, unpackHead_eq len rsp rest (by omega) hsmall]
  simp only [Option.bind_eq_bind, Option.bind_some]
  rw [if_neg (by decide), if_pos hrsp, unpackTo_behind_head hresult]
  by_cases hshort : rest.length < 4
  · rw [if_pos hshort, if_pos hshort, Option.bind_some]
    exact if_pos (by simp only; decide)
  · rw [if_neg hshort, if_neg hshort, Option.bind_some]
    dsimp only
    rw [if_neg (by decide)]
    exact compare_length (by rfl) _ _

end Values

/-- A matrix without the number of its rows -/
theorem unpackMatrix_nil {result : List UInt8} (len : UInt8) (hresult : 4 ≤ result.length) :
    unpackMatrix [len, ipcRspOk] 2 result = some (2 + -e2big, result) := by
  have hcount : unpackTo ([len, ipcRspOk].drop (2 : ℤ).toNat) (2 - (2 : ℤ).toNat) "%hhu".toList []
      result = some (-e2big, result) :=
    (@unpackTo_scalar [] result .hhu (le_trans (by decide) hresult)).trans (if_pos (by decide))
  have hrows : unpackRows [len, ipcRspOk] 2 2 result = some (2 + -e2big, result) := by
    rw [unpackRows, hcount]
    rfl
  rw [unpackMatrix, unpackHead_eq len ipcRspOk [] (by decide) (by decide)]
  simp only [Option.bind_eq_bind, Option.bind_some]
  rw [if_neg (by decide), if_neg (by decide), hrows]
  rfl

/-! ## What is printed -/

section Printed

variable {env : FormatEnv} {strerror : BitVec 32 → List Char} {request : UInt8}
  {decoder : Decoder} {bytes : List UInt8}

/-- What the unpack function and `format` make of a reply -/
def showReply (env : FormatEnv) (strerror : BitVec 32 → List Char) (request : UInt8)
    (decoder : Decoder) (bytes result : List UInt8) : Option Printed := do
  let (rsp, result) ← decoder.unpack bytes bytes.length result
  format env strerror result request (UInt8.ofInt rsp)

/-- `format` returns 0 or -1. -/
theorem format_status {result : List UInt8} {rsp : UInt8} {printed : Printed}
    (h : format env strerror result request rsp = some printed) :
    printed.status = 0 ∨ printed.status = -1 := by
  rw [format] at h
  split_ifs at h
  · cases h
    exact .inr rfl
  · cases h
    exact .inr rfl
  · cases h
    exact .inl rfl
  · cases h
    exact .inl rfl
  · obtain ⟨nrows, -, h⟩ := Option.bind_eq_some_iff.mp h
    obtain ⟨text, -, h⟩ := Option.bind_eq_some_iff.mp h
    cases h
    exact .inl rfl
  · cases h
    exact .inr rfl

/-- The decoders are those of the three requests that are answered with a value. -/
theorem getDecoder_eq_some (h : getDecoder request = some decoder) :
    request = ipcReqSpeed ∧ decoder = .speed ∨ request = ipcReqTemp ∧ decoder = .temp ∨
      request = ipcReqMatrix ∧ decoder = .matrix := by
  rw [getDecoder] at h
  split_ifs at h with hspeed htemp hmatrix
  · cases h
    exact .inl ⟨hspeed, rfl⟩
  · cases h
    exact .inr (.inl ⟨htemp, rfl⟩)
  · cases h
    exact .inr (.inr ⟨hmatrix, rfl⟩)

/-- Without a reply nothing is printed and -1 is returned. -/
theorem requestProcessGet_none {x : Exchange} (hreply : x.reply = none)
    (rspbuffer result : List UInt8) :
    requestProcessGet env strerror x rspbuffer result request = some ⟨-1, [], []⟩ := by
  rw [requestProcessGet, clientSendAndRecv_eq, hreply]
  exact if_pos (by decide)

/-- Of the stack, only the union is left. -/
theorem requestProcessGet_some {x : Exchange} (hreply : x.reply = some bytes)
    (hdecoder : getDecoder request = some decoder) (rspbuffer : List UInt8)
    (result : Vector UInt8 unpackResultSize) :
    requestProcessGet env strerror x rspbuffer result.toList request =
      showReply env strerror request decoder bytes result.toList := by
  have hlen := x.reply_le hreply
  simp only [ipcMaxMsgLength] at hlen
  have hresult : 1 ≤ result.toList.length :=
    le_trans (by decide) (four_le_length (by decide) result)
  have hunpack : decoder.unpack (bytes ++ rspbuffer.drop bytes.length) bytes.length result.toList =
      decoder.unpack bytes bytes.length result.toList := by
    rcases getDecoder_eq_some hdecoder with ⟨-, rfl⟩ | ⟨-, rfl⟩ | ⟨-, rfl⟩
    · exact unpackInt_append _ (by omega) _
    · exact unpackInt_append _ (by omega) _
    · exact unpackMatrix_append _ (by omega) _ hresult
  rw [requestProcessGet, clientSendAndRecv_eq, hreply, hdecoder]
  dsimp only
  rw [if_neg (by omega), toSizeT_natCast (by omega), hunpack, showReply]
  refine Option.bind_congr fun unpacked _ => ?_
  obtain ⟨rsp, result'⟩ := unpacked
  dsimp only
  rcases hformat : format env strerror result' request (UInt8.ofInt rsp) with _ | printed
  · rfl
  · rw [Option.bind_eq_bind, Option.bind_some]
    rcases format_status hformat with hstatus | hstatus
    · rw [if_neg (by simp [hstatus])]
    · rw [if_pos (by simp [hstatus]), ← hstatus]

/-- The `int` at the front of what follows a head -/
theorem resultInt_take {body : List UInt8} (hbody : 4 ≤ body.length) (behind : List UInt8) :
    Answer.resultInt (body.take 4 ++ behind) = Answer.resultInt body := by
  rw [Answer.resultInt, Answer.resultInt, List.take_left' (List.length_take_of_le hbody)]

/-- The same is printed whatever the union held. -/
def Shows (env : FormatEnv) (strerror : BitVec 32 → List Char) (request : UInt8)
    (decoder : Decoder) (bytes : List UInt8) : Prop :=
  ∃ printed, Shown env strerror request (some bytes) printed ∧
    ∀ result : Vector UInt8 unpackResultSize,
      showReply env strerror request decoder bytes result.toList = some printed

/-- A response code that is neither of the two -/
theorem shows_invalid {code : ℤ}
    (hunpack : ∀ result : Vector UInt8 unpackResultSize, ∃ result',
      decoder.unpack bytes bytes.length result.toList = some (code, result'))
    (hok : UInt8.ofInt code ≠ ipcRspOk) (herr : UInt8.ofInt code ≠ ipcRspErr)
    (hvalue : ¬ Taken request bytes) (herror : ¬ CarriesErrno bytes) :
    Shows env strerror request decoder bytes := by
  refine ⟨_, .invalid (UInt8.ofInt code) hvalue herror, fun result => ?_⟩
  obtain ⟨result', hresult'⟩ := hunpack result
  rw [showReply, hresult', Option.bind_eq_bind, Option.bind_some]
  dsimp only
  rw [format, if_neg herr, if_pos hok]

/-- A reply that carries an error number is shown as that error, -/
theorem shows_error (herror : CarriesErrno bytes)
    (hunpack : ∀ result : Vector UInt8 unpackResultSize, ∃ behind,
      decoder.unpack bytes bytes.length result.toList =
        some ((ipcRspErr.toNat : ℤ), (bytes.drop 2).take 4 ++ behind)) :
    Shows env strerror request decoder bytes := by
  refine ⟨_, .error herror, fun result => ?_⟩
  obtain ⟨behind, hresult'⟩ := hunpack result
  obtain ⟨body, rfl, hbody⟩ := herror
  rw [showReply, hresult', Option.bind_eq_bind, Option.bind_some]
  dsimp only
  rw [ofInt_toNat, format, if_pos rfl]
  have hnumber : Answer.resultInt (((6 :: ipcRspErr :: body).drop 2).take 4 ++ behind) =
      Answer.resultInt ((6 :: ipcRspErr :: body).drop 2) := resultInt_take hbody behind
  rw [hnumber]

/-- A reading is taken if it is there. -/
theorem taken_reading (hrequest : request = ipcReqSpeed ∨ request = ipcReqTemp) :
    Taken request bytes ↔ ∃ body, bytes = 6 :: ipcRspOk :: body ∧ 4 ≤ body.length := by
  have hmatrix : request ≠ ipcReqMatrix := by
    rcases hrequest with rfl | rfl <;> decide
  rw [Taken, or_iff_left fun h => hmatrix h.1]
  refine ⟨?_, fun h => ?_⟩
  · rintro ⟨decoder, hdecoder, hbegins⟩
    rcases getDecoder_eq_some hdecoder with ⟨-, rfl⟩ | ⟨-, rfl⟩ | ⟨h, -⟩
    · exact (Decoder.begins_int (.inl rfl)).mp hbegins
    · exact (Decoder.begins_int (.inr rfl)).mp hbegins
    · exact absurd h hmatrix
  · rcases hrequest with rfl | rfl
    · exact ⟨.speed, rfl, (Decoder.begins_int (.inl rfl)).mpr h⟩
    · exact ⟨.temp, rfl, (Decoder.begins_int (.inr rfl)).mpr h⟩

/-- A matrix is taken for one in two cases. -/
theorem taken_matrix : Taken ipcReqMatrix bytes ↔
    Decoder.matrix.Begins bytes ∨ ∃ rows, bytes = 2 :: ipcRspOk :: 0 :: rows := by
  rw [Taken]
  refine or_congr ⟨?_, fun h => ⟨.matrix, rfl, h⟩⟩ (and_iff_right rfl)
  rintro ⟨decoder, hdecoder, hbegins⟩
  rwa [Option.some.inj hdecoder]

/-- What is taken stands behind a head. -/
theorem Taken.exists_head (h : Taken request bytes) :
    ∃ len rest, bytes = len :: ipcRspOk :: rest := by
  rcases h with ⟨decoder, hdecoder, hbegins⟩ | ⟨-, rows, rfl⟩
  · rcases getDecoder_eq_some hdecoder with ⟨-, rfl⟩ | ⟨-, rfl⟩ | ⟨-, rfl⟩
    · obtain ⟨body, rfl, -⟩ := (Decoder.begins_int (.inl rfl)).mp hbegins
      exact ⟨6, body, rfl⟩
    · obtain ⟨body, rfl, -⟩ := (Decoder.begins_int (.inr rfl)).mp hbegins
      exact ⟨6, body, rfl⟩
    · obtain ⟨len, nrows, rows, rfl, -⟩ := Decoder.begins_matrix.mp hbegins
      exact ⟨len, nrows :: rows, rfl⟩
  · exact ⟨2, 0 :: rows, rfl⟩

theorem CarriesErrno.two_le (h : CarriesErrno bytes) : 2 ≤ bytes.length := by
  obtain ⟨body, rfl, -⟩ := h
  simp

/-- The status says whether the reply has been taken for a value. -/
theorem Shown.status_iff {reply : Option (List UInt8)} {printed : Printed}
    (h : Shown env strerror request reply printed) :
    printed.status = 0 ↔ ∃ bytes, reply = some bytes ∧ Taken request bytes := by
  cases h with
  | unreached =>
    refine iff_of_false (show ¬ ((-1 : ℤ) = 0) by decide) ?_
    rintro ⟨bytes, ⟨⟩, -⟩
  | value hvalue => exact iff_of_true rfl ⟨_, rfl, hvalue⟩
  | error herror =>
    refine iff_of_false (show ¬ ((-1 : ℤ) = 0) by decide) ?_
    rintro ⟨bytes, ⟨⟩, htaken⟩
    obtain ⟨body, rfl, -⟩ := herror
    obtain ⟨len, rest, heq⟩ := htaken.exists_head
    cases heq
  | invalid code hnot =>
    refine iff_of_false (show ¬ ((-1 : ℤ) = 0) by decide) ?_
    rintro ⟨bytes, ⟨⟩, htaken⟩
    exact hnot htaken

/-- Less than a head is invalid. -/
theorem shows_short (hdecoder : decoder ≠ .exit) (hshort : bytes.length < 2) :
    Shows env strerror request decoder bytes := by
  have hnot : ¬ Taken request bytes := by
    intro h
    obtain ⟨len, rest, rfl⟩ := h.exists_head
    simp at hshort
  refine @shows_invalid env strerror request decoder bytes (-e2big) (fun result => ?_) (by decide)
    (by decide) hnot (fun h => absurd h.two_le (by omega))
  refine ⟨result.toList, ?_⟩
  rcases bytes with _ | ⟨len, _ | ⟨rsp, rest⟩⟩
  · cases decoder with
    | speed | temp | matrix => rfl
    | exit => exact absurd rfl hdecoder
  · cases decoder with
    | speed | temp | matrix => rfl
    | exit => exact absurd rfl hdecoder
  · simp at hshort

section Head

variable {len rsp : UInt8} {rest : List UInt8} (hsmall : rest.length + 2 < 2 ^ 63)

/-- An error message is one byte of length, the response and four bytes. -/
theorem carriesErrno_cons :
    CarriesErrno (len :: rsp :: rest) ↔ len.toNat = 6 ∧ rsp = ipcRspErr ∧ 4 ≤ rest.length := by
  have hsix : len = 6 ↔ len.toNat = 6 := UInt8.toNat_inj.symm
  refine ⟨?_, ?_⟩
  · rintro ⟨body, heq, hbody⟩
    cases heq
    exact ⟨rfl, rfl, hbody⟩
  · rintro ⟨hlen, rfl, hrest⟩
    rw [hsix.mpr hlen]
    exact ⟨rest, rfl, hrest⟩

/-- Where only errors are carried: a response code that is not `ipc_rsp_ok`, with an `int` behind
it that is stored -/
theorem shows_err (hrsp : rsp ≠ ipcRspOk) {code : ℤ} (hcode : UInt8.ofInt code = 251 ∨ code = -1)
    (hvalue : ¬ Taken request (len :: rsp :: rest))
    (hunpack : ∀ result : Vector UInt8 unpackResultSize,
      decoder.unpack (len :: rsp :: rest) (rest.length + 2) result.toList =
        if rest.length < 4 then some (code, result.toList)
        else some (if len.toNat = 6 then (rsp.toNat : ℤ) else -1,
          rest.take 4 ++ result.toList.drop 4)) :
    Shows env strerror request decoder (len :: rsp :: rest) := by
  have hne : UInt8.ofInt code ≠ ipcRspOk ∧ UInt8.ofInt code ≠ ipcRspErr := by
    rcases hcode with h | rfl
    · rw [h]
      decide
    · decide
  -- the message is too short, or too long, or carries an error number
  by_cases hshort : rest.length < 4
  · refine shows_invalid (fun result => ⟨_, (hunpack result).trans (if_pos hshort)⟩) hne.1 hne.2
      hvalue fun h => ?_
    exact absurd (carriesErrno_cons.mp h).2.2 (not_le.mpr hshort)
  simp only [if_neg hshort] at hunpack
  by_cases hlen : len.toNat = 6
  case neg =>
    simp only [if_neg hlen] at hunpack
    exact shows_invalid (fun result => ⟨_, hunpack result⟩) (by decide) (by decide) hvalue
      fun h => hlen (carriesErrno_cons.mp h).1
  simp only [if_pos hlen] at hunpack
  by_cases herr : rsp = ipcRspErr
  · subst herr
    have herror : CarriesErrno (len :: ipcRspErr :: rest) :=
      carriesErrno_cons.mpr ⟨hlen, rfl, not_lt.mp hshort⟩
    exact shows_error herror fun result => ⟨_, hunpack result⟩
  · refine shows_invalid (fun result => ⟨_, hunpack result⟩) ?_ ?_ hvalue
      fun h => herr (carriesErrno_cons.mp h).2.1
    · rwa [ofInt_toNat]
    · rwa [ofInt_toNat]

include hsmall

/-- A speed or a temperature -/
theorem shows_int (hdecoder : getDecoder request = some decoder) (hint : decoder ≠ .matrix) :
    Shows env strerror request decoder (len :: rsp :: rest) := by
  -- what the two readings have in common
  have hrequest : (request = ipcReqSpeed ∨ request = ipcReqTemp) ∧
      decoder.unpack = unpackInt ∧ ∀ body behind, 4 ≤ body.length → ∃ text,
        valueText env request (6 :: ipcRspOk :: body) = some text ∧
        format env strerror (body.take 4 ++ behind) request ipcRspOk = some ⟨0, text, []⟩ := by
    rcases getDecoder_eq_some hdecoder with ⟨rfl, rfl⟩ | ⟨rfl, rfl⟩ | ⟨-, rfl⟩
    · refine ⟨.inl rfl, rfl, fun body behind hbody =>
        ⟨formatSpeed (Answer.resultInt body), rfl, ?_⟩⟩
      rw [← resultInt_take hbody behind]
      rfl
    · refine ⟨.inr rfl, rfl, fun body behind hbody =>
        ⟨formatTemp env (Answer.resultInt body), rfl, ?_⟩⟩
      rw [← resultInt_take hbody behind]
      rfl
    · exact absurd rfl hint
  obtain ⟨hreading, hunpack, htext⟩ := hrequest
  have hvalue : Taken request (len :: rsp :: rest) ↔
      len.toNat = 6 ∧ rsp = ipcRspOk ∧ 4 ≤ rest.length := by
    rw [taken_reading hreading]
    refine ⟨?_, ?_⟩
    · rintro ⟨body, heq, hbody⟩
      cases heq
      exact ⟨rfl, rfl, hbody⟩
    · rintro ⟨hlen, rfl, hrest⟩
      rw [UInt8.toNat_inj.mp (hlen.trans (by rfl : 6 = (6 : UInt8).toNat))]
      exact ⟨rest, rfl, hrest⟩
  have heq : ∀ result : Vector UInt8 unpackResultSize,
      decoder.unpack (len :: rsp :: rest) (rest.length + 2) result.toList =
        if rest.length < 4 then some (-1, result.toList)
        else some (if len.toNat = 6 then (rsp.toNat : ℤ) else -1,
          rest.take 4 ++ result.toList.drop 4) := by
    intro result
    rw [hunpack]
    exact unpackInt_eq len rsp (four_le_length (by decide) result) hsmall
  by_cases hok : Taken request (len :: rsp :: rest)
  case neg =>
    by_cases hrsp : rsp = ipcRspOk
    · -- a reading that is not whole: the code is -1
      subst hrsp
      have hcode : ∀ result : Vector UInt8 unpackResultSize, ∃ result',
          decoder.unpack (len :: ipcRspOk :: rest) (rest.length + 2) result.toList =
            some (-1, result') := by
        intro result
        rw [heq]
        by_cases hshort : rest.length < 4
        · exact ⟨_, if_pos hshort⟩
        · rw [if_neg hshort, if_neg fun hlen => hok (hvalue.mpr ⟨hlen, rfl, not_lt.mp hshort⟩)]
          exact ⟨_, rfl⟩
      refine shows_invalid hcode (by decide) (by decide) hok fun h => ?_
      exact absurd (carriesErrno_cons.mp h).2.1 (by decide)
    · exact shows_err hrsp (.inr rfl) hok heq
  obtain ⟨hlen, rfl, hrest⟩ := hvalue.mp hok
  obtain rfl : len = 6 := UInt8.toNat_inj.mp (hlen.trans (by rfl : 6 = (6 : UInt8).toNat))
  obtain ⟨text, htext₀, -⟩ := htext rest [] hrest
  refine ⟨_, .value hok htext₀, fun result => ?_⟩
  obtain ⟨text', htext', hformat⟩ := htext rest (result.toList.drop 4) hrest
  obtain rfl : text' = text := Option.some.inj (htext'.symm.trans htext₀)
  have hread := heq result
  rw [if_neg (not_lt.mpr hrest), if_pos (by rfl)] at hread
  have hread' : decoder.unpack (6 :: ipcRspOk :: rest) (6 :: ipcRspOk :: rest).length
      result.toList = some (0, rest.take 4 ++ result.toList.drop 4) := hread
  rw [showReply, hread', Option.bind_eq_bind, Option.bind_some]
  exact hformat

omit hsmall in
/-- The same by the length byte and the number of rows -/
theorem taken_rows {nrows : UInt8} {rows : List UInt8}
    (hover : ¬ Overlong (len :: ipcRspOk :: nrows :: rows)) :
    Taken ipcReqMatrix (len :: ipcRspOk :: nrows :: rows) ↔
      nrows = 0 ∧ len = 2 ∨
        nrows ≠ 0 ∧ 2 * nrows.toNat ≤ rows.length ∧ len.toNat = 2 * nrows.toNat + 3 := by
  have hzero : nrows = 0 ↔ nrows.toNat = 0 := UInt8.toNat_inj.symm
  rw [overlong_iff, not_and_or] at hover
  rw [taken_matrix, Decoder.begins_matrix_cons, or_comm]
  refine or_congr ⟨?_, ?_⟩ ⟨?_, ?_⟩
  · rintro ⟨rows', heq⟩
    cases heq
    exact ⟨rfl, rfl⟩
  · rintro ⟨rfl, rfl⟩
    exact ⟨rows, rfl⟩
  · rintro ⟨hpos, -, hrows, hlen⟩
    exact ⟨fun h => absurd (hzero.mp h) (by omega), hrows, hlen⟩
  · rintro ⟨hne, hrows, hlen⟩
    exact ⟨Nat.pos_of_ne_zero (mt hzero.mpr hne),
      not_lt.mp (hover.resolve_right (not_not.mpr hrows)), hrows, hlen⟩

omit hsmall in
/-- A matrix with its rows -/
theorem shows_rows {nrows : UInt8} {rows : List UInt8} (hrows : rows.length + 3 < 2 ^ 63)
    (hover : ¬ Overlong (len :: ipcRspOk :: nrows :: rows)) :
    Shows env strerror ipcReqMatrix .matrix (len :: ipcRspOk :: nrows :: rows) := by
  have hunpack := @unpackMatrix_vector unpackResultSize (by decide) len nrows rows hrows
  have hnotErr : ¬ CarriesErrno (len :: ipcRspOk :: nrows :: rows) := fun h =>
    absurd (carriesErrno_cons.mp h).2.1 (by decide)
  -- no rows, too few of them, and enough
  by_cases hzero : nrows = 0
  · subst hzero
    simp only [if_true] at hunpack
    by_cases hlen : len = 2
    · simp only [if_pos hlen] at hunpack
      have hvalue : Taken ipcReqMatrix (len :: ipcRspOk :: 0 :: rows) :=
        (taken_rows hover).mpr (.inl ⟨rfl, hlen⟩)
      refine ⟨_, .value hvalue rfl, fun result => ?_⟩
      rw [showReply]
      exact (congrArg (Option.bind · _) (hunpack result)).trans (format_ipcReqMatrix rfl)
    · simp only [if_neg hlen] at hunpack
      refine shows_invalid (fun result => ⟨_, hunpack result⟩) (by decide) (by decide) ?_ hnotErr
      rw [taken_rows hover]
      rintro (⟨-, h⟩ | ⟨h, -⟩)
      · exact hlen h
      · exact h rfl
  simp only [if_neg hzero] at hunpack
  by_cases hshort : rows.length < 2 * nrows.toNat
  · simp only [if_pos hshort] at hunpack
    -- the message is longer than its rows
    refine shows_invalid (fun result => ⟨_, hunpack result⟩) (by decide) (by decide) ?_ hnotErr
    rw [taken_rows hover]
    rintro (⟨h, -⟩ | ⟨-, h, -⟩)
    · exact hzero h
    · exact absurd h (not_le.mpr hshort)
  have hroom : ¬ unpackResultSize - 1 < 2 * nrows.toNat := by
    rw [overlong_iff, not_and_or] at hover
    have hle := hover.resolve_right (not_not.mpr (not_lt.mp hshort))
    simp only [unpackResultSize, maxTempThresholds] at hle ⊢
    omega
  simp only [if_neg hshort, if_neg hroom] at hunpack
  by_cases hlen : len.toNat = 2 * nrows.toNat + 3
  · simp only [if_pos hlen] at hunpack
    have hvalue : Taken ipcReqMatrix (len :: ipcRspOk :: nrows :: rows) :=
      (taken_rows hover).mpr (.inr ⟨hzero, not_lt.mp hshort, hlen⟩)
    obtain ⟨text, htext, -⟩ := formatMatrix_take env (not_lt.mp hshort) []
    refine ⟨_, .value hvalue htext, fun result => ?_⟩
    obtain ⟨text', htext', hformat⟩ := formatMatrix_take env (not_lt.mp hshort)
      (result.toList.drop (2 * nrows.toNat + 1))
    obtain rfl : text' = text := Option.some.inj (htext'.symm.trans htext)
    rw [showReply]
    exact (congrArg (Option.bind · _) (hunpack result)).trans (format_ipcReqMatrix hformat)
  · simp only [if_neg hlen] at hunpack
    refine shows_invalid (fun result => ⟨_, hunpack result⟩) (by decide) (by decide) ?_ hnotErr
    rw [taken_rows hover]
    rintro (⟨h, -⟩ | ⟨-, -, h⟩)
    · exact hzero h
    · exact hlen h

/-- A reply that carries a matrix is shown row by row. -/
theorem shows_matrix (hover : ¬ Overlong (len :: rsp :: rest)) :
    Shows env strerror ipcReqMatrix .matrix (len :: rsp :: rest) := by
  by_cases hrsp : rsp = ipcRspOk
  case neg =>
    refine shows_err hrsp (.inl (by decide)) ?_ fun result =>
      unpackMatrix_err len rsp (four_le_length (by decide) result) hsmall hrsp
    intro htaken
    obtain ⟨len', rest', heq⟩ := htaken.exists_head
    cases heq
    exact hrsp rfl
  subst hrsp
  rcases rest with _ | ⟨nrows, rows⟩
  · -- not even the number of rows
    refine @shows_invalid env strerror ipcReqMatrix .matrix [len, ipcRspOk] (2 + -e2big)
      (fun result => ⟨_, unpackMatrix_nil len (four_le_length (by decide) result)⟩) (by decide)
      (by decide) ?_ fun h => absurd (carriesErrno_cons.mp h).2.1 (by decide)
    rw [taken_matrix, Decoder.begins_matrix]
    rintro (⟨len', nrows, rows, heq, -⟩ | ⟨rows, heq⟩) <;> cases heq
  · rw [List.length_cons] at hsmall
    exact shows_rows (by omega) hover

end Head

end Printed

/-- For a request of the control interface, every outcome of the transport and every content of the
stack, what `request_process_get` prints is what the bytes of the reply say. -/
theorem requestProcessGet_shown (env : FormatEnv) (strerror : BitVec 32 → List Char) (x : Exchange)
    {request : UInt8} (hrequest : (getDecoder request).isSome)
    (hover : request = ipcReqMatrix → ∀ bytes, x.reply = some bytes → ¬ Overlong bytes) :
    ∃ printed, Shown env strerror request x.reply printed ∧
      ∀ (rspbuffer : Vector UInt8 ipcMaxMsgLength) (result : Vector UInt8 unpackResultSize),
        requestProcessGet env strerror x rspbuffer.toList result.toList request = some printed := by
  obtain ⟨decoder, hdecoder⟩ := Option.isSome_iff_exists.mp hrequest
  have hexit : decoder ≠ .exit := by
    rcases getDecoder_eq_some hdecoder with ⟨-, rfl⟩ | ⟨-, rfl⟩ | ⟨-, rfl⟩
    · decide
    · decide
    · decide
  rcases hreply : x.reply with _ | bytes
  · exact ⟨_, .unreached, fun rspbuffer result => requestProcessGet_none hreply _ _⟩
  have hshows : Shows env strerror request decoder bytes := by
    have hle := x.reply_le hreply
    simp only [ipcMaxMsgLength] at hle
    rcases bytes with _ | ⟨len, _ | ⟨rsp, rest⟩⟩
    · exact shows_short hexit (by decide)
    · exact shows_short hexit (by simp)
    · rw [List.length_cons, List.length_cons] at hle
      by_cases hmatrix : decoder = .matrix
      · subst hmatrix
        obtain ⟨-, h⟩ | ⟨-, h⟩ | ⟨rfl, -⟩ := getDecoder_eq_some hdecoder
        · cases h
        · cases h
        · exact shows_matrix (by omega) (hover rfl _ hreply)
      · exact shows_int (by omega) hdecoder hmatrix
  obtain ⟨printed, hshown, hprinted⟩ := hshows
  exact ⟨printed, hshown, fun rspbuffer result =>
    (requestProcessGet_some hreply hdecoder _ result).trans (hprinted result)⟩

/-- A target of the table is converted to its request, and that has a decoder. -/
theorem requestConvert_eq {target : List Char} {request : UInt8}
    (h : (target, request) ∈ ipcRequestMap) :
    requestConvert target = (0, request) ∧ (getDecoder request).isSome := by
  simp only [ipcRequestMap, List.mem_cons, List.not_mem_nil, or_false, Prod.mk.injEq] at h
  rcases h with ⟨rfl, rfl⟩ | ⟨rfl, rfl⟩ | ⟨rfl, rfl⟩ | ⟨rfl, rfl⟩
  · exact ⟨rfl, rfl⟩
  · exact ⟨rfl, rfl⟩
  · exact ⟨rfl, rfl⟩
  · exact ⟨rfl, rfl⟩

theorem requestConvert_unknown {target : List Char}
    (h : ∀ request, (target, request) ∉ ipcRequestMap) :
    requestConvert target = (-1, ipcReqInval) := by
  have hfind : (ipcRequestMap.find? fun pair => pair.1 = target) = none := by
    rw [List.find?_eq_none]
    rintro ⟨name, request⟩ hmem heq
    exact h request (of_decide_eq_true heq ▸ hmem)
  rw [requestConvert, hfind]
  rfl

/-- **What is shown.** For the argument of `--get`, every outcome of the transport and every content
of the stack: a name that is not known is refused, and otherwise what is printed is what the bytes
of the reply say, with the exit status 0 exactly if they carry the value or are the matrix without
rows that is taken for one. Matrices with more rows than the union has room for are not asked
about. -/
theorem fanctlGet_shown (env : FormatEnv) (strerror : BitVec 32 → List Char) (x : Exchange)
    (target : List Char) (hover : ∀ bytes, x.reply = some bytes → ¬ Overlong bytes) :
    (∀ request, (target, request) ∈ ipcRequestMap →
      ∃ printed, Shown env strerror request x.reply printed ∧
        (printed.status = 0 ↔ ∃ bytes, x.reply = some bytes ∧ Taken request bytes) ∧
        ∀ (rspbuffer : Vector UInt8 ipcMaxMsgLength) (result : Vector UInt8 unpackResultSize),
          fanctlGet env strerror x rspbuffer.toList result.toList target =
            some { printed with status := if printed.status = 0 then 0 else 1 }) ∧
      ((∀ request, (target, request) ∉ ipcRequestMap) →
        ∀ rspbuffer result, fanctlGet env strerror x rspbuffer result target =
          some ⟨1, [], "Invalid request: ".toList ++ target ++ ['\n']⟩) := by
  refine ⟨fun request hmem => ?_, fun hunknown rspbuffer result => ?_⟩
  · obtain ⟨hconvert, hrequest⟩ := requestConvert_eq hmem
    obtain ⟨printed, hshown, hprinted⟩ :=
      requestProcessGet_shown env strerror x hrequest fun _ => hover
    refine ⟨printed, hshown, hshown.status_iff, fun rspbuffer result => ?_⟩
    rw [fanctlGet, hconvert]
    dsimp only
    rw [if_neg (by decide), hprinted, Option.bind_eq_bind, Option.bind_some]
    by_cases hstatus : printed.status = 0
    · rw [if_neg (not_not.mpr hstatus), if_pos hstatus, ← hstatus]
    · rw [if_pos hstatus, if_neg hstatus]
  · rw [fanctlGet, requestConvert_unknown hunknown]
    exact if_pos (by decide)

/-- A reading of 55 degrees, with a byte too many -/
def exchangeFiftyFive : Exchange where
  connected := true
  sent := true
  received := some [6, 0, 55, 0, 0, 0, 9]
  received_le := by
    rintro bytes h
    cases h
    decide

/-- It is shown for `temperature`. -/
theorem fanctlGet_shown_fifty_five :
    Shown ⟨true, none⟩ (fun _ => []) ipcReqTemp exchangeFiftyFive.reply
        ⟨0, "55'C\n".toList, []⟩ ∧
      ∃ printed, Shown ⟨true, none⟩ (fun _ => []) ipcReqTemp exchangeFiftyFive.reply printed ∧
        (printed.status = 0 ↔
          ∃ bytes, exchangeFiftyFive.reply = some bytes ∧ Taken ipcReqTemp bytes) ∧
        ∀ (rspbuffer : Vector UInt8 ipcMaxMsgLength) (result : Vector UInt8 unpackResultSize),
          fanctlGet ⟨true, none⟩ (fun _ => []) exchangeFiftyFive rspbuffer.toList result.toList
            "temperature".toList =
            some { printed with status := if printed.status = 0 then 0 else 1 } := by
  refine ⟨.value ?_ (by decide), (fanctlGet_shown ⟨true, none⟩ (fun _ => []) exchangeFiftyFive
    "temperature".toList ?_).1 ipcReqTemp (by decide)⟩
  · exact (taken_reading (.inr rfl)).mpr ⟨[55, 0, 0, 0, 9], rfl, by decide⟩
  · rintro bytes h ⟨len, nrows, rows, rfl, -, hrows⟩
    cases h
    exact absurd hrows (by decide)

/-! ## The answer of the server -/

/-- What is printed of an answer -/
def Answer.printed (env : FormatEnv) (strerror : BitVec 32 → List Char) (request : UInt8) :
    Answer → Option Printed
  | reading value =>
    some ⟨0, if request = ipcReqSpeed then formatSpeed value else formatTemp env value, []⟩
  | matrix nrows rows => (formatMatrix env nrows rows).map fun text => ⟨0, text, []⟩
  | error number => some ⟨-1, [], strerror number ++ ['\n']⟩
  | done => none

section Answered

variable {env : FormatEnv} {strerror : BitVec 32 → List Char} {request : UInt8}

/-- What the client prints of a reading is what the daemon has sent. -/
theorem shown_reading {value : BitVec 32} {printed : Printed}
    (hrequest : request = ipcReqSpeed ∨ request = ipcReqTemp)
    (h : Shown env strerror request (some (intMessage ipcRspOk value)) printed) :
    Answer.printed env strerror request (.reading value) = some printed := by
  have hvalue : Taken request (intMessage ipcRspOk value) :=
    (taken_reading hrequest).mpr ⟨_, rfl, (Memory.leBytes_length 4 _).ge⟩
  have hint : Answer.resultInt ((intMessage ipcRspOk value).drop 2) = value := by
    have hread := resultInt_leBytes value []
    rwa [List.append_nil] at hread
  cases h with
  | value _ htext =>
    rw [valueText, hint] at htext
    rcases hrequest with rfl | rfl
    · rw [if_pos rfl] at htext
      obtain rfl := Option.some.inj htext
      rfl
    · rw [if_neg (by decide), if_pos rfl] at htext
      obtain rfl := Option.some.inj htext
      rfl
  | error herror => exact absurd (carriesErrno_cons.mp herror).2.1 (by decide)
  | invalid code hnot => exact absurd hvalue hnot

theorem shown_errno {number : BitVec 32} {printed : Printed}
    (h : Shown env strerror request (some (intMessage ipcRspErr number)) printed) :
    Answer.printed env strerror request (.error number) = some printed := by
  have herrno : CarriesErrno (intMessage ipcRspErr number) :=
    ⟨_, rfl, (Memory.leBytes_length 4 _).ge⟩
  have hint : Answer.resultInt ((intMessage ipcRspErr number).drop 2) = number := by
    have hread := resultInt_leBytes number []
    rwa [List.append_nil] at hread
  cases h with
  | value hvalue =>
    obtain ⟨len, rest, heq⟩ := hvalue.exists_head
    cases heq
  | error => rw [hint, Answer.printed]
  | invalid code _ hnot => exact absurd herrno hnot

theorem shown_matrix {nrows : UInt8} {rows : List UInt8} (hlen : rows.length = 2 * nrows.toNat)
    (hpos : nrows ≠ 0) (hle : nrows.toNat ≤ maxTempThresholds) {printed : Printed}
    (h : Shown env strerror ipcReqMatrix (some (matrixMessage nrows rows)) printed) :
    Answer.printed env strerror ipcReqMatrix (.matrix nrows rows) = some printed := by
  simp only [maxTempThresholds] at hle
  have hlenbyte : (UInt8.ofNat (rows.length + 3)).toNat = rows.length + 3 := by
    rw [UInt8.toNat_ofNat', Nat.mod_eq_of_lt (by omega)]
  have hnotOver : ¬ Overlong (matrixMessage nrows rows) := by
    rw [matrixMessage, overlong_iff]
    rintro ⟨hover, -⟩
    simp only [maxTempThresholds] at hover
    omega
  have hvalue : Taken ipcReqMatrix (matrixMessage nrows rows) :=
    (taken_rows hnotOver).mpr (.inr ⟨hpos, hlen.ge, hlenbyte.trans (by rw [hlen])⟩)
  have hentries : messageEntries (matrixMessage nrows rows) = rows :=
    List.take_of_length_le hlen.le
  have hcount : messageRows (matrixMessage nrows rows) = nrows := rfl
  cases h with
  | value _ htext =>
    rw [valueText, if_neg (by decide), if_neg (by decide), hentries, hcount] at htext
    rw [Answer.printed, htext]
    rfl
  | error herror => exact absurd (carriesErrno_cons.mp herror).2.1 (by decide)
  | invalid code hnot => exact absurd hvalue hnot

/-- What the server answers is what the client prints, whoever asks and whatever is on the stack. -/
theorem requestProcessGet_answer {x : Exchange} (hrequest : (getDecoder request).isSome)
    {uid : UInt32} {config : FandConfig} (hpos : 1 ≤ config.rows)
    (hrows : config.rows ≤ maxTempThresholds) {speed temp : BitVec 32}
    (hreply : x.reply = some (Answer.of request uid config speed temp).message)
    (rspbuffer : Vector UInt8 ipcMaxMsgLength) (result : Vector UInt8 unpackResultSize) :
    requestProcessGet env strerror x rspbuffer.toList result.toList request =
      (Answer.of request uid config speed temp).printed env strerror request := by
  obtain ⟨decoder, hdecoder⟩ := Option.isSome_iff_exists.mp hrequest
  -- the daemon has no more rows than fit the result
  have hover : request = ipcReqMatrix → ∀ bytes, x.reply = some bytes → ¬ Overlong bytes := by
    rintro rfl bytes hbytes ⟨len, nrows, rows, rfl, hover, -⟩
    have hbytes' := (List.cons.inj (Option.some.inj (hreply.symm.trans hbytes))).2
    have hcount : config.matrixRows = nrows := (List.cons.inj (List.cons.inj hbytes').2).1
    rw [← hcount] at hover
    exact absurd hrows (not_le.mpr hover)
  obtain ⟨printed, hshown, hprinted⟩ := requestProcessGet_shown env strerror x hrequest hover
  rw [hreply] at hshown
  rw [hprinted]
  refine Eq.symm ?_
  rcases getDecoder_eq_some hdecoder with ⟨rfl, -⟩ | ⟨rfl, -⟩ | ⟨rfl, -⟩
  · rw [Answer.of, if_neg (by decide), if_pos rfl, Answer.ofReading] at hshown ⊢
    split_ifs at hshown ⊢
    · exact shown_errno hshown
    · exact shown_reading (.inl rfl) hshown
  · rw [Answer.of, if_neg (by decide), if_neg (by decide), if_pos rfl, Answer.ofReading] at hshown ⊢
    split_ifs at hshown ⊢
    · exact shown_errno hshown
    · exact shown_reading (.inr rfl) hshown
  · rw [Answer.of, if_neg (by decide), if_neg (by decide), if_neg (by decide), if_pos rfl]
      at hshown ⊢
    refine shown_matrix ?_ ?_ hrows hshown
    · rw [List.length_take_of_le]
      · rfl
      · simp only [maxTempThresholds, Vector.length_toList, matrixMaxSize] at hrows ⊢
        omega
    · intro hzero
      rw [FandConfig.rows, hzero] at hpos
      exact absurd hpos (by decide)

end Answered

end AmdgpuFand

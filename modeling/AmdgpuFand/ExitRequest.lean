import AmdgpuFand.Decoders

/-!
# The exit request of the client

`request_process_exit` sends the request and hands what comes back to `unpack_exit_rsp`, without a
look at the status of the transport: a failure is the length -1, and as a `size_t` that is more
than any message has. The decoder then reads the buffer on the stack as it was. Where the decoder
gives up before it has stored an error, the client still prints the text of one.
-/

namespace AmdgpuFand

open CLib

/-! ## The transport -/

/-- What comes of the connection to the server -/
structure Exchange where
  /-- `client_init` succeeds -/
  connected : Bool
  /-- `send` succeeds -/
  sent : Bool
  /-- the bytes that `recv` stores, an empty list at an orderly close, and `none` for an error -/
  received : Option (List UInt8)
  received_le : ∀ bytes, received = some bytes → bytes.length ≤ ipcMaxMsgLength

/-- The reply of the server, if one has been received -/
def Exchange.reply (x : Exchange) : Option (List UInt8) :=
  if x.connected && x.sent then x.received else none

/-- `client_send_and_recv`: the return value and the buffer -/
def clientSendAndRecv (x : Exchange) (buffer : List UInt8) : ℤ × List UInt8 :=
  if ¬ x.connected then (-1, buffer)
  else if ¬ x.sent then (-1, buffer)
  else
    match x.received with
    | none => (-1, buffer)
    | some bytes => (bytes.length, bytes ++ buffer.drop bytes.length)

/-- A signed length as a `size_t` -/
def toSizeT (n : ℤ) : ℕ := (n % 2 ^ 64).toNat

/-- `request_process_exit`, with what its variables hold at the start: the return value, and the
bytes of the error number whose text is printed -/
def requestProcessExit (x : Exchange) (rspbuffer result : List UInt8) :
    Option (ℤ × Option (List UInt8)) := do
  let (rsplen, rspbuffer) := clientSendAndRecv x rspbuffer
  let (rsp, result) ← unpackExitRsp rspbuffer (toSizeT rsplen) result
  if UInt8.ofInt rsp ≠ 0 then some (-1, some (result.take 4)) else some (0, none)

theorem clientSendAndRecv_eq (x : Exchange) (buffer : List UInt8) :
    clientSendAndRecv x buffer =
      match x.reply with
      | none => (-1, buffer)
      | some bytes => ((bytes.length : ℤ), bytes ++ buffer.drop bytes.length) := by
  obtain ⟨connected, sent, received, hle⟩ := x
  cases connected <;> cases sent <;> rfl

/-! ## The decoder on any length -/

section Decoder

variable {bufsize : ℕ} {len rsp : UInt8} {rest result : List UInt8}

/-- The head of a message is read if the length allows it, however large it is. -/
theorem unpackHead_cells (bufsize : ℕ) (len rsp : UInt8) (rest : List UInt8) :
    ∃ len' rsp', unpackHead (len :: rsp :: rest) bufsize =
      if bufsize < 2 then some (-e2big, len', rsp') else some (2, len, rsp) := by
  rcases bufsize with _ | _ | n
  · exact ⟨0, 0, rfl⟩
  · exact ⟨len, 0, rfl⟩
  · exact ⟨0, 0, (if_neg (by omega)).symm⟩

/-- So is the error behind it. -/
theorem unpackTo_error (bufsize : ℕ) (hrest : 4 ≤ rest.length) (hresult : 4 ≤ result.length) :
    unpackTo rest bufsize "%d".toList [] result =
      if bufsize < 4 then some (-e2big, result) else some (4, rest.take 4 ++ result.drop 4) := by
  rcases bufsize with _ | _ | _ | _ | n
  · rfl
  · rfl
  · rfl
  · rfl
  · obtain ⟨b₀, b₁, b₂, b₃, rest, rfl⟩ : ∃ b₀ b₁ b₂ b₃ rest',
        rest = b₀ :: b₁ :: b₂ :: b₃ :: rest' := by
      rcases rest with _ | ⟨b₀, _ | ⟨b₁, _ | ⟨b₂, _ | ⟨b₃, rest⟩⟩⟩⟩
      all_goals simp at hrest ⊢
    obtain ⟨r₀, r₁, r₂, r₃, result, rfl⟩ : ∃ r₀ r₁ r₂ r₃ result',
        result = r₀ :: r₁ :: r₂ :: r₃ :: result' := by
      rcases result with _ | ⟨r₀, _ | ⟨r₁, _ | ⟨r₂, _ | ⟨r₃, result⟩⟩⟩⟩
      all_goals simp at hresult ⊢
    rw [if_neg (by omega)]
    rfl

/-- `unpack_exit_rsp` on the cells of a buffer, whatever length it is told -/
theorem unpackExitRsp_cells (bufsize : ℕ) (hrest : 4 ≤ rest.length) (hresult : 4 ≤ result.length) :
    unpackExitRsp (len :: rsp :: rest) bufsize result =
      if bufsize < 2 then some (-e2big, result)
      else if rsp = 0 then some (if len = 2 then 0 else -1, result)
      else if bufsize < 6 then some (-1, result)
      else some (if len = 6 then rsp.toNat else -1, rest.take 4 ++ result.drop 4) := by
  have hlen : ∀ {z : ℤ} {b : UInt8}, (b.toNat : ℤ) = z → (z ≠ len.toNat ↔ len ≠ b) := by
    intro z b hb
    rw [← hb, ne_eq, Int.ofNat_inj, UInt8.toNat_inj, eq_comm]
  obtain ⟨len', rsp', hhead⟩ := unpackHead_cells bufsize len rsp rest
  rw [unpackExitRsp, hhead]
  by_cases hshort : bufsize < 2
  · rw [if_pos hshort, if_pos hshort]
    rfl
  · rw [if_neg hshort, if_neg hshort]
    simp only [Option.bind_eq_bind, Option.bind_some]
    rw [if_neg (by decide)]
    by_cases hrsp : rsp = 0
    · rw [if_neg (not_not.mpr hrsp), if_pos hrsp, hrsp]
      have htwo := hlen (z := 2) (b := 2) rfl
      by_cases h : len = 2
      · rw [if_neg (by rw [htwo]; exact not_not.mpr h), if_pos h]
        rfl
      · rw [if_pos (htwo.mpr h), if_neg h]
    · have hdrop : (len :: rsp :: rest).drop (2 : ℤ).toNat = rest := rfl
      have hsub : bufsize - (2 : ℤ).toNat < 4 ↔ bufsize < 6 := by
        have htwo : (2 : ℤ).toNat = 2 := rfl
        omega
      rw [if_pos hrsp, if_neg hrsp, hdrop, unpackTo_error _ hrest hresult]
      by_cases hsix : bufsize < 6
      · rw [if_pos (hsub.mpr hsix), if_pos hsix, Option.bind_some]
        refine if_pos ?_
        have hnonneg := Int.natCast_nonneg len.toNat
        simp only [e2big]
        omega
      · rw [if_neg (mt hsub.mp hsix), if_neg hsix, Option.bind_some]
        have hsix' := hlen (z := 2 + 4) (b := 6) rfl
        by_cases h : len = 6
        · rw [if_neg (by rw [hsix']; exact not_not.mpr h), if_pos h]
        · rw [if_pos (hsix'.mpr h), if_neg h]

end Decoder

/-! ## The request -/

section Request

variable {x : Exchange}

/-- What the request comes to, for a length and the cells of the buffer -/
def exitOutcome (length : ℕ) (len rsp : UInt8) (rest result : List UInt8) :
    ℤ × Option (List UInt8) :=
  if length < 2 then (-1, some (result.take 4))
  else if rsp = 0 then if len = 2 then (0, none) else (-1, some (result.take 4))
  else if length < 6 then (-1, some (result.take 4))
  else (-1, some (rest.take 4))

theorem requestProcessExit_cells {buffer result rest : List UInt8} {rsplen : ℤ} {len rsp : UInt8}
    (hrecv : clientSendAndRecv x buffer = (rsplen, len :: rsp :: rest)) (hrest : 4 ≤ rest.length)
    (hresult : 4 ≤ result.length) :
    requestProcessExit x buffer result =
      some (exitOutcome (toSizeT rsplen) len rsp rest result) := by
  have hminus : UInt8.ofInt (-1) ≠ 0 := by decide
  have he2big : UInt8.ofInt (-e2big) ≠ 0 := by decide
  have hzero : ¬ UInt8.ofInt 0 ≠ 0 := by decide
  rw [requestProcessExit, hrecv]
  simp only [Option.bind_eq_bind, unpackExitRsp_cells (toSizeT rsplen) hrest hresult, exitOutcome]
  by_cases hshort : toSizeT rsplen < 2
  · simp only [if_pos hshort, Option.bind_some, if_pos he2big]
  · simp only [if_neg hshort]
    by_cases hrsp : rsp = 0
    · simp only [if_pos hrsp, Option.bind_some]
      by_cases hlen : len = 2
      · simp only [if_pos hlen, if_neg hzero]
      · simp only [if_neg hlen, if_pos hminus]
    · simp only [if_neg hrsp]
      by_cases hsix : toSizeT rsplen < 6
      · simp only [if_pos hsix, Option.bind_some, if_pos hminus]
      · have hvalue : UInt8.ofInt (if len = 6 then rsp.toNat else -1) ≠ 0 := by
          split_ifs
          · rw [ofInt_toNat]
            exact hrsp
          · exact hminus
        have htake : (rest.take 4 ++ result.drop 4).take 4 = rest.take 4 :=
          List.take_left' (List.length_take_of_le hrest)
        simp only [if_neg hsix, Option.bind_some, if_pos hvalue, htake]

/-- The buffer on the stack, by its cells -/
theorem cells_of_length {cells : List UInt8} (h : cells.length = ipcMaxMsgLength) :
    ∃ len rsp rest, cells = len :: rsp :: rest ∧ 4 ≤ rest.length := by
  rcases cells with _ | ⟨len, _ | ⟨rsp, rest⟩⟩
  · cases h
  · cases h
  · refine ⟨len, rsp, rest, rfl, ?_⟩
    simp only [List.length_cons, ipcMaxMsgLength] at h
    omega

/-- Without a reply the decoder is let loose on the buffer as it was. -/
theorem requestProcessExit_none (h : x.reply = none) {len rsp : UInt8} {rest result : List UInt8}
    (hrest : 4 ≤ rest.length) (hresult : 4 ≤ result.length) :
    requestProcessExit x (len :: rsp :: rest) result =
      some (exitOutcome (2 ^ 64 - 1) len rsp rest result) := by
  have hrecv : clientSendAndRecv x (len :: rsp :: rest) = (-1, len :: rsp :: rest) := by
    rw [clientSendAndRecv_eq, h]
  exact requestProcessExit_cells hrecv hrest hresult

theorem Exchange.reply_le {bytes : List UInt8} (h : x.reply = some bytes) :
    bytes.length ≤ ipcMaxMsgLength := by
  rw [Exchange.reply] at h
  split_ifs at h
  exact x.received_le bytes h

theorem toSizeT_natCast {n : ℕ} (h : n < 2 ^ 64) : toSizeT n = n := by
  rw [toSizeT, Int.emod_eq_of_lt (Int.natCast_nonneg n) (by exact_mod_cast h), Int.toNat_natCast]

/-- With a reply, its bytes are at the front of the buffer. -/
theorem requestProcessExit_some {bytes : List UInt8} (h : x.reply = some bytes)
    (buffer : Vector UInt8 ipcMaxMsgLength) (result : Vector UInt8 unpackResultSize) :
    ∃ len rsp rest, bytes ++ buffer.toList.drop bytes.length = len :: rsp :: rest ∧
      4 ≤ rest.length ∧
      requestProcessExit x buffer.toList result.toList =
        some (exitOutcome bytes.length len rsp rest result.toList) := by
  have hle := x.reply_le h
  have hlength : (bytes ++ buffer.toList.drop bytes.length).length = ipcMaxMsgLength := by
    rw [List.length_append, List.length_drop, Vector.length_toList]
    omega
  obtain ⟨len, rsp, rest, hcells, hrest⟩ := cells_of_length hlength
  have hrecv : clientSendAndRecv x buffer.toList =
      ((bytes.length : ℤ), len :: rsp :: rest) := by
    rw [clientSendAndRecv_eq, h]
    exact Prod.ext rfl hcells
  have hsmall : bytes.length < 2 ^ 64 := lt_of_le_of_lt hle (by decide)
  refine ⟨len, rsp, rest, hcells, hrest, ?_⟩
  rw [requestProcessExit_cells hrecv hrest (four_le_length (by decide) result),
    toSizeT_natCast hsmall]

/-! ## What the client reports -/

variable (x) (isReply : List UInt8 → Prop)

/-- Success means that a reply has been received which is one, and neither what the union held nor
what the buffer held makes a difference: the error that is printed has been stored. -/
structure ClientExact : Prop where
  success : ∀ (buffer : Vector UInt8 ipcMaxMsgLength) (result : Vector UInt8 unpackResultSize)
    printed, requestProcessExit x buffer.toList result.toList = some (0, printed) →
      ∃ bytes, x.reply = some bytes ∧ isReply bytes
  error : ∀ (buffer : Vector UInt8 ipcMaxMsgLength)
      (result result' : Vector UInt8 unpackResultSize),
    requestProcessExit x buffer.toList result.toList =
      requestProcessExit x buffer.toList result'.toList
  buffer : ∀ (buffer buffer' : Vector UInt8 ipcMaxMsgLength)
    (result : Vector UInt8 unpackResultSize),
    requestProcessExit x buffer.toList result.toList =
      requestProcessExit x buffer'.toList result.toList

/-- A reply with an error number: six bytes or more, and the second is not `ipc_rsp_ok`. -/
def CarriesError (bytes : List UInt8) : Prop :=
  ∃ len rsp rest, bytes = len :: rsp :: rest ∧ rsp ≠ ipcRspOk ∧ 4 ≤ rest.length

variable {x isReply}

/-- Where the uninitialised error is printed, the client is not exact. -/
theorem not_clientExact_of_uninitialised
    (h : ∃ buffer : Vector UInt8 ipcMaxMsgLength, ∀ result : Vector UInt8 unpackResultSize,
      requestProcessExit x buffer.toList result.toList = some (-1, some (result.toList.take 4))) :
    ¬ ClientExact x isReply := by
  obtain ⟨buffer, hprinted⟩ := h
  intro hexact
  have heq := hexact.error buffer (Vector.replicate _ 0) (Vector.replicate _ 1)
  rw [hprinted, hprinted] at heq
  revert heq
  decide

/-- A reply with a head: the cells behind it are its own as far as they go. -/
theorem requestProcessExit_head {len rsp : UInt8} {body : List UInt8}
    (h : x.reply = some (len :: rsp :: body)) (buffer : Vector UInt8 ipcMaxMsgLength)
    (result : Vector UInt8 unpackResultSize) :
    requestProcessExit x buffer.toList result.toList =
      some (exitOutcome (body.length + 2) len rsp (body ++ buffer.toList.drop (body.length + 2))
        result.toList) := by
  obtain ⟨len', rsp', rest, hcells, -, hresult⟩ := requestProcessExit_some h buffer result
  cases hcells
  exact hresult

/-- An exact client has received something: otherwise the buffer may hold an answer that nobody has
sent. -/
theorem ClientExact.reply_ne_none (h : ClientExact x isReply) : x.reply ≠ none := by
  intro hreply
  have hstale := @requestProcessExit_none x hreply 2 0 (List.replicate 46 0)
    (Vector.replicate unpackResultSize 0).toList (by decide) (by decide)
  obtain ⟨bytes, hbytes, -⟩ := h.success
    ⟨(2 :: 0 :: List.replicate 46 0).toArray, by decide⟩ (Vector.replicate _ 0) none hstale
  rw [hreply] at hbytes
  cases hbytes

/-- A reply without a head leaves the error uninitialised. -/
theorem not_clientExact_of_short {bytes : List UInt8} (hreply : x.reply = some bytes)
    (hshort : bytes.length < 2) : ¬ ClientExact x isReply := by
  refine not_clientExact_of_uninitialised ⟨Vector.replicate _ 0, fun result => ?_⟩
  obtain ⟨len, rsp, rest, -, -, hresult⟩ := requestProcessExit_some hreply _ result
  rw [hresult, exitOutcome, if_pos hshort]

section Head

variable {len rsp : UInt8} {body : List UInt8} (hreply : x.reply = some (len :: rsp :: body))

include hreply

/-- An exact client has been sent an answer, or an error with its number. -/
theorem ClientExact.of_head (h : ClientExact x isReply) :
    Decoder.exit.Begins (len :: rsp :: body) ∧ isReply (len :: rsp :: body) ∨
      CarriesError (len :: rsp :: body) := by
  have hhead := requestProcessExit_head hreply
  have hlong : ¬ body.length + 2 < 2 := by omega
  by_cases hrsp : rsp = 0
  · by_cases hlen : len = 2
    · subst hrsp hlen
      refine Or.inl ⟨Decoder.begins_exit.mpr ⟨body, rfl⟩, ?_⟩
      have hresult := hhead (Vector.replicate _ 0) (Vector.replicate _ 0)
      rw [exitOutcome, if_neg hlong, if_pos rfl, if_pos rfl] at hresult
      obtain ⟨bytes, hbytes, hisReply⟩ := h.success _ _ _ hresult
      rw [hreply] at hbytes
      cases hbytes
      exact hisReply
    · refine absurd h (not_clientExact_of_uninitialised ⟨Vector.replicate _ 0, fun result => ?_⟩)
      rw [hhead, exitOutcome, if_neg hlong, if_pos hrsp, if_neg hlen]
  · by_cases hbody : 4 ≤ body.length
    · exact Or.inr ⟨len, rsp, body, rfl, hrsp, hbody⟩
    · refine absurd h (not_clientExact_of_uninitialised ⟨Vector.replicate _ 0, fun result => ?_⟩)
      rw [hhead, exitOutcome, if_neg hlong, if_neg hrsp, if_pos (by omega)]

theorem clientExact_of_begins (hbegins : Decoder.exit.Begins (len :: rsp :: body))
    (hisReply : isReply (len :: rsp :: body)) : ClientExact x isReply := by
  obtain ⟨body', heq⟩ := Decoder.begins_exit.mp hbegins
  cases heq
  have houtcome : ∀ (buffer : Vector UInt8 ipcMaxMsgLength)
      (result : Vector UInt8 unpackResultSize),
      requestProcessExit x buffer.toList result.toList = some (0, none) := by
    intro buffer result
    rw [requestProcessExit_head hreply, exitOutcome, if_neg (by omega), if_pos (by decide),
      if_pos rfl]
  exact ⟨fun _ _ _ _ => ⟨_, hreply, hisReply⟩,
    fun _ _ _ => by rw [houtcome, houtcome], fun _ _ _ => by rw [houtcome, houtcome]⟩

theorem clientExact_of_error (hrsp : rsp ≠ ipcRspOk) (hbody : 4 ≤ body.length) :
    ClientExact x isReply := by
  have hrsp' : ¬ rsp = 0 := hrsp
  have houtcome : ∀ (buffer : Vector UInt8 ipcMaxMsgLength)
      (result : Vector UInt8 unpackResultSize),
      requestProcessExit x buffer.toList result.toList = some (-1, some (body.take 4)) := by
    intro buffer result
    rw [requestProcessExit_head hreply, exitOutcome, if_neg (by omega), if_neg hrsp',
      if_neg (by omega), List.take_append_of_le_length hbody]
  refine ⟨fun buffer result printed h => ?_, fun _ _ _ => by rw [houtcome, houtcome],
    fun _ _ _ => by rw [houtcome, houtcome]⟩
  rw [houtcome] at h
  cases h

end Head

/-- The client is exact exactly if there is a reply that is one, or one with an error number. -/
theorem clientExact_iff :
    ClientExact x isReply ↔
      ∃ bytes, x.reply = some bytes ∧
        (Decoder.exit.Begins bytes ∧ isReply bytes ∨ CarriesError bytes) := by
  refine ⟨fun hexact => ?_, ?_⟩
  · obtain ⟨bytes, hreply⟩ := Option.ne_none_iff_exists'.mp hexact.reply_ne_none
    refine ⟨bytes, hreply, ?_⟩
    rcases bytes with _ | ⟨len, _ | ⟨rsp, body⟩⟩
    · exact absurd hexact (not_clientExact_of_short hreply Nat.zero_lt_two)
    · exact absurd hexact (not_clientExact_of_short hreply Nat.one_lt_two)
    · exact hexact.of_head hreply
  · rintro ⟨bytes, hreply, ⟨hbegins, hisReply⟩ | ⟨len, rsp, body, rfl, hrsp, hbody⟩⟩
    · obtain ⟨body, rfl⟩ := Decoder.begins_exit.mp hbegins
      exact clientExact_of_begins hreply hbegins hisReply
    · exact clientExact_of_error hreply hrsp hbody

end Request

/-- **Exit requests.** For every outcome of the transport, and all that the variables of the client
may hold, the client is exact if and only if a reply has been received that begins with an answer to
the request, or a reply with an error number; where the reply must be the answer and nothing else,
that is what has to have been received. -/
theorem exitRequest_exact (x : Exchange) :
    (ClientExact x Decoder.exit.Begins ↔
      ∃ bytes, x.reply = some bytes ∧ (Decoder.exit.Begins bytes ∨ CarriesError bytes)) ∧
    (ClientExact x (· = exitMessage) ↔
      ∃ bytes, x.reply = some bytes ∧ (bytes = exitMessage ∨ CarriesError bytes)) := by
  have hmessage : Decoder.exit.Begins exitMessage := Decoder.begins_exit.mpr ⟨[], rfl⟩
  refine ⟨?_, ?_⟩
  · rw [clientExact_iff]
    simp only [and_self]
  · rw [clientExact_iff]
    refine exists_congr fun bytes => and_congr_right fun _ => or_congr_left ?_
    exact and_iff_right_of_imp fun h => h ▸ hmessage

/-- The server cannot be reached, and the buffer holds the answer to an earlier request. -/
theorem exitRequest_unreached :
    let x : Exchange := ⟨false, false, none, by decide⟩
    let stale : List UInt8 := exitMessage ++ List.replicate 46 0
    requestProcessExit x stale (List.replicate unpackResultSize 0) = some (0, none) ∧
      ¬ ClientExact x Decoder.exit.Begins := by
  refine ⟨rfl, fun h => ?_⟩
  obtain ⟨bytes, hbytes, -⟩ := clientExact_iff.mp h
  cases hbytes

end AmdgpuFand

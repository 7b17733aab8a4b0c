import FileTransfer.Guarantees.Framing

/-! # Payload lengths

What a request that was read took from the stream, against what its header
announced. The sender chooses the announced length and the inner lengths apart
from each other, and the reader does not compare them.
-/

namespace FileTransfer

open Foundation Posix

/-! ## Headers -/

def numberAt (bytes : Bytes) (offset width : Nat) : Nat :=
  ofBigEndian ((bytes.drop offset).take width)

namespace Header

/-! The fields of a header that lay out what follows, by where they stand. -/

variable (bytes : Bytes)

def opcode : UInt8 := UInt8.ofNat (numberAt bytes 0 hOpcode)

def lengths : Nat := hOpcode + hUserFlag + hReqReserved

def usernameLen : Nat := numberAt bytes lengths hUsernameLen

def passwdLen : Nat := numberAt bytes (lengths + hUsernameLen) hPasswordLen

def announcement : Nat :=
  lengths + hUsernameLen + hPasswordLen + hSessionId + usernameLen bytes + passwdLen bytes

def payloadLen : Nat := numberAt bytes (announcement bytes) hPayloadLen

def size : Nat := announcement bytes + hPayloadLen

def pathLen : Nat := numberAt bytes (size bytes) hPathLen

def usrUsernameLen : Nat :=
  numberAt bytes (size bytes + hUsrActFlag + hUsrPermission) hUsernameLen

def usrPasswd : Nat :=
  size bytes + hUsrActFlag + hUsrPermission + hUsernameLen + usrUsernameLen bytes

def usrPasswdLen : Nat := numberAt bytes (usrPasswd bytes) hPasswordLen

end Header

def LengthsAgree (bytes : Bytes) : Prop :=
  if Header.opcode bytes = Act.userOperation.toByte then
    Header.payloadLen bytes =
        hUsrActFlag + hUsrPermission + hUsernameLen + Header.usrUsernameLen bytes ∨
      Header.payloadLen bytes =
        hUsrActFlag + hUsrPermission + hUsernameLen + Header.usrUsernameLen bytes +
          hPasswordLen + Header.usrPasswdLen bytes
  else if Header.opcode bytes = Act.localOperation.toByte then
    Header.payloadLen bytes = 0
  else
    Header.payloadLen bytes = hPathLen + Header.pathLen bytes ∨
      hPathLen + Header.pathLen bytes + hHashLen ≤ Header.payloadLen bytes

instance (bytes : Bytes) : Decidable (LengthsAgree bytes) := by
  unfold LengthsAgree
  infer_instance

/-! ## Reading at an offset -/

def LeftAt (bytes : Bytes) (offset : Nat) (stream : Stream) : Prop :=
  offset ≤ bytes.length ∧ stream.bytes = bytes.drop offset

theorem LeftAt.cast {bytes : Bytes} {offset offset' : Nat} {stream : Stream}
    (here : LeftAt bytes offset stream) (same : offset' = offset) :
    LeftAt bytes offset' stream :=
  same ▸ here

theorem LeftAt.advance {bytes front rest : Bytes} {offset count : Nat} {stream : Stream}
    {ending : StreamEnd} (here : LeftAt bytes offset stream)
    (split : stream.bytes = front ++ rest) (counted : front.length = count) :
    front = (bytes.drop offset).take count ∧
      LeftAt bytes (offset + count) ⟨rest, ending⟩ := by
  rcases here with ⟨within, left⟩
  have whole : bytes.drop offset = front ++ rest := left.symm.trans split
  have sizes := congrArg List.length whole
  rw [List.length_drop, List.length_append] at sizes
  refine ⟨?_, by omega, ?_⟩
  · rw [whole, ← counted, List.take_left]
  · rw [← List.drop_drop, whole, ← counted, List.drop_left]

section Fields

variable {calloc : Allocation → Bool} {field : Field} {count offset : Nat} {bytes : Bytes}
  {state : WirePayload} {stream : Stream} {result : α} {after : WirePayload × Stream}

theorem ok_of_readStream {next : Bytes → RequestReader α} (here : LeftAt bytes offset stream)
    (read : (readStream calloc field count >>= next) (state, stream) = .ok result after) :
    ∃ stream', LeftAt bytes (offset + count) stream' ∧
      next ((bytes.drop offset).take count) (state, stream') = .ok result after := by
  rcases readStream_cases calloc field count state stream with
    ⟨front, rest, split, counted, first⟩ | ⟨code, stopped, failed⟩
  · rcases here.advance split counted with ⟨isFront, there⟩
    rw [Reader.bind_apply_of_ok first, isFront] at read
    exact ⟨_, there, read⟩
  · rw [Reader.bind_apply_of_error failed] at read
    cases read

theorem ok_of_readNumber {next : Nat → RequestReader α} (here : LeftAt bytes offset stream)
    (read : (readNumber calloc field count >>= next) (state, stream) = .ok result after) :
    ∃ stream', LeftAt bytes (offset + count) stream' ∧
      next (numberAt bytes offset count) (state, stream') = .ok result after := by
  rw [readNumber, bind_assoc] at read
  exact ok_of_readStream here read

theorem ok_of_makeByteArray {next : Option Bytes → RequestReader α} {makeString : Bool}
    (here : LeftAt bytes offset stream)
    (read : (makeByteArray calloc field count makeString >>= next) (state, stream) =
      .ok result after) :
    ∃ array stream', LeftAt bytes (offset + count) stream' ∧
      (array = none → count = 0) ∧ next array (state, stream') = .ok result after := by
  rw [makeByteArray] at read
  split at read
  · rename_i nothing
    exact ⟨none, stream, by simpa [nothing.1] using here, fun _ => nothing.1, read⟩
  · rw [bind_assoc] at read
    rcases allocate_cases calloc (.array field) state stream with allocated | ⟨code, failed⟩
    · rw [Reader.bind_apply_of_ok allocated, bind_assoc] at read
      rcases ok_of_readStream here read with ⟨stream', there, read⟩
      rw [pure_bind] at read
      exact ⟨some _, stream', there, by simp, read⟩
    · rw [Reader.bind_apply_of_error failed] at read
      cases read

end Fields

/-! ## What a payload takes -/

def stdTaken (payloadLen pathLen : Nat) : Nat :=
  hPathLen + pathLen +
    if stdPayloadHasFile payloadLen pathLen then
      hHashLen + getFileStreamSize payloadLen pathLen
    else 0

def userTaken (payloadLen usernameLen passwdLen : Nat) : Nat :=
  hUsrActFlag + hUsrPermission + hUsernameLen + usernameLen +
    if userPayloadHasPassword payloadLen usernameLen then hPasswordLen + passwdLen else 0

/-! A payload that is stored again takes the place of the one before. -/

theorem WirePayload.setStd_setStd (load earlier : StdPayload) (request : WirePayload) :
    (request.setStd earlier).setStd load = request.setStd load := rfl

theorem WirePayload.setUser_setUser (load earlier : UserPayload) (request : WirePayload) :
    (request.setUser earlier).setUser load = request.setUser load := rfl

section Payloads

variable {calloc : Allocation → Bool} {bytes : Bytes} {offset payloadLen : Nat}
  {state state' : WirePayload} {stream after : Stream}

theorem readClientStdPayload_taken (here : LeftAt bytes offset stream)
    (read : readClientStdPayload calloc payloadLen (state, stream) = .ok () (state', after)) :
    ∃ load, state' = state.setStd load ∧ load.pathLen = numberAt bytes offset hPathLen ∧
      (load.hashStream ≠ none ∨ load.byteStream ≠ none →
        stdPayloadHasFile payloadLen load.pathLen = true) ∧
      LeftAt bytes (offset + stdTaken payloadLen (numberAt bytes offset hPathLen)) after := by
  rw [readClientStdPayload] at read
  rcases Reader.ok_of_bind_ok read with ⟨_, ⟨middle, rest⟩, allocated, read⟩
  rcases allocate_cases calloc .stdPayload state stream with granted | ⟨code, refused⟩
  · rw [granted] at allocated
    cases allocated
    rw [store_apply] at read
    rcases ok_of_readNumber here read with ⟨stream₁, here₁, read⟩
    rw [store_apply] at read
    rcases ok_of_makeByteArray here₁ read with ⟨path, stream₂, here₂, _, read⟩
    rw [store_apply] at read
    split at read
    · rename_i hasFile
      rcases ok_of_makeByteArray here₂ read with ⟨hash, stream₃, here₃, _, read⟩
      rw [store_apply, ← bind_pure (makeByteArray _ _ _ _ >>= _), bind_assoc] at read
      rcases ok_of_makeByteArray here₃ read with ⟨content, stream₄, here₄, _, read⟩
      cases read
      simp only [WirePayload.setStd_setStd]
      refine ⟨_, rfl, rfl, fun _ => hasFile, ?_⟩
      exact here₄.cast (by rw [stdTaken, if_pos hasFile]; omega)
    · rename_i noFile
      cases read
      simp only [WirePayload.setStd_setStd]
      refine ⟨_, rfl, rfl, fun stored => ?_, ?_⟩
      · simp at stored
      · exact here₂.cast (by rw [stdTaken, if_neg noFile]; omega)
  · rw [refused] at allocated
    cases allocated

theorem readClientUserPayload_taken (here : LeftAt bytes offset stream)
    (read : readClientUserPayload calloc payloadLen (state, stream) = .ok () (state', after)) :
    ∃ load, state' = WirePayload.setUser load { state with type := .userPayload } ∧
      LeftAt bytes (offset + userTaken payloadLen
        (numberAt bytes (offset + hUsrActFlag + hUsrPermission) hUsernameLen)
        (numberAt bytes (offset + hUsrActFlag + hUsrPermission + hUsernameLen +
          numberAt bytes (offset + hUsrActFlag + hUsrPermission) hUsernameLen)
          hPasswordLen)) after := by
  rw [readClientUserPayload, store_apply] at read
  rcases Reader.ok_of_bind_ok read with ⟨_, ⟨middle, rest⟩, allocated, read⟩
  rcases allocate_cases calloc .userPayload { state with type := .userPayload } stream with
    granted | ⟨code, refused⟩
  · rw [granted] at allocated
    cases allocated
    rw [store_apply] at read
    rcases ok_of_readNumber here read with ⟨stream₁, here₁, read⟩
    rw [store_apply] at read
    rcases ok_of_readNumber here₁ read with ⟨stream₂, here₂, read⟩
    rw [store_apply] at read
    rcases ok_of_readNumber here₂ read with ⟨stream₃, here₃, read⟩
    rw [store_apply] at read
    rcases ok_of_makeByteArray here₃ read with ⟨username, stream₄, here₄, _, read⟩
    rw [store_apply] at read
    split at read
    · rename_i hasPassword
      rcases ok_of_readNumber here₄ read with ⟨stream₅, here₅, read⟩
      rw [store_apply] at read
      rcases ok_of_makeByteArray here₅ read with ⟨passwd, stream₆, here₆, _, read⟩
      cases read
      simp only [WirePayload.setUser_setUser]
      refine ⟨_, rfl, ?_⟩
      exact here₆.cast (by rw [userTaken, if_pos hasPassword]; omega)
    · rename_i noPassword
      cases read
      simp only [WirePayload.setUser_setUser]
      refine ⟨_, rfl, ?_⟩
      exact here₄.cast (by rw [userTaken, if_neg noPassword]; omega)
  · rw [refused] at allocated
    cases allocated

end Payloads

def payloadTaken (bytes : Bytes) : Nat :=
  if Header.opcode bytes = Act.userOperation.toByte then
    userTaken (Header.payloadLen bytes) (Header.usrUsernameLen bytes)
      (Header.usrPasswdLen bytes)
  else if Header.opcode bytes = Act.localOperation.toByte then 0
  else stdTaken (Header.payloadLen bytes) (Header.pathLen bytes)

def FileByHeader (bytes : Bytes) (payload : Payload) : Prop :=
  ∀ load, payload = .std load →
    Header.opcode bytes ≠ Act.userOperation.toByte ∧
      Header.opcode bytes ≠ Act.localOperation.toByte ∧
      load.pathLen = Header.pathLen bytes ∧
      (load.hashStream ≠ none ∨ load.byteStream ≠ none →
        stdPayloadHasFile (Header.payloadLen bytes) (Header.pathLen bytes) = true)

/-- The last part of `read_client_req`, once the header is in: nothing is tagged yet, and
the opcode decides what is read. -/
theorem readClientReq_payload {calloc : Allocation → Bool} {stream after : Stream}
    {request : WirePayload}
    (read : readClientReq calloc ({}, stream) = .ok () (request, after)) :
    ∃ state stream', state.payloadLen = Header.payloadLen stream.bytes ∧
      state.type = .noPayload ∧ state.payload = .empty ∧
      LeftAt stream.bytes (Header.size stream.bytes) stream' ∧
      (if Header.opcode stream.bytes = Act.userOperation.toByte then
          readClientUserPayload calloc (Header.payloadLen stream.bytes)
        else if Header.opcode stream.bytes ≠ Act.localOperation.toByte then
          readClientStdPayload calloc (Header.payloadLen stream.bytes)
        else pure ()) (state, stream') = .ok () (request, after) := by
  have start : LeftAt stream.bytes 0 stream := ⟨Nat.zero_le _, rfl⟩
  generalize stream.bytes = bytes at start ⊢
  rw [readClientReq] at read
  rcases ok_of_readNumber start read with ⟨stream₁, here₁, read⟩
  rw [store_apply] at read
  rcases ok_of_readNumber here₁ read with ⟨stream₂, here₂, read⟩
  rw [store_apply] at read
  rcases ok_of_readStream here₂ read with ⟨stream₃, here₃, read⟩
  rw [store_apply] at read
  rcases ok_of_readNumber here₃ read with ⟨stream₄, here₄, read⟩
  rw [store_apply] at read
  rcases ok_of_readNumber here₄ read with ⟨stream₅, here₅, read⟩
  rw [store_apply] at read
  rcases ok_of_readNumber here₅ read with ⟨stream₆, here₆, read⟩
  rw [store_apply] at read
  rcases ok_of_makeByteArray here₆ read with ⟨username, stream₇, here₇, _, read⟩
  rw [store_apply] at read
  rcases ok_of_makeByteArray here₇ read with ⟨passwd, stream₈, here₈, _, read⟩
  rw [store_apply] at read
  rcases ok_of_readNumber here₈ read with ⟨stream₉, here₉, read⟩
  rw [store_apply] at read
  exact ⟨_, stream₉, rfl, rfl, rfl, here₉, read⟩

theorem readClientReq_taken {calloc : Allocation → Bool} {stream after : Stream}
    {request : WirePayload}
    (read : readClientReq calloc ({}, stream) = .ok () (request, after)) :
    request.payloadLen = Header.payloadLen stream.bytes ∧
      FileByHeader stream.bytes request.payload ∧
      LeftAt stream.bytes (Header.size stream.bytes + payloadTaken stream.bytes) after := by
  rcases readClientReq_payload read with ⟨state, rest, stored, _, fresh, here, read⟩
  generalize stream.bytes = bytes at stored here read ⊢
  by_cases isUser : Header.opcode bytes = Act.userOperation.toByte
  · rw [if_pos isUser] at read
    rcases readClientUserPayload_taken here read with ⟨load, rfl, final⟩
    refine ⟨stored, ?_, ?_⟩
    · intro load' isStd
      cases isStd
    · rw [payloadTaken, if_pos isUser]
      exact final
  · rw [if_neg isUser] at read
    by_cases isLocal : Header.opcode bytes = Act.localOperation.toByte
    · rw [if_neg (not_not.mpr isLocal)] at read
      cases read
      refine ⟨stored, fun load isStd => ?_, ?_⟩
      · rw [fresh] at isStd
        cases isStd
      · rw [payloadTaken, if_neg isUser, if_pos isLocal]
        exact here
    · rw [if_pos isLocal] at read
      rcases readClientStdPayload_taken here read with
        ⟨load, rfl, samePath, onlyFile, final⟩
      refine ⟨stored, ?_, ?_⟩
      · rintro load' isStd
        cases isStd
        refine ⟨isUser, isLocal, samePath, fun arrived => ?_⟩
        have hasFile := onlyFile arrived
        rw [samePath] at hasFile
        exact hasFile
      · rw [payloadTaken, if_neg isUser, if_neg isLocal]
        exact final

/-! ## Announced and taken -/

/-- What was read is what was announced: the payload has the announced length, and
a hash and data were read only if the payload has room for them behind the path. -/
structure Framed (bytes : Bytes) (request : WirePayload) (after : Stream) : Prop where
  consumed : bytes.length =
    Header.size bytes + request.payloadLen + after.bytes.length
  room : ∀ load, request.payload = .std load →
    load.hashStream ≠ none ∨ load.byteStream ≠ none →
      hPathLen + load.pathLen + hHashLen ≤ request.payloadLen
  noWrap : ∀ load, request.payload = .std load → load.pathLen ≤ request.payloadLen

theorem numberAt_lt (bytes : Bytes) (offset width : Nat) :
    numberAt bytes offset width < 256 ^ width := by
  have bound := ofBigEndian_lt ((bytes.drop offset).take width)
  have shorter : ((bytes.drop offset).take width).length ≤ width := List.length_take_le _ _
  exact bound.trans_le (Nat.pow_le_pow_right (by decide) shorter)

theorem userTaken_eq_iff (payloadLen usernameLen passwdLen : Nat) :
    userTaken payloadLen usernameLen passwdLen = payloadLen ↔
      payloadLen = hUsrActFlag + hUsrPermission + hUsernameLen + usernameLen ∨
        payloadLen = hUsrActFlag + hUsrPermission + hUsernameLen + usernameLen +
          hPasswordLen + passwdLen := by
  have width : hPasswordLen = 2 := rfl
  by_cases short : payloadLen ≤ hUsrActFlag + hUsrPermission + hUsernameLen + usernameLen
  · simp only [userTaken, userPayloadHasPassword, short, decide_true, Bool.not_true,
      Bool.false_eq_true, if_false]
    omega
  · simp only [userTaken, userPayloadHasPassword, short, decide_false, Bool.not_false,
      if_true]
    omega

/-- What the difference of the unsigned lengths says of a file, wrapped or not. -/
theorem stdPayloadHasFile_iff {payloadLen pathLen : Nat} (payloadFits : payloadLen < 2 ^ 64)
    (pathFits : pathLen < 2 ^ 16) :
    stdPayloadHasFile payloadLen pathLen = true ↔
      payloadLen < pathLen ∨ pathLen + hHashLen ≤ payloadLen := by
  have hashWidth : hHashLen = 32 := rfl
  rw [stdPayloadHasFile, decide_eq_true_iff, hashWidth]
  by_cases below : payloadLen < pathLen
  · have wrapped : (payloadLen + (2 ^ 64 - pathLen)) % 2 ^ 64 =
        payloadLen + (2 ^ 64 - pathLen) := Nat.mod_eq_of_lt (by omega)
    rw [wrapped]
    omega
  · have plain : (payloadLen + (2 ^ 64 - pathLen)) % 2 ^ 64 = payloadLen - pathLen := by
      omega
    rw [plain]
    omega

theorem stdTaken_eq_iff {payloadLen pathLen : Nat} (payloadFits : payloadLen < 2 ^ 64)
    (pathFits : pathLen < 2 ^ 16) :
    stdTaken payloadLen pathLen = payloadLen ↔
      payloadLen = hPathLen + pathLen ∨ hPathLen + pathLen + hHashLen ≤ payloadLen := by
  have hashWidth : hHashLen = 32 := rfl
  have pathWidth : hPathLen = 2 := rfl
  have hasFile := stdPayloadHasFile_iff payloadFits pathFits
  by_cases file : stdPayloadHasFile payloadLen pathLen = true
  · have large := hasFile.mp file
    rw [stdTaken, if_pos file, getFileStreamSize]
    split <;> omega
  · have small := mt hasFile.mpr file
    rw [stdTaken, if_neg file]
    omega

theorem lengthsAgree_iff (bytes : Bytes) :
    LengthsAgree bytes ↔ payloadTaken bytes = Header.payloadLen bytes := by
  rw [LengthsAgree, payloadTaken]
  by_cases isUser : Header.opcode bytes = Act.userOperation.toByte
  · rw [if_pos isUser, if_pos isUser]
    exact (userTaken_eq_iff _ _ _).symm
  · rw [if_neg isUser, if_neg isUser]
    by_cases isLocal : Header.opcode bytes = Act.localOperation.toByte
    · rw [if_pos isLocal, if_pos isLocal]
      exact eq_comm
    · rw [if_neg isLocal, if_neg isLocal]
      exact (stdTaken_eq_iff (numberAt_lt _ _ hPayloadLen) (numberAt_lt _ _ hPathLen)).symm

/-- A request that was read is framed exactly if the lengths in its header agree. -/
theorem framed_iff {calloc : Allocation → Bool} {stream after : Stream}
    {request : WirePayload}
    (read : readClientReq calloc ({}, stream) = .ok () (request, after)) :
    Framed stream.bytes request after ↔ LengthsAgree stream.bytes := by
  rcases readClientReq_taken read with ⟨announced, byHeader, within, left⟩
  have sizes := congrArg List.length left
  rw [List.length_drop] at sizes
  rw [lengthsAgree_iff]
  constructor
  · rintro ⟨consumed, _, _⟩
    rw [announced] at consumed
    omega
  · intro agree
    refine ⟨by omega, ?_, ?_⟩
    · intro load isStd arrived
      rcases byHeader load isStd with ⟨notUser, notLocal, samePath, onlyFile⟩
      have hasFile := onlyFile arrived
      rw [payloadTaken, if_neg notUser, if_neg notLocal, stdTaken, if_pos hasFile] at agree
      rw [announced, samePath]
      omega
    · intro load isStd
      rcases byHeader load isStd with ⟨notUser, notLocal, samePath, _⟩
      rw [payloadTaken, if_neg notUser, if_neg notLocal, stdTaken] at agree
      rw [announced, samePath]
      omega

/-! A GET whose header announces 30 bytes behind the path `notes`. -/

def getHeader : Bytes :=
  [Act.getRemoteFile.toByte, 0, 0, 0, 0, 0, 0, 0, 0, 0, 0, 0] ++ toBigEndian hPayloadLen 37

def notesPart : Bytes := toBigEndian hPathLen 5 ++ ascii "notes"

def shortHash : Bytes := List.replicate 32 255

def shortHashRequest : WirePayload where
  optCode := Act.getRemoteFile.toByte
  username := some []
  passwd := some []
  payloadLen := 37
  payload := .std { pathLen := 5, path := some (ascii "notes"), hashStream := some shortHash }

set_option maxRecDepth 4000 in
theorem shortHash_read :
    readClientReq plenty ({}, ⟨getHeader ++ notesPart ++ shortHash, .closed⟩) =
      .ok () (shortHashRequest, ⟨[], .closed⟩) := by
  rfl

theorem hash_read_past_payload :
    ¬ ∀ (calloc : Allocation → Bool) (stream after : Stream) (request : WirePayload),
      readClientReq calloc ({}, stream) = .ok () (request, after) →
        Framed stream.bytes request after := by
  intro framed
  have consumed := (framed _ _ _ _ shortHash_read).consumed
  revert consumed
  decide

theorem framed_iff_short_hash :
    Framed (getHeader ++ notesPart ++ shortHash) shortHashRequest ⟨[], .closed⟩ ↔
      LengthsAgree (getHeader ++ notesPart ++ shortHash) :=
  framed_iff shortHash_read

end FileTransfer

import FileTransfer.Guarantees.Responses

/-! # The format of responses
What the client decodes is laid out in one way only, and no response begins another. So a
response that breaks off is not taken for a shorter one.
-/

namespace FileTransfer

open Foundation Posix Client

/-! ## The layout -/

def laidOut (resp : ServerResponse) : Bytes :=
  toBigEndian RespHeader.returnCode resp.returnCode ++
    (toBigEndian RespHeader.reserved resp.reserved ++
      (toBigEndian RespHeader.sessionId resp.sessionId ++
        (toBigEndian RespHeader.payloadLen resp.payloadLen ++
          (toBigEndian RespHeader.msgLen resp.msgLen ++
            (encodeUtf8 resp.msg ++ (resp.digest.getD [] ++ resp.payload.getD []))))))

def HasData (resp : ServerResponse) : Prop :=
  resp.returnCode = successResponse ∧
    resp.msgLen + RespHeader.msgLen + RespHeader.sha256Digest < resp.payloadLen

instance (resp : ServerResponse) : Decidable (HasData resp) :=
  inferInstanceAs (Decidable (_ ∧ _))

structure Decodable (resp : ServerResponse) : Prop where
  returnCode : resp.returnCode < 256 ^ RespHeader.returnCode
  reserved : resp.reserved < 256 ^ RespHeader.reserved
  sessionId : resp.sessionId < 256 ^ RespHeader.sessionId
  payloadLen : resp.payloadLen < 256 ^ RespHeader.payloadLen
  msgLen : resp.msgLen < 256 ^ RespHeader.msgLen
  msg : (encodeUtf8 resp.msg).length = resp.msgLen
  digest : resp.digest.map List.length =
    if HasData resp then some RespHeader.sha256Digest else none
  payload : resp.payload.map List.length =
    if HasData resp then
      some (resp.payloadLen - (resp.msgLen + RespHeader.msgLen + RespHeader.sha256Digest))
    else none
  received : (resp.payload.getD []).length ≤ maxSize

theorem streamSize_pos_iff (payloadLen msgLen : Nat) :
    (payloadLen : Int) - (msgLen + RespHeader.msgLen + RespHeader.sha256Digest : Int) > 0 ↔
      msgLen + RespHeader.msgLen + RespHeader.sha256Digest < payloadLen := by
  omega

section Connect

variable {recv : Pieces} {calls calls' : Nat} {stream after : Stream} {resp : ServerResponse}

theorem connect_ok (connected : connect recv (calls, stream) = .ok resp (calls', after)) :
    Decodable resp ∧ stream.bytes = laidOut resp ++ after.bytes := by
  rw [connect] at connected
  rcases Reader.ok_of_bind_ok connected with ⟨returnCode, ⟨_, stream₁⟩, read₁, connected⟩
  rcases Reader.ok_of_bind_ok connected with ⟨reserved, ⟨_, stream₂⟩, read₂, connected⟩
  rcases Reader.ok_of_bind_ok connected with ⟨sessionId, ⟨_, stream₃⟩, read₃, connected⟩
  rcases Reader.ok_of_bind_ok connected with ⟨payloadLen, ⟨_, stream₄⟩, read₄, connected⟩
  rcases Reader.ok_of_bind_ok connected with ⟨msgLen, ⟨_, stream₅⟩, read₅, connected⟩
  rcases Reader.ok_of_bind_ok connected with ⟨msg, ⟨_, stream₆⟩, read₆, connected⟩
  rcases Reader.ok_of_bind_ok connected with ⟨text, ⟨_, stream₇⟩, read₇, connected⟩
  rcases readField_ok read₁ with ⟨codeFits, split₁⟩
  rcases readField_ok read₂ with ⟨reservedFits, split₂⟩
  rcases readField_ok read₃ with ⟨sessionFits, split₃⟩
  rcases readField_ok read₄ with ⟨payloadFits, split₄⟩
  rcases readField_ok read₅ with ⟨msgFits, split₅⟩
  rcases readStream_ok read₆ with ⟨msgSized, _, split₆⟩
  rcases decodeMsg_ok read₇ with ⟨decoded, same₇⟩
  have isMsg := decodeUtf8_eq_some_iff.mp decoded
  have msgSized' : (encodeUtf8 text).length = msgLen := isMsg ▸ msgSized
  by_cases success : successResponse = returnCode
  · simp only [success, if_true] at connected
    split at connected
    · rename_i positive
      rcases Reader.ok_of_bind_ok connected with ⟨digest, ⟨_, stream₈⟩, read₈, connected⟩
      rcases Reader.ok_of_bind_ok connected with ⟨payload, ⟨_, stream₉⟩, read₉, connected⟩
      rcases readStream_ok read₈ with ⟨digestSized, _, split₈⟩
      rcases readStream_ok read₉ with ⟨payloadSized, fits, split₉⟩
      cases connected
      have promised : msgLen + RespHeader.msgLen + RespHeader.sha256Digest < payloadLen := by
        omega
      have counted : payload.length =
          payloadLen - (msgLen + RespHeader.msgLen + RespHeader.sha256Digest) := by
        omega
      refine ⟨⟨codeFits, reservedFits, sessionFits, payloadFits, msgFits, msgSized', ?_, ?_,
        payloadSized.trans_le fits⟩, ?_⟩
      · rw [if_pos ⟨success.symm, promised⟩]
        exact congrArg some digestSized
      · rw [if_pos ⟨success.symm, promised⟩]
        exact congrArg some counted
      · rw [split₁, split₂, split₃, split₄, split₅, split₆, same₇, split₈, split₉, isMsg]
        simp only [laidOut, Option.getD_some, List.append_assoc]
    · rename_i exhausted
      cases connected
      have none' : ¬ HasData
          { returnCode, reserved, sessionId, payloadLen, msgLen, msg := text } := by
        rintro ⟨_, promised⟩
        exact exhausted ((streamSize_pos_iff payloadLen msgLen).mpr promised)
      refine ⟨⟨codeFits, reservedFits, sessionFits, payloadFits, msgFits, msgSized', ?_, ?_,
        Nat.zero_le _⟩, ?_⟩
      · rw [if_neg none']
        rfl
      · rw [if_neg none']
        rfl
      · rw [split₁, split₂, split₃, split₄, split₅, split₆, same₇, isMsg]
        simp only [laidOut, Option.getD_none, List.append_nil, List.append_assoc]
  · simp only [success, if_false] at connected
    cases connected
    have none' : ¬ HasData
        { returnCode, reserved, sessionId, payloadLen, msgLen, msg := text } :=
      fun promised => success promised.1.symm
    refine ⟨⟨codeFits, reservedFits, sessionFits, payloadFits, msgFits, msgSized', ?_, ?_,
        Nat.zero_le _⟩, ?_⟩
    · rw [if_neg none']
      rfl
    · rw [if_neg none']
      rfl
    · rw [split₁, split₂, split₃, split₄, split₅, split₆, same₇, isMsg]
      simp only [laidOut, Option.getD_none, List.append_nil, List.append_assoc]

theorem connect_of_decodable (unfailing : recv.Unfailing) (decodable : Decodable resp)
    (rest : Bytes) (ending : StreamEnd) :
    Delivers (connect recv) ⟨laidOut resp ++ rest, ending⟩ resp ⟨rest, ending⟩ := by
  rcases resp with ⟨returnCode, reserved, sessionId, payloadLen, msgLen, msg, digest, payload⟩
  rcases decodable with ⟨codeFits, reservedFits, sessionFits, payloadFits, msgFits, msgSized,
    digestSized, payloadSized, received⟩
  dsimp only at *
  simp only [laidOut, List.append_assoc]
  refine (readField_delivers unfailing _ ending codeFits (by decide)).bind ?_
  refine (readField_delivers unfailing _ ending reservedFits (by decide)).bind ?_
  refine (readField_delivers unfailing _ ending sessionFits (by decide)).bind ?_
  refine (readField_delivers unfailing _ ending payloadFits (by decide)).bind ?_
  refine (readField_delivers unfailing _ ending msgFits (by decide)).bind ?_
  have short : msgLen ≤ maxSize := msgFits.le.trans (by decide)
  refine (readStream_delivers unfailing _ ending msgSized short).bind ?_
  rw [decodeMsg, decodeUtf8_encodeUtf8]
  simp only [pure_bind]
  by_cases success : successResponse = returnCode
  · simp only [success, if_true]
    by_cases promised : msgLen + RespHeader.msgLen + RespHeader.sha256Digest < payloadLen
    · rw [if_pos ⟨success.symm, promised⟩, Option.map_eq_some_iff] at digestSized payloadSized
      rcases digestSized with ⟨digest, rfl, digestSized⟩
      rcases payloadSized with ⟨payload, rfl, payloadSized⟩
      rw [if_pos ((streamSize_pos_iff payloadLen msgLen).mpr promised)]
      rw [Option.getD_some] at received
      refine (readStream_delivers unfailing _ ending digestSized (by decide)).bind ?_
      refine (readStream_delivers unfailing _ ending ?_ ?_).bind (.pure _ _)
      · simp only [Option.getD_some]
        omega
      · omega
    · rw [if_neg fun data => promised data.2, Option.map_eq_none_iff] at digestSized payloadSized
      subst digestSized payloadSized
      rw [if_neg fun positive => promised ((streamSize_pos_iff payloadLen msgLen).mp positive)]
      exact .pure _ _
  · rw [if_neg fun data => success data.1.symm, Option.map_eq_none_iff] at digestSized payloadSized
    subst digestSized payloadSized
    rw [if_neg success]
    exact .pure _ _

end Connect

/-! ## One response at a time -/

theorem Decodable.dataLength {resp : ServerResponse} (decodable : Decodable resp) :
    (resp.digest.getD []).length = (if HasData resp then RespHeader.sha256Digest else 0) ∧
      (resp.payload.getD []).length =
        if HasData resp then
          resp.payloadLen - (resp.msgLen + RespHeader.msgLen + RespHeader.sha256Digest)
        else 0 := by
  have digest := decodable.digest
  have payload := decodable.payload
  by_cases data : HasData resp
  · rw [if_pos data, Option.map_eq_some_iff] at digest payload
    rcases digest with ⟨bytes, isDigest, counted⟩
    rcases payload with ⟨bytes', isPayload, counted'⟩
    rw [if_pos data, if_pos data, isDigest, isPayload]
    exact ⟨counted, counted'⟩
  · rw [if_neg data, Option.map_eq_none_iff] at digest payload
    rw [if_neg data, if_neg data, digest, payload]
    exact ⟨rfl, rfl⟩

theorem getD_injective {left right : Option Bytes} (alike : left.isSome = right.isSome)
    (same : left.getD [] = right.getD []) : left = right := by
  cases left with
  | none =>
      cases right with
      | none => rfl
      | some bytes => cases alike
  | some bytes =>
      cases right with
      | none => cases alike
      | some other => exact congrArg some same

theorem Decodable.isSome_iff {resp : ServerResponse} (decodable : Decodable resp) :
    (resp.digest.isSome = true ↔ HasData resp) ∧ (resp.payload.isSome = true ↔ HasData resp) := by
  have digest := congrArg Option.isSome decodable.digest
  have payload := congrArg Option.isSome decodable.payload
  rw [Option.isSome_map] at digest payload
  by_cases data : HasData resp <;> simp_all

/-- No response begins another: where two stand at the front of the same bytes, they are
one. -/
theorem Decodable.unique {left right : ServerResponse} (decodable : Decodable left)
    (decodable' : Decodable right) {rest rest' : Bytes}
    (same : laidOut left ++ rest = laidOut right ++ rest') : left = right := by
  have data := decodable.dataLength
  have data' := decodable'.dataLength
  have present := decodable.isSome_iff
  have present' := decodable'.isSome_iff
  rcases left with ⟨code, reserved, session, payloadLen, msgLen, msg, digest, payload⟩
  rcases right with ⟨code', reserved', session', payloadLen', msgLen', msg', digest', payload'⟩
  simp only [laidOut, List.append_assoc] at same
  rcases List.append_inj same (by simp) with ⟨sameCode, behindCode⟩
  rcases List.append_inj behindCode (by simp) with ⟨sameReserved, behindReserved⟩
  rcases List.append_inj behindReserved (by simp) with ⟨sameSession, behindSession⟩
  rcases List.append_inj behindSession (by simp) with ⟨samePayloadLen, behindPayloadLen⟩
  rcases List.append_inj behindPayloadLen (by simp) with ⟨sameMsgLen, behindMsgLen⟩
  cases toBigEndian_injective decodable.returnCode decodable'.returnCode sameCode
  cases toBigEndian_injective decodable.reserved decodable'.reserved sameReserved
  cases toBigEndian_injective decodable.sessionId decodable'.sessionId sameSession
  cases toBigEndian_injective decodable.payloadLen decodable'.payloadLen samePayloadLen
  cases toBigEndian_injective decodable.msgLen decodable'.msgLen sameMsgLen
  rcases List.append_inj behindMsgLen (decodable.msg.trans decodable'.msg.symm) with
    ⟨sameMsg, behindMsg⟩
  cases encodeUtf8_injective sameMsg
  -- The fields agree, so the same is promised behind the message.
  rcases List.append_inj behindMsg (data.1.trans data'.1.symm) with ⟨sameDigest, behindDigest⟩
  rcases List.append_inj behindDigest (data.2.trans data'.2.symm) with ⟨samePayload, _⟩
  cases getD_injective (Bool.eq_iff_iff.mpr (present.1.trans present'.1.symm)) sameDigest
  cases getD_injective (Bool.eq_iff_iff.mpr (present.2.trans present'.2.symm)) samePayload
  rfl

/-- What the client decodes is decided by the bytes alone: it is the one response that is
laid out at their front, if there is one. -/
theorem connect_ok_iff {recv : Pieces} (unfailing : recv.Unfailing) (calls : Nat)
    (stream : Stream) (resp : ServerResponse) :
    (∃ after, connect recv (calls, stream) = .ok resp after) ↔
      Decodable resp ∧ laidOut resp <+: stream.bytes := by
  constructor
  · rintro ⟨⟨calls', after⟩, connected⟩
    rcases connect_ok connected with ⟨decodable, split⟩
    exact ⟨decodable, after.bytes, split.symm⟩
  · rintro ⟨decodable, rest, split⟩
    rcases stream with ⟨bytes, ending⟩
    cases split
    rcases connect_of_decodable unfailing decodable rest ending calls with ⟨calls', connected⟩
    exact ⟨_, connected⟩

/-! ## The server's responses -/

theorem Built.decodable {response : ActResp} (built : Built response)
    (inMemory : dataStreamSize response < 2 ^ 63) (sessionId : UInt32) {msg : Text}
    (isText : encodeUtf8 msg = response.msg) :
    Decodable (decodedResp response sessionId msg) ∧
      laidOut (decodedResp response sessionId msg) = respBytes response sessionId := by
  have delivers : Delivers (connect .bytewise) ⟨respBytes response sessionId ++ [], .closed⟩
      (decodedResp response sessionId msg) ⟨[], .closed⟩ :=
    connect_delivers Pieces.bytewise_unfailing built inMemory isText [] .closed
  rcases delivers 0 with ⟨calls, connected⟩
  rcases connect_ok connected with ⟨decodable, split⟩
  refine ⟨decodable, ?_⟩
  rw [List.append_nil, List.append_nil] at split
  exact split.symm

theorem connect_part {recv : Pieces} {response : ActResp} (built : Built response)
    (inMemory : dataStreamSize response < 2 ^ 63) {sessionId : UInt32} {part : Bytes}
    (arrived : part <+: respBytes response sessionId) {ending : StreamEnd} {calls : Nat}
    {resp : ServerResponse} {after : Nat × Stream}
    (connected : connect recv (calls, ⟨part, ending⟩) = .ok resp after) :
    ∃ msg, encodeUtf8 msg = response.msg ∧ resp = decodedResp response sessionId msg := by
  rcases built.message.1 with ⟨msg, isText⟩
  rcases built.decodable inMemory sessionId isText with ⟨decodable, isLaidOut⟩
  rcases connect_ok connected with ⟨decodable', split⟩
  rcases arrived with ⟨later, whole⟩
  have same : laidOut resp ++ (after.2.bytes ++ later) =
      laidOut (decodedResp response sessionId msg) ++ [] := by
    rw [isLaidOut, List.append_nil, ← whole, ← List.append_assoc]
    exact congrArg (· ++ later) split.symm
  exact ⟨msg, isText, decodable'.unique decodable same⟩

/-- A response is decoded to what it was, whatever follows it, and to nothing else; cut short
anywhere, it is decoded to nothing, however the connection ends and `recv` behaves. -/
theorem response_read_whole_or_not_at_all {response : ActResp} (built : Built response)
    (inMemory : dataStreamSize response < 2 ^ 63) (sessionId : UInt32) :
    (∀ (recv : Pieces) (calls : Nat) (rest : Bytes) (ending : StreamEnd)
        (resp : ServerResponse), recv.Unfailing →
      ((∃ after, connect recv (calls, ⟨respBytes response sessionId ++ rest, ending⟩) =
          .ok resp after) ↔
        ∃ msg, encodeUtf8 msg = response.msg ∧ resp = decodedResp response sessionId msg)) ∧
    ∀ part, part <+: respBytes response sessionId → part ≠ respBytes response sessionId →
      ∀ (recv : Pieces) (calls : Nat) (ending : StreamEnd) (resp : ServerResponse)
        (after : Nat × Stream), connect recv (calls, ⟨part, ending⟩) ≠ .ok resp after := by
  constructor
  · intro recv calls rest ending resp unfailing
    rcases built.message.1 with ⟨msg, isText⟩
    rcases built.decodable inMemory sessionId isText with ⟨decodable, isLaidOut⟩
    rw [connect_ok_iff unfailing]
    constructor
    · rintro ⟨decodable', later, split⟩
      have same : laidOut resp ++ later =
          laidOut (decodedResp response sessionId msg) ++ rest := by
        rw [isLaidOut]
        exact split
      exact ⟨msg, isText, decodable'.unique decodable same⟩
    · rintro ⟨msg, isText, rfl⟩
      rcases built.decodable inMemory sessionId isText with ⟨decodable, isLaidOut⟩
      exact ⟨decodable, rest, by rw [isLaidOut]⟩
  · intro part arrived proper recv calls ending resp after connected
    rcases connect_part built inMemory arrived connected with ⟨msg, isText, rfl⟩
    rcases built.decodable inMemory sessionId isText with ⟨_, isLaidOut⟩
    have split := (connect_ok connected).2
    rw [isLaidOut] at split
    -- The whole response was read, so the whole response arrived.
    exact proper (arrived.eq_of_length_le (by simp only at split; rw [split]; simp))

theorem response_read_whole_or_not_at_all_three_bytes :
    (∃ after, connect .bytewise (0, ⟨respBytes (contentResp threeBytes) 9 ++ [1], .closed⟩) =
        .ok (decodedResp (contentResp threeBytes) 9
          (asciiText (getErrMsg .opSuccess))) after) ∧
      ∀ resp after, connect .bytewise
        (0, ⟨(respBytes (contentResp threeBytes) 9).take 60, .closed⟩) ≠ .ok resp after := by
  have whole := response_read_whole_or_not_at_all
    (.content threeBytes (by decide) (by decide)) (by decide) 9
  refine ⟨(whole.1 .bytewise 0 [1] .closed _ Pieces.bytewise_unfailing).mpr
    ⟨_, encodeUtf8_asciiText ?_, rfl⟩, ?_⟩
  · exact (shortAscii_spec (getErrMsg_short .opSuccess)).1
  · exact whole.2 _ (List.take_prefix _ _) (by decide +kernel) .bytewise 0 .closed

end FileTransfer

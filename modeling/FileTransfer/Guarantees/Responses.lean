import FileTransfer.Client.Sock
import FileTransfer.Server.FileRequests
import FileTransfer.Server.Response

/-! # Responses on the wire

What the server sends is what the client decodes, however the system cuts the bytes
on either side.
-/

namespace FileTransfer

open Foundation Posix

/-! ## Responses that are built -/

/-- The responses that handling a request can come to: a code with its message, or
content with its hash. -/
inductive Built : ActResp → Prop
  | code (code : RetCode) : Built (ctrlPopulateResp code)
  | content (content : FileContent) (nonempty : content.stream ≠ [])
      (hashSize : content.hash.length = sha256DigestLength) : Built (contentResp content)

theorem doGetFile_built {env : Env} {sha : Sha256} {server : Server} {payload : StdPayload}
    {response : ActResp} (done : doGetFile env sha server payload = .ok response) :
    Built response := by
  rcases doGetFile_cases done with ⟨code, rfl⟩ | ⟨path, code, content, _, read, nonempty, rfl⟩
  · exact .code code
  · refine .content content nonempty ?_
    rcases fReadFile_ok read with ⟨_, _, _, _, whole⟩
    rw [whole]
    exact sha.size _

theorem doListDir_built {env : Env} {sha : Sha256} {server : Server} {payload : StdPayload}
    {response : ActResp} (done : doListDir env sha server payload = .ok response) :
    Built response := by
  rcases doListDir_cases done with ⟨code, rfl⟩ | ⟨path, code, content, _, read, nonempty, rfl⟩
  · exact .code code
  · refine .content content nonempty ?_
    rcases fListDir_ok read with ⟨_, _, _, _, _, whole⟩
    rw [whole]
    exact sha.size _

theorem performAction_built {env : Env} {sha : Sha256} {user : UserAccount}
    {server after : Server} {request : WirePayload} {response : ActResp}
    (done : performAction env sha user server request = .ok (response, after)) :
    Built response := by
  rcases performAction_answered done with
    ⟨code, rfl⟩ | ⟨act, payload, _, _, ⟨rfl, listed⟩ | ⟨rfl, got⟩⟩
  · exact .code code
  · exact doListDir_built listed
  · exact doGetFile_built got

theorem ctrlParseAction_built {env : Env} {sha : Sha256} {timeout : Int} {server : Server}
    {request : WirePayload} {handled : Handled}
    (done : ctrlParseAction env sha timeout server request = .ok handled) :
    Built handled.response := by
  cases ctrlParseAction_effect done with
  | refused code failed stranger result =>
      subst result
      exact .code _
  | expired user check authentic checked failed result =>
      subst result
      exact .code _
  | performed user check response after authentic checked passed action result =>
      subst result
      exact performAction_built action

theorem serveClient_built {env : Env} {sha : Sha256} {timeout : Int} {server : Server}
    {connection : Connection} {served : Served} {response : ActResp} {sessionId : UInt32}
    (done : serveClient env sha timeout server connection = .ok served)
    (answered : served.response = some (response, sessionId)) : Built response := by
  rw [serveClient] at done
  split at done
  · cases done
    cases answered
  · split at done
    · cases done
      cases answered
    · split at done
      · rename_i code request rest failed
        cases done
        simp only [failureResponse] at answered
        split at answered
        · cases answered
        · cases answered
          exact .code code
      · rcases Fallible.ok_of_bind_ok done with ⟨handled, parsed, final⟩
        cases final
        cases answered
        exact ctrlParseAction_built parsed

/-! ## Messages -/

def shortAscii : (limit : Nat) → Bytes → Bool
  | 0, _ => false
  | _ + 1, [] => true
  | limit + 1, byte :: bytes => byte < 128 && shortAscii limit bytes

theorem shortAscii_spec {limit : Nat} {bytes : Bytes} (short : shortAscii limit bytes = true) :
    (∀ byte ∈ bytes, byte.toNat < 128) ∧ bytes.length < limit := by
  induction limit generalizing bytes with
  | zero => cases short
  | succ limit induction =>
      cases bytes with
      | nil => simp
      | cons byte bytes =>
          rw [shortAscii, Bool.and_eq_true, decide_eq_true_iff] at short
          rcases induction short.2 with ⟨isAscii, shorter⟩
          refine ⟨?_, by rw [List.length_cons]; omega⟩
          simp only [List.mem_cons, forall_eq_or_imp]
          exact ⟨UInt8.lt_iff_toNat_lt.mp short.1, isAscii⟩

theorem getErrMsg_short (code : RetCode) : shortAscii 256 (getErrMsg code) = true := by
  cases code <;> decide +kernel

theorem getErrMsg_text (code : RetCode) :
    (∃ text, encodeUtf8 text = getErrMsg code) ∧ (getErrMsg code).length < 256 := by
  rcases shortAscii_spec (getErrMsg_short code) with ⟨isAscii, short⟩
  exact ⟨⟨_, encodeUtf8_asciiText isAscii⟩, short⟩

theorem Built.message {response : ActResp} (built : Built response) :
    (∃ text, encodeUtf8 text = response.msg) ∧ response.msg.length < 256 := by
  cases built with
  | code code => exact getErrMsg_text code
  | content content nonempty hashSize => exact getErrMsg_text .opSuccess

/-! ## Sent and decoded -/

def decodedResp (response : ActResp) (sessionId : UInt32) (msg : Text) :
    Client.ServerResponse where
  returnCode := response.result.toByte.toNat
  reserved := 0
  sessionId := sessionId.toNat
  payloadLen := respPayloadLen response
  msgLen := response.msg.length
  msg := msg
  digest := response.content.map (·.hash)
  payload := response.content.map (·.stream)

section

open Client

variable {recv : Pieces} {response : ActResp} {sessionId : UInt32}

theorem connect_delivers (receives : recv.Unfailing) (built : Built response)
    (inMemory : dataStreamSize response < 2 ^ 63) {msg : Text}
    (isText : encodeUtf8 msg = response.msg) (rest : Bytes) (ending : StreamEnd) :
    Delivers (connect recv) ⟨respBytes response sessionId ++ rest, ending⟩
      (decodedResp response sessionId msg) ⟨rest, ending⟩ := by
  have short := built.message.2
  have byteOf : ∀ {value : Nat}, value < 256 → [UInt8.ofNat value] = toBigEndian 1 value := by
    intro value small
    simp [toBigEndian, Nat.mod_eq_of_lt small]
  have codeByte : [response.result.toByte] = toBigEndian 1 response.result.toByte.toNat := by
    rw [← byteOf response.result.toByte.toNat_lt, UInt8.ofNat_toNat]
  have payloadFits : respPayloadLen response < 256 ^ RespHeader.payloadLen := by
    rw [respPayloadLen, show hMsgLen = 1 from rfl,
      show 256 ^ RespHeader.payloadLen = 2 ^ 64 from rfl]
    omega
  rw [respBytes, respHeader, codeByte, show [(0 : UInt8)] = toBigEndian 1 0 from rfl,
    byteOf short]
  simp only [List.append_assoc]
  refine (readField_delivers receives _ _ response.result.toByte.toNat_lt (by decide)).bind ?_
  refine (readField_delivers receives _ _ (by decide) (by decide)).bind ?_
  refine (readField_delivers receives _ _ sessionId.toNat_lt (by decide)).bind ?_
  refine (readField_delivers receives _ _ payloadFits (by decide)).bind ?_
  refine (readField_delivers receives _ _ short (by decide)).bind ?_
  refine (readStream_delivers receives _ _ rfl (by rw [maxSize]; omega)).bind ?_
  have isMsg : decodeMsg response.msg = pure msg := by
    rw [decodeMsg, ← isText, decodeUtf8_encodeUtf8]
  rw [isMsg, pure_bind]
  cases built with
  | code code =>
      -- Without content the difference of the lengths is negative.
      have noStream : ¬ ((respPayloadLen (ctrlPopulateResp code) : Int) -
          ((ctrlPopulateResp code).msg.length + RespHeader.msgLen +
            RespHeader.sha256Digest) > 0) := by
        rw [respPayloadLen, show dataStreamSize (ctrlPopulateResp code) = 0 from rfl,
          show hMsgLen = RespHeader.msgLen from rfl]
        omega
      simp only [noStream, if_false, ite_self]
      exact .pure _ _
  | content content nonempty hashSize =>
      have positive := List.length_pos_iff.mpr nonempty
      have streamSize : (respPayloadLen (contentResp content) : Int) -
          ((contentResp content).msg.length + RespHeader.msgLen +
            RespHeader.sha256Digest) = content.stream.length := by
        have digest : content.hash.length = RespHeader.sha256Digest := hashSize
        rw [respPayloadLen,
          show dataStreamSize (contentResp content) =
            content.stream.length + content.hash.length from rfl,
          show hMsgLen = RespHeader.msgLen from rfl, digest]
        omega
      have success : successResponse = (contentResp content).result.toByte.toNat := rfl
      rw [if_pos success]
      simp only [streamSize, Int.toNat_natCast]
      rw [if_pos (by omega)]
      have data : respData (contentResp content) = content.hash ++ content.stream := rfl
      rw [data, List.append_assoc]
      have fits : content.stream.length ≤ maxSize := by
        rw [show dataStreamSize (contentResp content) =
          content.stream.length + content.hash.length from rfl] at inMemory
        rw [maxSize]
        omega
      refine (readStream_delivers receives _ _ hashSize (by decide)).bind ?_
      refine (readStream_delivers receives _ _ rfl fits).bind ?_
      exact .pure _ _

/-- A response goes over the wire whole and in order, however `write` cuts it, and the
client decodes it to what it was, however `recv` cuts it. -/
theorem response_survives {write : Pieces} (sends : write.Unfailing)
    (receives : recv.Unfailing) (built : Built response)
    (inMemory : dataStreamSize response < 2 ^ 63) :
    ∃ calls msg, encodeUtf8 msg = response.msg ∧
      writeResponse write true response sessionId =
        .ok (true, ⟨calls, pktMsgSize response, respBytes response sessionId⟩) ∧
      ∀ rest ending, Delivers (connect recv)
        ⟨respBytes response sessionId ++ rest, ending⟩
        (decodedResp response sessionId msg) ⟨rest, ending⟩ := by
  rcases built.message.1 with ⟨msg, isText⟩
  rcases writeResponse_sends sends response sessionId with ⟨calls, sent⟩
  exact ⟨calls, msg, isText, sent, connect_delivers receives built inMemory isText⟩

/-! A file of three bytes, sent and received one byte at a time. -/

def threeBytes : FileContent where
  hash := List.replicate 32 7
  stream := ascii "abc"
  path := ascii "/home/notes"

theorem response_survives_bytewise :
    ∃ calls msg, encodeUtf8 msg = (contentResp threeBytes).msg ∧
      writeResponse .bytewise true (contentResp threeBytes) 9 =
        .ok (true, ⟨calls, pktMsgSize (contentResp threeBytes),
          respBytes (contentResp threeBytes) 9⟩) ∧
      ∀ rest ending, Delivers (connect .bytewise)
        ⟨respBytes (contentResp threeBytes) 9 ++ rest, ending⟩
        (decodedResp (contentResp threeBytes) 9 msg) ⟨rest, ending⟩ :=
  response_survives Pieces.bytewise_unfailing Pieces.bytewise_unfailing
    (.content _ (by decide) (by decide)) (by decide)

end

end FileTransfer

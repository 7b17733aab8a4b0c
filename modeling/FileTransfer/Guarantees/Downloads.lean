import FileTransfer.Guarantees.ClientRequests
import FileTransfer.Guarantees.Listings

/-! # Downloads

What the client saves is what the server, or whoever altered the stream, put there as the
payload, and it saves it only under a digest that is right.
-/

namespace FileTransfer

open Foundation Client

structure Delivered (bytes digest payload : Bytes) : Prop where
  sized : digest.length = RespHeader.sha256Digest
  nonempty : payload ≠ []
  received : payload.length ≤ maxSize
  counted : ∃ (reserved sessionId payloadLen : Nat) (msg : Bytes) (text : Text) (rest : Bytes),
    reserved < 256 ∧ sessionId < 256 ^ 4 ∧ payloadLen < 256 ^ 8 ∧ msg.length < 256 ∧
    decodeUtf8 msg = some text ∧
    payloadLen = msg.length + RespHeader.msgLen + RespHeader.sha256Digest + payload.length ∧
    bytes = toBigEndian RespHeader.returnCode successResponse ++
      (toBigEndian RespHeader.reserved reserved ++
        (toBigEndian RespHeader.sessionId sessionId ++
          (toBigEndian RespHeader.payloadLen payloadLen ++
            (toBigEndian RespHeader.msgLen msg.length ++
              (msg ++ (digest ++ (payload ++ rest)))))))

section Connect

variable {recv : Pieces} {calls calls' : Nat} {stream after : Stream} {resp : ServerResponse}

theorem connect_delivered {digest payload : Bytes}
    (connected : connect recv (calls, stream) = .ok resp (calls', after))
    (hasDigest : resp.digest = some digest) (hasPayload : resp.payload = some payload) :
    Delivered stream.bytes digest payload := by
  rw [connect] at connected
  rcases Reader.ok_of_bind_ok connected with ⟨returnCode, ⟨_, stream₁⟩, read₁, connected⟩
  rcases Reader.ok_of_bind_ok connected with ⟨reserved, ⟨_, stream₂⟩, read₂, connected⟩
  rcases Reader.ok_of_bind_ok connected with ⟨sessionId, ⟨_, stream₃⟩, read₃, connected⟩
  rcases Reader.ok_of_bind_ok connected with ⟨payloadLen, ⟨_, stream₄⟩, read₄, connected⟩
  rcases Reader.ok_of_bind_ok connected with ⟨msgLen, ⟨_, stream₅⟩, read₅, connected⟩
  rcases Reader.ok_of_bind_ok connected with ⟨msg, ⟨_, stream₆⟩, read₆, connected⟩
  rcases Reader.ok_of_bind_ok connected with ⟨text, ⟨_, stream₇⟩, read₇, connected⟩
  rcases readStream_ok read₆ with ⟨msgSized, _, split₆⟩
  rcases decodeMsg_ok read₇ with ⟨decoded, same₇⟩
  by_cases success : successResponse = returnCode
  · simp only [success, if_true] at connected
    split at connected
    · rename_i positive
      rcases Reader.ok_of_bind_ok connected with ⟨digest', ⟨_, stream₈⟩, read₈, connected⟩
      rcases Reader.ok_of_bind_ok connected with ⟨payload', ⟨_, stream₉⟩, read₉, connected⟩
      cases connected
      cases hasDigest
      cases hasPayload
      rcases readStream_ok read₈ with ⟨digestSized, _, split₈⟩
      rcases readStream_ok read₉ with ⟨payloadSized, fits, split₉⟩
      rcases readField_ok read₁ with ⟨_, split₁⟩
      rcases readField_ok read₂ with ⟨reservedFits, split₂⟩
      rcases readField_ok read₃ with ⟨sessionFits, split₃⟩
      rcases readField_ok read₄ with ⟨payloadFits, split₄⟩
      rcases readField_ok read₅ with ⟨msgFits, split₅⟩
      cases same₇
      cases msgSized
      have counted : payloadLen =
          msg.length + RespHeader.msgLen + RespHeader.sha256Digest + payload.length := by
        omega
      refine ⟨digestSized, ?_, payloadSized.trans_le fits, reserved, sessionId, payloadLen, msg,
        text, after.bytes, reservedFits, sessionFits, payloadFits, msgFits, decoded, counted, ?_⟩
      · intro isNil
        rw [isNil, List.length_nil] at counted
        omega
      · rw [split₁, split₂, split₃, split₄, split₅, split₆, split₈, split₉, success]
    · cases connected
      cases hasDigest
  · simp only [success, if_false] at connected
    cases connected
    cases hasDigest

theorem connect_of_delivered (unfailing : recv.Unfailing) {digest payload : Bytes}
    (delivered : Delivered stream.bytes digest payload) :
    ∃ resp calls' after, connect recv (calls, stream) = .ok resp (calls', after) ∧
      resp.returnCode = successResponse ∧ resp.digest = some digest ∧
      resp.payload = some payload := by
  rcases stream with ⟨bytes, ending⟩
  rcases delivered.counted with ⟨reserved, sessionId, payloadLen, msg, text, rest, reservedFits,
    sessionFits, payloadFits, msgFits, decoded, counted, rfl⟩
  have positive := List.length_pos_iff.mpr delivered.nonempty
  have present : ((payloadLen : Int) - (msg.length + RespHeader.msgLen +
      RespHeader.sha256Digest : Nat)) > 0 := by omega
  have streamSize : ((payloadLen : Int) - (msg.length + RespHeader.msgLen +
      RespHeader.sha256Digest : Nat)).toNat = payload.length := by omega
  have reads : Delivers (connect recv)
      ⟨toBigEndian RespHeader.returnCode successResponse ++
        (toBigEndian RespHeader.reserved reserved ++
          (toBigEndian RespHeader.sessionId sessionId ++
            (toBigEndian RespHeader.payloadLen payloadLen ++
              (toBigEndian RespHeader.msgLen msg.length ++
                (msg ++ (digest ++ (payload ++ rest))))))), ending⟩
      { returnCode := successResponse, reserved, sessionId, payloadLen, msgLen := msg.length,
        msg := text, digest := some digest, payload := some payload } ⟨rest, ending⟩ := by
    refine (readField_delivers unfailing _ ending (by decide) (by decide)).bind ?_
    refine (readField_delivers unfailing _ ending reservedFits (by decide)).bind ?_
    refine (readField_delivers unfailing _ ending sessionFits (by decide)).bind ?_
    refine (readField_delivers unfailing _ ending payloadFits (by decide)).bind ?_
    refine (readField_delivers unfailing _ ending msgFits (by decide)).bind ?_
    have short : msg.length ≤ maxSize := msgFits.le.trans (by decide)
    refine (readStream_delivers unfailing _ ending rfl short).bind ?_
    have decodes : Delivers (decodeMsg msg) ⟨digest ++ (payload ++ rest), ending⟩ text
        ⟨digest ++ (payload ++ rest), ending⟩ := by
      rw [decodeMsg, decoded]
      exact .pure _ _
    refine decodes.bind ?_
    simp only [if_true]
    rw [if_pos (by exact_mod_cast present)]
    have fits := delivered.received
    refine (readStream_delivers unfailing _ ending delivered.sized (by decide)).bind ?_
    refine (readStream_delivers unfailing rest ending ?_ ?_).bind (.pure _ _)
    · exact_mod_cast streamSize.symm
    · rw [← streamSize] at fits
      exact_mod_cast fits
  rcases reads calls with ⟨calls', connected⟩
  exact ⟨_, calls', _, connected, rfl, rfl, rfl⟩

end Connect

def written : Except PyError Reaction → Option Bytes
  | .ok (.download saved) => saved
  | _ => none

theorem written_parseAction {Object : Type} {hashlib : Hashlib Object} {sha : Sha256}
    (hashes : hashlib.Hashes sha) (digits : UnicodeDigits) {request : ClientRequest}
    (isGet : request.action = .get) {resp : ServerResponse} {saved : Bytes} :
    written (parseAction digits hashlib request resp) = some saved ↔
      resp.returnCode = successResponse ∧ ∃ payload, resp.payload = some payload ∧
        resp.digest = some (sha.digest payload) ∧ saved = saveFile payload := by
  by_cases success : resp.returnCode = successResponse
  · have successful : ¬ resp.successful = false := by simp [ServerResponse.successful, success]
    simp only [parseAction, if_neg successful, isGet]
    cases digest : resp.digest with
    | none =>
        simp [ServerResponse.saveFile, ServerResponse.validHash, digest, written]
    | some digest' =>
        cases payload : resp.payload with
        | none =>
            simp [ServerResponse.saveFile, ServerResponse.validHash, digest, payload, written]
        | some payload' =>
            simp only [ServerResponse.saveFile, ServerResponse.validHash, digest, payload,
              hash_eq hashes, Fallible.ok_bind, Fallible.pure_eq_ok, decide_eq_true_eq]
            by_cases right : digest' = sha.digest payload'
            · simp [right, written, success, eq_comm]
            · simp [right, written]
  · have failed : resp.successful = false := by
      simp [ServerResponse.successful, Ne.symm success]
    simp only [parseAction, if_pos failed]
    split <;> simp [written, success]

/-- Whatever comes in answer to a download, the client writes a file only if a payload came
with a digest that is right, and then it writes that payload. -/
theorem downloads_verified {Object : Type} {hashlib : Hashlib Object} {sha : Sha256}
    (hashes : hashlib.Hashes sha) (digits : UnicodeDigits) {request : ClientRequest}
    (isGet : request.action = .get) (recv : Pieces) (stream : Stream) (saved : Bytes) :
    (written (answer digits hashlib recv request stream) = some saved →
        Delivered stream.bytes (sha.digest saved) saved) ∧
      (recv.Unfailing → Delivered stream.bytes (sha.digest saved) saved →
        written (answer digits hashlib recv request stream) = some saved) := by
  constructor
  · intro wrote
    rw [answer] at wrote
    split at wrote
    · cases wrote
    · rename_i resp after connected
      rcases after with ⟨calls, after⟩
      rcases (written_parseAction hashes digits isGet).mp wrote with
        ⟨_, payload, hasPayload, hasDigest, rfl⟩
      have delivered := connect_delivered connected hasDigest hasPayload
      rw [saveFile_eq delivered.nonempty]
      exact delivered
  · intro unfailing delivered
    rcases connect_of_delivered unfailing delivered with
      ⟨resp, calls, after, connected, success, hasDigest, hasPayload⟩
    rw [answer, connected]
    exact (written_parseAction hashes digits isGet).mpr
      ⟨success, saved, hasPayload, hasDigest, (saveFile_eq delivered.nonempty).symm⟩

/-! A download of `password`, which arrives byte by byte. -/

def passwordStream : Stream where
  bytes := toBigEndian RespHeader.returnCode successResponse ++
    (toBigEndian RespHeader.reserved 0 ++ (toBigEndian RespHeader.sessionId 7 ++
      (toBigEndian RespHeader.payloadLen 41 ++ (toBigEndian RespHeader.msgLen 0 ++
        (passwordDigest.val ++ ascii "password")))))
  ending := .closed

def getRequest : ClientRequest where
  action := .get

theorem passwordStream_delivered :
    Delivered passwordStream.bytes (passwordSha.digest (ascii "password")) (ascii "password") where
  sized := passwordSha.size _
  nonempty := by decide
  received := by decide
  counted := by
    refine ⟨0, 7, 41, [], [], [], by decide, by decide, by decide, by decide, rfl, by decide, ?_⟩
    decide +kernel

theorem downloads_verified_password :
    written (answer asciiDigits (collecting passwordSha) .bytewise getRequest passwordStream) =
      some (ascii "password") :=
  (downloads_verified (collecting_hashes passwordSha) asciiDigits rfl .bytewise passwordStream
    (ascii "password")).2 Pieces.bytewise_unfailing passwordStream_delivered

end FileTransfer

import FileTransfer.Foundation.Pieces
import FileTransfer.Foundation.Utf8

/-! # `client_sock.py`

The client's side of a connection once its request is sent.
-/

namespace FileTransfer.Client

open Foundation

def successResponse : Nat := 1

namespace RespHeader

def returnCode : Nat := 1
def reserved : Nat := 1
def sessionId : Nat := 4
def payloadLen : Nat := 8
def msgLen : Nat := 1
def sha256Digest : Nat := 32

end RespHeader

inductive Failure
  | socketError
  | overflowError
  | unicodeDecodeError
  | valueError
  /-- The connection is closed before all has arrived, and the loop goes on. -/
  | hangs
deriving DecidableEq

structure ServerResponse where
  returnCode : Nat
  reserved : Nat
  sessionId : Nat
  payloadLen : Nat
  msgLen : Nat
  msg : Text
  digest : Option Bytes := none
  payload : Option Bytes := none
deriving DecidableEq

abbrev ConnReader (α : Type) := Reader Failure Nat α

def maxSize : Nat := 2 ^ 63 - 1

def connRecv (recv : Pieces) (size : Nat) : ConnReader Bytes :=
  if maxSize < size then throw .overflowError else Reader.recv recv .socketError size

/-- The loop of `_read_stream`. A call that delivers anything shortens what is left,
so there are never more rounds than bytes, unless the connection is closed. -/
def receive (recv : Pieces) (bytesToRead : Nat) :
    (rounds : Nat) → (buffer : Bytes) → ConnReader Bytes
  | 0, buffer => if bytesToRead = buffer.length then pure buffer else throw .hangs
  | rounds + 1, buffer =>
      if bytesToRead = buffer.length then pure buffer
      else do
        let part ← connRecv recv (bytesToRead - buffer.length)
        receive recv bytesToRead rounds (buffer ++ part)

def readStream (recv : Pieces) (size : Nat) : ConnReader Bytes :=
  receive recv size size []

def readField (recv : Pieces) (size : Nat) : ConnReader Nat := do
  return ofBigEndian (← readStream recv size)

def decodeMsg (msg : Bytes) : ConnReader Text :=
  match decodeUtf8 msg with
  | some text => pure text
  | none => throw .unicodeDecodeError

def connect (recv : Pieces) : ConnReader ServerResponse := do
  let returnCode ← readField recv RespHeader.returnCode
  let reserved ← readField recv RespHeader.reserved
  let sessionId ← readField recv RespHeader.sessionId
  let payloadLen ← readField recv RespHeader.payloadLen
  let msgLen ← readField recv RespHeader.msgLen
  let msg ← decodeMsg (← readStream recv msgLen)
  let resp : ServerResponse := { returnCode, reserved, sessionId, payloadLen, msgLen, msg }
  if successResponse = returnCode then
    let streamSize : Int :=
      payloadLen - (msgLen + RespHeader.msgLen + RespHeader.sha256Digest)
    if streamSize > 0 then
      let digest ← readStream recv RespHeader.sha256Digest
      let payload ← readStream recv streamSize.toNat
      return { resp with digest := some digest, payload := some payload }
    else return resp
  else return resp

/-! ## What is delivered -/

def Delivers (reader : ConnReader α) (stream : Stream) (value : α) (after : Stream) :
    Prop :=
  ∀ calls, ∃ calls', reader (calls, stream) = .ok value (calls', after)

namespace Delivers

variable {reader : ConnReader α} {next : α → ConnReader β} {stream middle after : Stream}
  {value : α} {result : β}

theorem pure (value : α) (stream : Stream) :
    Delivers (Pure.pure value : ConnReader α) stream value stream :=
  fun calls => ⟨calls, rfl⟩

theorem bind (first : Delivers reader stream value middle)
    (second : Delivers (next value) middle result after) :
    Delivers (reader >>= next) stream result after := by
  intro calls
  rcases first calls with ⟨calls₁, read⟩
  rcases second calls₁ with ⟨calls₂, goesOn⟩
  exact ⟨calls₂, (Reader.bind_apply_of_ok read).trans goesOn⟩

end Delivers

theorem connRecv_eq {recv : Pieces} {size : Nat} (fits : size ≤ maxSize) :
    connRecv recv size = Reader.recv recv .socketError size :=
  if_neg (Nat.not_lt.mpr fits)

section Fields

variable {recv : Pieces} (unfailing : recv.Unfailing) (rest : Bytes) (ending : StreamEnd)

include unfailing

/-- However the bytes arrive, the loop collects as many as it was asked for. -/
theorem receive_delivers (bytesToRead rounds : Nat) (buffer later : Bytes)
    (counted : bytesToRead = buffer.length + later.length) (enough : later.length ≤ rounds)
    (fits : later.length ≤ maxSize) :
    Delivers (receive recv bytesToRead rounds buffer) ⟨later ++ rest, ending⟩
      (buffer ++ later) ⟨rest, ending⟩ := by
  induction rounds generalizing buffer later with
  | zero =>
      have isNil : later = [] := List.length_eq_zero_iff.mp (by omega)
      subst isNil
      rw [receive, if_pos (by simpa using counted), List.append_nil]
      exact .pure _ _
  | succ rounds induction =>
      by_cases isNil : later = []
      · subst isNil
        rw [receive, if_pos (by simpa using counted), List.append_nil]
        exact .pure _ _
      · have positive := List.length_pos_iff.mpr isNil
        rw [receive, if_neg (by omega)]
        intro calls
        have asked : later.length = bytesToRead - buffer.length := by omega
        rcases Reader.recv_part unfailing Failure.socketError asked (by omega) calls rest
          ending with ⟨part, beyond, rfl, some', read⟩
        rw [← connRecv_eq (asked ▸ fits)] at read
        rw [List.length_append] at counted enough fits
        have onwards := induction (buffer ++ part) beyond
          (by rw [List.length_append]; omega) (by omega) (by omega)
        rcases onwards (calls + 1) with ⟨calls', collected⟩
        rw [Reader.bind_apply_of_ok read, ← List.append_assoc]
        exact ⟨calls', collected⟩

theorem readStream_delivers {size : Nat} {bytes : Bytes} (counted : bytes.length = size)
    (fits : size ≤ maxSize) :
    Delivers (readStream recv size) ⟨bytes ++ rest, ending⟩ bytes ⟨rest, ending⟩ :=
  receive_delivers unfailing rest ending size size [] bytes (by simp [counted]) counted.le
    (counted ▸ fits)

theorem readField_delivers {size value : Nat} (fits : value < 256 ^ size)
    (short : size ≤ maxSize) :
    Delivers (readField recv size) ⟨toBigEndian size value ++ rest, ending⟩ value
      ⟨rest, ending⟩ := by
  have read := readStream_delivers unfailing rest ending (toBigEndian_length size value) short
  refine read.bind ?_
  rw [ofBigEndian_toBigEndian fits]
  exact .pure _ _

end Fields

/-! ## What was delivered -/

section Received

variable {recv : Pieces} {calls calls' : Nat} {stream after : Stream}

theorem connRecv_ok {size : Nat} {part : Bytes}
    (moved : connRecv recv size (calls, stream) = .ok part (calls', after)) :
    size ≤ maxSize ∧ stream.bytes = part ++ after.bytes := by
  rw [connRecv] at moved
  split at moved
  · cases moved
  · rename_i fits
    refine ⟨Nat.not_lt.mp fits, ?_⟩
    rw [Reader.recv] at moved
    split at moved
    · cases moved
    · split at moved
      · cases moved
      · cases moved
        exact (List.take_append_drop _ _).symm

theorem receive_ok {bytesToRead rounds : Nat} {buffer result : Bytes}
    (received : receive recv bytesToRead rounds buffer (calls, stream) =
      .ok result (calls', after)) :
    result.length = bytesToRead ∧ bytesToRead - buffer.length ≤ maxSize ∧
      ∃ part, result = buffer ++ part ∧ stream.bytes = part ++ after.bytes := by
  have stopped : ∀ {calls : Nat} {stream : Stream} {buffer : Bytes},
      bytesToRead = buffer.length →
      (Pure.pure buffer : ConnReader Bytes) (calls, stream) = .ok result (calls', after) →
        result.length = bytesToRead ∧ bytesToRead - buffer.length ≤ maxSize ∧
          ∃ part, result = buffer ++ part ∧ stream.bytes = part ++ after.bytes := by
    intro calls stream buffer full returned
    cases returned
    exact ⟨full.symm, by omega, [], (List.append_nil _).symm, rfl⟩
  induction rounds generalizing calls stream buffer with
  | zero =>
      rw [receive] at received
      split at received
      · rename_i full
        exact stopped full received
      · cases received
  | succ rounds induction =>
      rw [receive] at received
      split at received
      · rename_i full
        exact stopped full received
      · rcases Reader.ok_of_bind_ok received with ⟨part, ⟨calls₁, stream₁⟩, moved, onwards⟩
        rcases induction onwards with ⟨counted, _, later, rfl, rest⟩
        rcases connRecv_ok moved with ⟨fits, split'⟩
        refine ⟨counted, fits, part ++ later, List.append_assoc _ _ _, ?_⟩
        rw [split', rest, List.append_assoc]

theorem readStream_ok {size : Nat} {result : Bytes}
    (received : readStream recv size (calls, stream) = .ok result (calls', after)) :
    result.length = size ∧ size ≤ maxSize ∧ stream.bytes = result ++ after.bytes := by
  rcases receive_ok received with ⟨counted, fits, part, rfl, split⟩
  exact ⟨counted, fits, split⟩

theorem readField_ok {size value : Nat}
    (received : readField recv size (calls, stream) = .ok value (calls', after)) :
    value < 256 ^ size ∧ stream.bytes = toBigEndian size value ++ after.bytes := by
  rcases Reader.ok_of_bind_ok received with ⟨bytes, ⟨calls₁, stream₁⟩, read, final⟩
  rcases readStream_ok read with ⟨rfl, _, split⟩
  cases final
  refine ⟨ofBigEndian_lt bytes, ?_⟩
  rw [toBigEndian_ofBigEndian]
  exact split

theorem decodeMsg_ok {msg : Bytes} {text : Text}
    (decoded : decodeMsg msg (calls, stream) = .ok text (calls', after)) :
    decodeUtf8 msg = some text ∧ stream = after := by
  rw [decodeMsg] at decoded
  cases found : decodeUtf8 msg with
  | some text' =>
      rw [found] at decoded
      cases decoded
      exact ⟨rfl, rfl⟩
  | none =>
      rw [found] at decoded
      cases decoded

end Received

end FileTransfer.Client

import FileTransfer.Guarantees.PayloadLength
import FileTransfer.Server.Destroy

/-! # Cleaning up after a request

The reader tags a user payload and leaves the tag of any other request as it was
allocated. The tag of a file request therefore says that there is no payload.
-/

namespace FileTransfer

open Foundation

/-- What reading a request tags and what it fills in, by the opcode in the header. -/
inductive ReadAs (optCode : UInt8) (request : WirePayload) : Prop
  | user (load : UserPayload) (opcode : optCode = Act.userOperation.toByte)
      (tagged : request.type = .userPayload) (populated : request.payload = .user load)
  | none (opcode : optCode = Act.localOperation.toByte) (tagged : request.type = .noPayload)
      (populated : request.payload = .empty)
  | std (load : StdPayload) (notUser : optCode ≠ Act.userOperation.toByte)
      (notLocal : optCode ≠ Act.localOperation.toByte) (tagged : request.type = .noPayload)
      (populated : request.payload = .std load)

theorem readClientReq_readAs {calloc : Allocation → Bool} {stream rest : Stream}
    {request : WirePayload}
    (read : readClientReq calloc ({}, stream) = .ok () (request, rest)) :
    ReadAs (Header.opcode stream.bytes) request := by
  rcases readClientReq_payload read with ⟨state, behind, _, untagged, empty, here, read⟩
  by_cases isUser : Header.opcode stream.bytes = Act.userOperation.toByte
  · rw [if_pos isUser] at read
    rcases readClientUserPayload_taken here read with ⟨load, rfl, _⟩
    exact .user load isUser rfl rfl
  · rw [if_neg isUser] at read
    by_cases isLocal : Header.opcode stream.bytes = Act.localOperation.toByte
    · rw [if_neg (not_not.mpr isLocal)] at read
      cases read
      exact .none isLocal untagged empty
    · rw [if_pos isLocal] at read
      rcases readClientStdPayload_taken here read with ⟨load, rfl, _⟩
      exact .std load isUser isLocal untagged rfl

/-- The tag of a request that was read is right, and destroying the request frees all that
it holds, exactly if the request is one about users or has no payload at all. -/
theorem released_iff {calloc : Allocation → Bool} {stream rest : Stream}
    {request : WirePayload}
    (read : readClientReq calloc ({}, stream) = .ok () (request, rest)) :
    WellTagged request ∧ Released request ↔
      Header.opcode stream.bytes = Act.userOperation.toByte ∨
        Header.opcode stream.bytes = Act.localOperation.toByte := by
  cases readClientReq_readAs read with
  | user load opcode tagged populated =>
      apply iff_of_true _ (.inl opcode)
      exact ⟨wellTagged_user tagged populated, released_user tagged populated⟩
  | none opcode tagged populated =>
      apply iff_of_true _ (.inr opcode)
      exact ⟨wellTagged_empty tagged populated, released_empty tagged populated⟩
  | std load notUser notLocal tagged populated =>
      apply iff_of_false
      · intro agrees
        have isEmpty := agrees.1.none.mp tagged
        rw [populated] at isEmpty
        cases isEmpty
      · intro opcode
        exact opcode.elim notUser notLocal

theorem emptyPut_read :
    readClientReq plenty ({}, ⟨emptyPut.encode, .closed⟩) =
      .ok () (emptyPut.decoded, ⟨[], .closed⟩) := by
  have read := readClientReq_frame emptyPut [] .closed
  rwa [List.append_nil] at read

theorem put_request_leaks :
    readClientReq plenty ({}, ⟨emptyPut.encode, .closed⟩) =
        .ok () (emptyPut.decoded, ⟨[], .closed⟩) ∧
      ¬ WellTagged emptyPut.decoded ∧ ¬ Released emptyPut.decoded ∧
      ∃ freed, ctrlDestroy emptyPut.decoded true = .ok (freed, none) ∧
        .array .path ∈ emptyPut.decoded.held ∧ .array .path ∉ freed ∧
        .array .hashStream ∈ emptyPut.decoded.held ∧ .array .hashStream ∉ freed := by
  have held : Allocation.array .path ∈ emptyPut.decoded.held ∧
      Allocation.array .hashStream ∈ emptyPut.decoded.held := by decide
  rcases show ∃ freed, ctrlDestroy emptyPut.decoded true = .ok (freed, none) from ⟨_, rfl⟩
    with ⟨freed, destroyed⟩
  have kept := (not_freed_of_untagged rfl destroyed).2
  refine ⟨emptyPut_read, ?_, ?_, freed, destroyed, held.1, kept _ (by simp), held.2,
    kept _ (by simp)⟩
  · intro tagged
    have isEmpty := tagged.none.mp rfl
    cases isEmpty
  · rintro ⟨freed', destroyed', all⟩
    exact (not_freed_of_untagged rfl destroyed').2 _ (by simp) (all _ held.1)

theorem released_iff_empty_put :
    WellTagged emptyPut.decoded ∧ Released emptyPut.decoded ↔
      Header.opcode emptyPut.encode = Act.userOperation.toByte ∨
        Header.opcode emptyPut.encode = Act.localOperation.toByte :=
  released_iff emptyPut_read

end FileTransfer

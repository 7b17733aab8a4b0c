import FileTransfer.Server.Sock

/-! # Reading requests

What the reader of a request does to a stream: it fails, or it consumes exactly
the fields it stores. A session id is stored once the fixed header has arrived.
-/

namespace FileTransfer

open Foundation Posix

/-! ## One field -/

theorem allocate_cases (calloc : Allocation → Bool) (allocation : Allocation)
    (state : WirePayload) (stream : Stream) :
    allocate calloc allocation (state, stream) = .ok () (state, stream) ∨
      ∃ code, allocate calloc allocation (state, stream) = .error code (state, stream) := by
  rw [allocate]
  split
  · exact .inr ⟨_, rfl⟩
  · exact .inl rfl

theorem readStream_cases (calloc : Allocation → Bool) (field : Field) (count : Nat)
    (state : WirePayload) (stream : Stream) :
    (∃ bytes rest, stream.bytes = bytes ++ rest ∧ bytes.length = count ∧
        readStream calloc field count (state, stream) =
          .ok bytes (state, ⟨rest, stream.ending⟩)) ∨
      ∃ code after, readStream calloc field count (state, stream) =
        .error code (state, after) := by
  rw [readStream]
  split
  · rename_i isZero
    exact .inl ⟨[], stream.bytes, rfl, isZero.symm, rfl⟩
  · rcases allocate_cases calloc (.buffers field) state stream with ok | ⟨code, failed⟩
    · rw [Reader.bind_apply_of_ok ok]
      exact Reader.take_cases _ _ _ _
    · exact .inr ⟨code, stream, Reader.bind_apply_of_error failed⟩

theorem readNumber_cases (calloc : Allocation → Bool) (field : Field) (count : Nat)
    (state : WirePayload) (stream : Stream) :
    (∃ bytes rest, stream.bytes = bytes ++ rest ∧ bytes.length = count ∧
        readNumber calloc field count (state, stream) =
          .ok (ofBigEndian bytes) (state, ⟨rest, stream.ending⟩)) ∨
      ∃ code after, readNumber calloc field count (state, stream) =
        .error code (state, after) := by
  rcases readStream_cases calloc field count state stream with
    ⟨bytes, rest, split, counted, read⟩ | ⟨code, after, failed⟩
  · exact .inl ⟨bytes, rest, split, counted, Reader.bind_apply_of_ok read⟩
  · exact .inr ⟨code, after, Reader.bind_apply_of_error failed⟩

section Keeps

variable {γ : Type} {view : WirePayload → γ} (calloc : Allocation → Bool) (field : Field)
  (count : Nat)

theorem keeps_allocate (allocation : Allocation) :
    Reader.Keeps view (allocate calloc allocation) :=
  .ite (.throw _) (.pure _)

theorem keeps_readStream : Reader.Keeps view (readStream calloc field count) :=
  .ite (.pure _) (.bind (keeps_allocate calloc _) fun _ => .take _ _)

theorem keeps_readNumber : Reader.Keeps view (readNumber calloc field count) :=
  .bind (keeps_readStream calloc field count) fun _ => .pure _

theorem keeps_makeByteArray (makeString : Bool) :
    Reader.Keeps view (makeByteArray calloc field count makeString) :=
  .ite (.pure _) (.bind (keeps_allocate calloc _) fun _ =>
    .bind (keeps_readStream calloc field count) fun _ => .pure _)

end Keeps

/-! ## Locality

Reading looks only at what it consumes, and what it fails with is never a
success code.
-/

section Disciplined

variable (calloc : Allocation → Bool) (field : Field) (count : Nat)

abbrev Failure (code : RetCode) : Prop := code ≠ .opSuccess

theorem disciplined_allocate (allocation : Allocation) :
    Reader.Disciplined Failure (allocate calloc allocation) :=
  .ite (.throw (by decide)) (.pure _)

theorem disciplined_readStream :
    Reader.Disciplined Failure (readStream calloc field count) :=
  .ite (.pure _) (.bind (disciplined_allocate calloc _) fun _ =>
    .take (fun ending => by cases ending <;> decide) _)

theorem disciplined_readNumber :
    Reader.Disciplined Failure (readNumber calloc field count) :=
  .bind (disciplined_readStream calloc field count) fun _ => .pure _

theorem disciplined_makeByteArray (makeString : Bool) :
    Reader.Disciplined Failure (makeByteArray calloc field count makeString) :=
  .ite (.pure _) (.bind (disciplined_allocate calloc _) fun _ =>
    .bind (disciplined_readStream calloc field count) fun _ => .pure _)

theorem disciplined_std (payloadLen : Nat) :
    Reader.Disciplined Failure (readClientStdPayload calloc payloadLen) := by
  refine .bind (disciplined_allocate _ _) fun _ => .bind (.modifyState _) fun _ => ?_
  refine .bind (disciplined_readNumber _ _ _) fun _ => .bind (.modifyState _) fun _ => ?_
  refine .bind (disciplined_makeByteArray _ _ _ _) fun _ => .bind (.modifyState _) fun _ => ?_
  refine .ite (.bind (disciplined_makeByteArray _ _ _ _) fun _ => ?_) (.pure _)
  exact .bind (.modifyState _) fun _ =>
    .bind (disciplined_makeByteArray _ _ _ _) fun _ => .modifyState _

theorem disciplined_user (payloadLen : Nat) :
    Reader.Disciplined Failure (readClientUserPayload calloc payloadLen) := by
  refine .bind (.modifyState _) fun _ => ?_
  refine .bind (disciplined_allocate _ _) fun _ => .bind (.modifyState _) fun _ => ?_
  refine .bind (disciplined_readNumber _ _ _) fun _ => .bind (.modifyState _) fun _ => ?_
  refine .bind (disciplined_readNumber _ _ _) fun _ => .bind (.modifyState _) fun _ => ?_
  refine .bind (disciplined_readNumber _ _ _) fun _ => .bind (.modifyState _) fun _ => ?_
  refine .bind (disciplined_makeByteArray _ _ _ _) fun _ => .bind (.modifyState _) fun _ => ?_
  refine .ite (.bind (disciplined_readNumber _ _ _) fun _ => ?_) (.pure _)
  exact .bind (.modifyState _) fun _ =>
    .bind (disciplined_makeByteArray _ _ _ _) fun _ => .modifyState _

theorem disciplined_readClientReq : Reader.Disciplined Failure (readClientReq calloc) := by
  refine .bind (disciplined_readNumber _ _ _) fun _ => .bind (.modifyState _) fun _ => ?_
  refine .bind (disciplined_readNumber _ _ _) fun _ => .bind (.modifyState _) fun _ => ?_
  refine .bind (disciplined_readStream _ _ _) fun _ => .bind (.modifyState _) fun _ => ?_
  refine .bind (disciplined_readNumber _ _ _) fun _ => .bind (.modifyState _) fun _ => ?_
  refine .bind (disciplined_readNumber _ _ _) fun _ => .bind (.modifyState _) fun _ => ?_
  refine .bind (disciplined_readNumber _ _ _) fun _ => .bind (.modifyState _) fun _ => ?_
  refine .bind (disciplined_makeByteArray _ _ _ _) fun _ => .bind (.modifyState _) fun _ => ?_
  refine .bind (disciplined_makeByteArray _ _ _ _) fun _ => .bind (.modifyState _) fun _ => ?_
  refine .bind (disciplined_readNumber _ _ _) fun _ => .bind (.modifyState _) fun _ => ?_
  exact .ite (disciplined_user _ _) (.ite (disciplined_std _ _) (.pure _))

end Disciplined

/-! ## Memory
What is read with the memory that was granted is read with more of it as well.
-/

section Memory

variable (calloc : Allocation → Bool) {calloc' : Allocation → Bool}
  (granted : ∀ allocation, calloc' allocation = true) (field : Field) (count : Nat)

include granted

theorem below_allocate (allocation : Allocation) :
    Reader.Below (allocate calloc allocation) (allocate calloc' allocation) := by
  rw [allocate, allocate, granted]
  split
  · exact .throw _ _
  · exact .refl _

theorem below_readStream :
    Reader.Below (readStream calloc field count) (readStream calloc' field count) :=
  .ite (.refl _) (.bind (below_allocate calloc granted _) fun _ => .refl _)

theorem below_readNumber :
    Reader.Below (readNumber calloc field count) (readNumber calloc' field count) :=
  .bind (below_readStream calloc granted field count) fun _ => .refl _

theorem below_makeByteArray (makeString : Bool) :
    Reader.Below (makeByteArray calloc field count makeString)
      (makeByteArray calloc' field count makeString) :=
  .ite (.refl _) (.bind (below_allocate calloc granted _) fun _ =>
    .bind (below_readStream calloc granted field count) fun _ => .refl _)

theorem below_std (payloadLen : Nat) :
    Reader.Below (readClientStdPayload calloc payloadLen)
      (readClientStdPayload calloc' payloadLen) := by
  refine .bind (below_allocate _ granted _) fun _ => .bind (.refl _) fun _ => ?_
  refine .bind (below_readNumber _ granted _ _) fun _ => .bind (.refl _) fun _ => ?_
  refine .bind (below_makeByteArray _ granted _ _ _) fun _ => .bind (.refl _) fun _ => ?_
  refine .ite (.bind (below_makeByteArray _ granted _ _ _) fun _ => ?_) (.refl _)
  exact .bind (.refl _) fun _ =>
    .bind (below_makeByteArray _ granted _ _ _) fun _ => .refl _

theorem below_user (payloadLen : Nat) :
    Reader.Below (readClientUserPayload calloc payloadLen)
      (readClientUserPayload calloc' payloadLen) := by
  refine .bind (.refl _) fun _ => ?_
  refine .bind (below_allocate _ granted _) fun _ => .bind (.refl _) fun _ => ?_
  refine .bind (below_readNumber _ granted _ _) fun _ => .bind (.refl _) fun _ => ?_
  refine .bind (below_readNumber _ granted _ _) fun _ => .bind (.refl _) fun _ => ?_
  refine .bind (below_readNumber _ granted _ _) fun _ => .bind (.refl _) fun _ => ?_
  refine .bind (below_makeByteArray _ granted _ _ _) fun _ => .bind (.refl _) fun _ => ?_
  refine .ite (.bind (below_readNumber _ granted _ _) fun _ => ?_) (.refl _)
  exact .bind (.refl _) fun _ =>
    .bind (below_makeByteArray _ granted _ _ _) fun _ => .refl _

theorem below_readClientReq : Reader.Below (readClientReq calloc) (readClientReq calloc') := by
  refine .bind (below_readNumber _ granted _ _) fun _ => .bind (.refl _) fun _ => ?_
  refine .bind (below_readNumber _ granted _ _) fun _ => .bind (.refl _) fun _ => ?_
  refine .bind (below_readStream _ granted _ _) fun _ => .bind (.refl _) fun _ => ?_
  refine .bind (below_readNumber _ granted _ _) fun _ => .bind (.refl _) fun _ => ?_
  refine .bind (below_readNumber _ granted _ _) fun _ => .bind (.refl _) fun _ => ?_
  refine .bind (below_readNumber _ granted _ _) fun _ => .bind (.refl _) fun _ => ?_
  refine .bind (below_makeByteArray _ granted _ _ _) fun _ => .bind (.refl _) fun _ => ?_
  refine .bind (below_makeByteArray _ granted _ _ _) fun _ => .bind (.refl _) fun _ => ?_
  refine .bind (below_readNumber _ granted _ _) fun _ => .bind (.refl _) fun _ => ?_
  exact .ite (below_user _ granted _) (.ite (below_std _ granted _) (.refl _))

end Memory

/-! ## The payload -/

section Payloads

variable {γ : Type} {view : WirePayload → γ} (calloc : Allocation → Bool) (payloadLen : Nat)

theorem keeps_std (kept : ∀ load request, view (WirePayload.setStd load request) = view request) :
    Reader.Keeps view (readClientStdPayload calloc payloadLen) := by
  have store : ∀ load,
      Reader.Keeps view (Reader.modifyState (WirePayload.setStd load) : RequestReader Unit) :=
    fun load => .modifyState (kept load)
  refine .bind (keeps_allocate _ _) fun _ => .bind (store _) fun _ => ?_
  refine .bind (keeps_readNumber _ _ _) fun _ => .bind (store _) fun _ => ?_
  refine .bind (keeps_makeByteArray _ _ _ _) fun _ => .bind (store _) fun _ => ?_
  refine .ite (.bind (keeps_makeByteArray _ _ _ _) fun _ => ?_) (.pure _)
  exact .bind (store _) fun _ => .bind (keeps_makeByteArray _ _ _ _) fun _ => store _

theorem keeps_user (typed : ∀ type request, view { request with type := type } = view request)
    (kept : ∀ load request, view (WirePayload.setUser load request) = view request) :
    Reader.Keeps view (readClientUserPayload calloc payloadLen) := by
  have store : ∀ load,
      Reader.Keeps view (Reader.modifyState (WirePayload.setUser load) : RequestReader Unit) :=
    fun load => .modifyState (kept load)
  refine .bind (.modifyState (typed _)) fun _ => ?_
  refine .bind (keeps_allocate _ _) fun _ => .bind (store _) fun _ => ?_
  refine .bind (keeps_readNumber _ _ _) fun _ => .bind (store _) fun _ => ?_
  refine .bind (keeps_readNumber _ _ _) fun _ => .bind (store _) fun _ => ?_
  refine .bind (keeps_readNumber _ _ _) fun _ => .bind (store _) fun _ => ?_
  refine .bind (keeps_makeByteArray _ _ _ _) fun _ => .bind (store _) fun _ => ?_
  refine .ite (.bind (keeps_readNumber _ _ _) fun _ => ?_) (.pure _)
  exact .bind (store _) fun _ => .bind (keeps_makeByteArray _ _ _ _) fun _ => store _

end Payloads

/-! ## The session id -/

def sessionIdOffset : Nat :=
  hOpcode + hUserFlag + hReqReserved + hUsernameLen + hPasswordLen

def headerSessionId (bytes : Bytes) : UInt32 :=
  UInt32.ofNat (ofBigEndian ((bytes.drop sessionIdOffset).take hSessionId))

theorem finalState_bind_number {calloc : Allocation → Bool} {field : Field} {count : Nat}
    {state : WirePayload} {stream : Stream} {next : Nat → RequestReader α}
    {Holds : WirePayload → Prop} (stopped : Holds state)
    (goesOn : ∀ bytes rest, stream.bytes = bytes ++ rest → bytes.length = count →
      Holds (Reader.finalState (next (ofBigEndian bytes) (state, ⟨rest, stream.ending⟩)))) :
    Holds (Reader.finalState
      ((readNumber calloc field count >>= next) (state, stream))) := by
  rcases readNumber_cases calloc field count state stream with
    ⟨bytes, rest, split, counted, read⟩ | ⟨code, after, failed⟩
  · rw [Reader.bind_apply_of_ok read]
    exact goesOn bytes rest split counted
  · rw [Reader.bind_apply_of_error failed]
    exact stopped

theorem finalState_bind_stream {calloc : Allocation → Bool} {field : Field} {count : Nat}
    {state : WirePayload} {stream : Stream} {next : Bytes → RequestReader α}
    {Holds : WirePayload → Prop} (stopped : Holds state)
    (goesOn : ∀ bytes rest, stream.bytes = bytes ++ rest → bytes.length = count →
      Holds (Reader.finalState (next bytes (state, ⟨rest, stream.ending⟩)))) :
    Holds (Reader.finalState
      ((readStream calloc field count >>= next) (state, stream))) := by
  rcases readStream_cases calloc field count state stream with
    ⟨bytes, rest, split, counted, read⟩ | ⟨code, after, failed⟩
  · rw [Reader.bind_apply_of_ok read]
    exact goesOn bytes rest split counted
  · rw [Reader.bind_apply_of_error failed]
    exact stopped

def HasHeaderSession (bytes : Bytes) (state : WirePayload) : Prop :=
  state.sessionId = 0 ∨
    sessionIdOffset + hSessionId ≤ bytes.length ∧ state.sessionId = headerSessionId bytes

/-- However far a request is read, its session id is zero or the one sent. -/
theorem readClientReq_sessionId (calloc : Allocation → Bool) (stream : Stream) :
    HasHeaderSession stream.bytes
      (Reader.finalState (readClientReq calloc ({}, stream))) := by
  rcases stream with ⟨bytes, ending⟩
  rw [readClientReq]
  refine finalState_bind_number (.inl rfl) fun opcode rest₁ split₁ count₁ => ?_
  rw [Reader.bind_apply_of_ok (Reader.modifyState_apply _ _ _)]
  refine finalState_bind_number (.inl rfl) fun flag rest₂ split₂ count₂ => ?_
  rw [Reader.bind_apply_of_ok (Reader.modifyState_apply _ _ _)]
  refine finalState_bind_stream (.inl rfl) fun reserved rest₃ split₃ count₃ => ?_
  rw [Reader.bind_apply_of_ok (Reader.modifyState_apply _ _ _)]
  refine finalState_bind_number (.inl rfl) fun nameLen rest₄ split₄ count₄ => ?_
  rw [Reader.bind_apply_of_ok (Reader.modifyState_apply _ _ _)]
  refine finalState_bind_number (.inl rfl) fun passLen rest₅ split₅ count₅ => ?_
  rw [Reader.bind_apply_of_ok (Reader.modifyState_apply _ _ _)]
  refine finalState_bind_number (.inl rfl) fun session rest₆ split₆ count₆ => ?_
  rw [Reader.bind_apply_of_ok (Reader.modifyState_apply _ _ _)]
  simp only at split₁ split₂ split₃ split₄ split₅ split₆
  subst split₂ split₃ split₄ split₅ split₆ split₁
  have located : headerSessionId (opcode ++ (flag ++ (reserved ++ (nameLen ++
      (passLen ++ (session ++ rest₆)))))) = UInt32.ofNat (ofBigEndian session) := by
    have front : (opcode ++ (flag ++ (reserved ++ (nameLen ++ passLen)))).length =
        sessionIdOffset := by
      simp only [List.length_append, count₁, count₂, count₃, count₄, count₅]
      rfl
    have regroup : opcode ++ (flag ++ (reserved ++ (nameLen ++
        (passLen ++ (session ++ rest₆))))) =
        (opcode ++ (flag ++ (reserved ++ (nameLen ++ passLen)))) ++ (session ++ rest₆) := by
      simp
    rw [headerSessionId, regroup, List.drop_left' front, List.take_left' count₆]
  -- Nothing that is read later changes the session id.
  have kept : ∀ (state : WirePayload) (stream : Stream)
      (reader : RequestReader Unit), Reader.Keeps WirePayload.sessionId reader →
      state.sessionId = UInt32.ofNat (ofBigEndian session) →
      (Reader.finalState (reader (state, stream))).sessionId =
        UInt32.ofNat (ofBigEndian session) :=
    fun state stream reader keeps stored => (keeps state stream).trans stored
  refine .inr ⟨?_, (kept _ _ _ ?_ rfl).trans located.symm⟩
  · simp only [List.length_append, count₁, count₂, count₃, count₄, count₅, count₆,
      sessionIdOffset]
    omega
  · have store : ∀ change : WirePayload → WirePayload,
        (∀ state, (change state).sessionId = state.sessionId) →
        Reader.Keeps WirePayload.sessionId
          (Reader.modifyState change : RequestReader Unit) :=
      fun change same => .modifyState same
    refine .bind (keeps_makeByteArray _ _ _ _) fun _ => .bind (store _ fun _ => rfl) fun _ => ?_
    refine .bind (keeps_makeByteArray _ _ _ _) fun _ => .bind (store _ fun _ => rfl) fun _ => ?_
    refine .bind (keeps_readNumber _ _ _) fun _ => .bind (store _ fun _ => rfl) fun _ => ?_
    exact .ite (keeps_user _ _ (fun _ _ => rfl) fun _ _ => rfl)
      (.ite (keeps_std _ _ fun _ _ => rfl) (.pure _))

/-! ## The credentials -/

theorem stored_of_ok {reader : RequestReader α} {store : α → WirePayload → WirePayload}
    {next : α → RequestReader β} {before after : WirePayload × Stream} {result : β}
    (read : (reader >>= fun value => Reader.modifyState (store value) >>= fun _ => next value)
      before = .ok result after) :
    ∃ value middle, reader before = .ok value middle ∧
      next value (store value middle.1, middle.2) = .ok result after := by
  rcases Reader.ok_of_bind_ok read with ⟨value, middle, first, read⟩
  rw [Reader.bind_apply_of_ok (Reader.modifyState_apply _ _ _)] at read
  exact ⟨value, middle, first, read⟩

/-- A string is never NULL, even an empty one. -/
theorem makeByteArray_string {calloc : Allocation → Bool} {field : Field} {arrayLen : Nat}
    {before after : WirePayload × Stream} {array : Option Bytes}
    (read : makeByteArray calloc field arrayLen true before = .ok array after) :
    ∃ bytes, array = some bytes := by
  have isString : ¬ (arrayLen = 0 ∧ true = false) := by simp
  rw [makeByteArray, if_neg isString] at read
  rcases Reader.ok_of_bind_ok read with ⟨_, middle, _, read⟩
  rcases Reader.ok_of_bind_ok read with ⟨bytes, rest, _, final⟩
  cases final
  exact ⟨bytes, rfl⟩

theorem keeps_readPayload (calloc : Allocation → Bool) (optCode : Nat) :
    Reader.Keeps (fun request => (request.username, request.passwd)) (do
      let payloadLen ← readNumber calloc .payloadLen hPayloadLen
      Reader.modifyState fun request => { request with payloadLen := payloadLen }
      if UInt8.ofNat optCode = Act.userOperation.toByte then
        readClientUserPayload calloc payloadLen
      else if UInt8.ofNat optCode ≠ Act.localOperation.toByte then
        readClientStdPayload calloc payloadLen) := by
  refine .bind (keeps_readNumber _ _ _) fun _ => .bind (.modifyState fun _ => rfl) fun _ => ?_
  exact .ite (keeps_user _ _ (fun _ _ => rfl) fun _ _ => rfl)
    (.ite (keeps_std _ _ fun _ _ => rfl) (.pure _))

theorem readClientReq_credentials {calloc : Allocation → Bool} {stream rest : Stream}
    {request : WirePayload}
    (read : readClientReq calloc ({}, stream) = .ok () (request, rest)) :
    ∃ name passwd, request.username = some name ∧ request.passwd = some passwd := by
  rw [readClientReq] at read
  rcases stored_of_ok read with ⟨opcode, _, _, read⟩
  rcases stored_of_ok read with ⟨flag, _, _, read⟩
  rcases stored_of_ok read with ⟨reserved, _, _, read⟩
  rcases stored_of_ok read with ⟨nameLen, _, _, read⟩
  rcases stored_of_ok read with ⟨passLen, _, _, read⟩
  rcases stored_of_ok read with ⟨session, _, _, read⟩
  rcases stored_of_ok read with ⟨username, _, named, read⟩
  rcases stored_of_ok read with ⟨passwd, ⟨state, stream'⟩, secret, read⟩
  rcases makeByteArray_string named with ⟨name, rfl⟩
  rcases makeByteArray_string secret with ⟨hidden, rfl⟩
  -- Reading the password leaves the name, and reading the rest leaves both.
  have keepsName : Reader.Keeps WirePayload.username
      (makeByteArray calloc .passwd passLen true) := keeps_makeByteArray _ _ _ _
  have keptName := keepsName.of_ok secret
  have keptBoth := (keeps_readPayload calloc opcode).of_ok read
  exact ⟨name, hidden, (congrArg Prod.fst keptBoth).trans keptName, congrArg Prod.snd keptBoth⟩

end FileTransfer

import FileTransfer.Client.Sock

/-! # Where the client stops reading

A read goes on until it has as many bytes as it was asked for, and a closed connection
delivers none. How many the client asks for is decided by the fields it has read. A size that
`recv` does not take, or has no memory for, ends the read at once.
-/

namespace FileTransfer

open Foundation Client

/-! ## The client, round by round -/

def connectOver (readStream : Nat → ConnReader Bytes) : ConnReader ServerResponse := do
  let readField (size : Nat) : ConnReader Nat := do
    return ofBigEndian (← readStream size)
  let returnCode ← readField RespHeader.returnCode
  let reserved ← readField RespHeader.reserved
  let sessionId ← readField RespHeader.sessionId
  let payloadLen ← readField RespHeader.payloadLen
  let msgLen ← readField RespHeader.msgLen
  let msg ← decodeMsg (← readStream msgLen)
  let resp : ServerResponse := { returnCode, reserved, sessionId, payloadLen, msgLen, msg }
  if successResponse = returnCode then
    let streamSize : Int :=
      payloadLen - (msgLen + RespHeader.msgLen + RespHeader.sha256Digest)
    if streamSize > 0 then
      let digest ← readStream RespHeader.sha256Digest
      let payload ← readStream streamSize.toNat
      return { resp with digest := some digest, payload := some payload }
    else return resp
  else return resp

def readStreamWithin (rounds : Nat → Nat) (recv : Pieces) (size : Nat) : ConnReader Bytes :=
  receive recv size (rounds size) []

def connectWithin (rounds : Nat → Nat) (recv : Pieces) : ConnReader ServerResponse :=
  connectOver (readStreamWithin rounds recv)

theorem connect_eq (recv : Pieces) : connect recv = connectWithin id recv := rfl

def EndsAt (reader : (Nat → Nat) → ConnReader α) (calls : Nat) (stream : Stream) : Prop :=
  ∃ rounds, ∀ after, reader (fun _ => rounds) (calls, stream) ≠ .error .hangs after

/-! ## What is asked for -/

/-- A call of `recv` has memory for `limit` bytes and fails for want of it with more. -/
structure Affords (recv : Pieces) (limit : Nat) : Prop where
  moves : ∀ (call : Nat) {size : Nat}, 0 < size → size ≤ limit →
    ∃ count, recv.moved call size = some count
  fails : ∀ (call : Nat) {size : Nat}, limit < size → size ≤ maxSize →
    recv.moved call size = none

theorem Affords.of_unfailing {recv : Pieces} (unfailing : recv.Unfailing) :
    Affords recv maxSize where
  moves call _ positive _ := unfailing call _ positive
  fails _ _ beyond within := absurd beyond (Nat.not_lt.mpr within)

def fixedLength : Nat :=
  RespHeader.returnCode + RespHeader.reserved + RespHeader.sessionId +
    RespHeader.payloadLen + RespHeader.msgLen

def awaited (limit size : Nat) : Nat :=
  if size ≤ limit ∧ size ≤ maxSize then size else 0

def askedBehind (limit returnCode payloadLen msgLen : Nat) (msg : Bytes) : Nat :=
  if (decodeUtf8 msg).isSome ∧ returnCode = successResponse ∧
      msgLen + RespHeader.msgLen + RespHeader.sha256Digest < payloadLen then
    RespHeader.sha256Digest +
      awaited limit (payloadLen - (msgLen + RespHeader.msgLen + RespHeader.sha256Digest))
  else 0

def asked (limit : Nat) (bytes : Bytes) : Nat :=
  let returnCode := ofBigEndian (bytes.take RespHeader.returnCode)
  let payloadLen := ofBigEndian ((bytes.drop
    (RespHeader.returnCode + RespHeader.reserved + RespHeader.sessionId)).take
      RespHeader.payloadLen)
  let msgLen := ofBigEndian ((bytes.drop (fixedLength - RespHeader.msgLen)).take
    RespHeader.msgLen)
  fixedLength + msgLen +
    askedBehind limit returnCode payloadLen msgLen ((bytes.drop fixedLength).take msgLen)

/-! ## Readers that ask for a number of bytes -/

/-- Among the bytes sent before the close, `count` are enough for the reader to end, in as
many rounds as bytes or in `bound` rounds, and with fewer no number of rounds is enough. -/
structure AsksFor (reader : (Nat → Nat) → ConnReader α) (bytes : Bytes) (count : Nat) : Prop
    where
  ends : count ≤ bytes.length → ∃ bound, ∀ rounds : Nat → Nat,
    (∀ size, min size bound ≤ rounds size) → ∀ calls after,
      reader rounds (calls, ⟨bytes, .closed⟩) ≠ .error .hangs after
  endless : bytes.length < count → ∀ rounds calls, ∃ after,
    reader rounds (calls, ⟨bytes, .closed⟩) = .error .hangs after

section Reads

variable {recv : Pieces} {limit size : Nat} {bytes : Bytes}

theorem connRecv_closed (affords : Affords recv limit) {count : Nat} (positive : 0 < count)
    (within : count ≤ limit) (fits : count ≤ maxSize) (calls : Nat) (bytes : Bytes) :
    ∃ moved, 0 < moved ∧ moved ≤ count ∧
      connRecv recv count (calls, ⟨bytes, .closed⟩) =
        .ok (bytes.take moved) (calls + 1, ⟨bytes.drop moved, .closed⟩) := by
  rcases affords.moves calls positive within with ⟨moved, isMoved⟩
  rcases recv.inRange positive isMoved with ⟨some', bounded⟩
  refine ⟨moved, some', bounded, ?_⟩
  simp [connRecv_eq fits, Reader.recv, isMoved, Nat.min_eq_left bounded]

theorem connRecv_refused (affords : Affords recv limit) {count : Nat}
    (refused : ¬ (count ≤ limit ∧ count ≤ maxSize)) (calls : Nat) (stream : Stream) :
    ∃ failure after, failure ≠ .hangs ∧
      connRecv recv count (calls, stream) = .error failure after := by
  by_cases fits : count ≤ maxSize
  · have beyond : limit < count := Nat.lt_of_not_le fun within => refused ⟨within, fits⟩
    rw [connRecv_eq fits, Reader.recv]
    simp only [affords.fails calls beyond fits]
    exact ⟨.socketError, _, by decide, rfl⟩
  · rw [connRecv, if_pos (Nat.lt_of_not_le fits)]
    exact ⟨.overflowError, _, by decide, rfl⟩

theorem receive_closed (affords : Affords recv limit) (within : size ≤ limit)
    (fits : size ≤ maxSize) (rounds calls : Nat) (buffer bytes : Bytes)
    (begun : buffer.length ≤ size) :
    (min rounds bytes.length < size - buffer.length ∧
      ∃ after, receive recv size rounds buffer (calls, ⟨bytes, .closed⟩) =
        .error .hangs after) ∨
      size ≤ buffer.length + bytes.length ∧ ∃ calls',
        receive recv size rounds buffer (calls, ⟨bytes, .closed⟩) =
          .ok (buffer ++ bytes.take (size - buffer.length))
            (calls', ⟨bytes.drop (size - buffer.length), .closed⟩) := by
  induction rounds generalizing calls buffer bytes with
  | zero =>
      rw [receive]
      by_cases full : size = buffer.length
      · right
        rw [if_pos full, full, Nat.sub_self, List.take_zero, List.drop_zero, List.append_nil]
        exact ⟨Nat.le_add_right _ _, calls, rfl⟩
      · left
        rw [if_neg full]
        exact ⟨by omega, _, rfl⟩
  | succ rounds induction =>
      rw [receive]
      by_cases full : size = buffer.length
      · right
        rw [if_pos full, full, Nat.sub_self, List.take_zero, List.drop_zero, List.append_nil]
        exact ⟨Nat.le_add_right _ _, calls, rfl⟩
      · rw [if_neg full]
        rcases connRecv_closed affords (show 0 < size - buffer.length by omega) (by omega)
          (by omega) calls bytes with ⟨moved, some', bounded, read⟩
        rw [Reader.bind_apply_of_ok read]
        have grown : (buffer ++ bytes.take moved).length =
            buffer.length + min moved bytes.length := by
          rw [List.length_append, List.length_take]
        have onwards := induction (calls + 1) (buffer ++ bytes.take moved) (bytes.drop moved)
          (by omega)
        rcases onwards with ⟨short, hangs⟩ | ⟨enough, calls', collected⟩
        · left
          rw [grown, List.length_drop] at short
          exact ⟨by omega, hangs⟩
        · right
          rw [grown, List.length_drop] at enough
          have exactly : min moved bytes.length = moved := by omega
          rw [grown, exactly] at collected
          have split : size - buffer.length = moved + (size - (buffer.length + moved)) := by
            omega
          refine ⟨by omega, calls', ?_⟩
          rw [collected, split, List.take_add, List.append_assoc, List.drop_drop]

theorem readStreamWithin_closed (affords : Affords recv limit) (within : size ≤ limit)
    (fits : size ≤ maxSize) (rounds : Nat → Nat) (calls : Nat) (bytes : Bytes) :
    (min (rounds size) bytes.length < size ∧
      ∃ after, readStreamWithin rounds recv size (calls, ⟨bytes, .closed⟩) =
        .error .hangs after) ∨
      size ≤ bytes.length ∧ ∃ calls',
        readStreamWithin rounds recv size (calls, ⟨bytes, .closed⟩) =
          .ok (bytes.take size) (calls', ⟨bytes.drop size, .closed⟩) := by
  have closed := receive_closed affords within fits (rounds size) calls [] bytes
    (Nat.zero_le size)
  rwa [List.length_nil, Nat.sub_zero, Nat.zero_add, List.nil_append] at closed

theorem readStreamWithin_refused (affords : Affords recv limit)
    (refused : ¬ (size ≤ limit ∧ size ≤ maxSize)) {rounds : Nat → Nat}
    (once : min size 1 ≤ rounds size) (calls : Nat) (stream : Stream) :
    ∃ failure after, failure ≠ .hangs ∧
      readStreamWithin rounds recv size (calls, stream) = .error failure after := by
  rcases connRecv_refused affords refused calls stream with ⟨failure, after, ended, failed⟩
  have waits : size ≠ ([] : Bytes).length := by
    rintro rfl
    exact refused ⟨Nat.zero_le _, Nat.zero_le _⟩
  have positive : 1 ≤ rounds size := by
    rw [List.length_nil] at waits
    omega
  rcases Nat.exists_eq_add_of_le' positive with ⟨more, isMore⟩
  refine ⟨failure, after, ended, ?_⟩
  rw [readStreamWithin, isMore, receive, if_neg waits]
  exact Reader.bind_apply_of_error failed

end Reads

namespace AsksFor

variable {recv : Pieces} {limit size : Nat} {bytes : Bytes}

theorem pure (value : α) (bytes : Bytes) : AsksFor (fun _ => Pure.pure value) bytes 0 where
  ends _ := by
    refine ⟨0, ?_⟩
    intro rounds enough calls after same
    cases same
  endless short := absurd short (Nat.not_lt_zero _)

theorem throw {code : Failure} (ended : code ≠ .hangs) (bytes : Bytes) :
    AsksFor (fun _ => (MonadExcept.throw code : ConnReader α)) bytes 0 where
  ends _ := by
    refine ⟨0, ?_⟩
    intro rounds enough calls after same
    cases same
    exact ended rfl
  endless short := absurd short (Nat.not_lt_zero _)

theorem read (affords : Affords recv limit) (within : size ≤ limit) (fits : size ≤ maxSize)
    (next : (Nat → Nat) → Bytes → ConnReader α) {count : Nat}
    (onwards : AsksFor (fun rounds => next rounds (bytes.take size)) (bytes.drop size) count) :
    AsksFor (fun rounds => readStreamWithin rounds recv size >>= next rounds) bytes
      (size + count) where
  ends enough := by
    rcases onwards.ends (by rw [List.length_drop]; omega) with ⟨bound, ends⟩
    refine ⟨max size bound, ?_⟩
    intro rounds bounded calls after
    rcases readStreamWithin_closed affords within fits rounds calls bytes with
      ⟨short, _⟩ | ⟨_, calls', read⟩
    · have granted := bounded size
      omega
    · rw [Reader.bind_apply_of_ok read]
      refine ends rounds (fun size' => ?_) calls' after
      exact (min_le_min_left size' (le_max_right size bound)).trans (bounded size')
  endless short := by
    intro rounds calls
    rcases readStreamWithin_closed affords within fits rounds calls bytes with
      ⟨_, after, hangs⟩ | ⟨sent, calls', read⟩
    · exact ⟨after, Reader.bind_apply_of_error hangs⟩
    · rw [Reader.bind_apply_of_ok read]
      apply onwards.endless
      rw [List.length_drop]
      omega

theorem refused (affords : Affords recv limit) (refused : ¬ (size ≤ limit ∧ size ≤ maxSize))
    (next : (Nat → Nat) → Bytes → ConnReader α) :
    AsksFor (fun rounds => readStreamWithin rounds recv size >>= next rounds) bytes 0 where
  ends _ := by
    refine ⟨1, ?_⟩
    intro rounds bounded calls after same
    rcases readStreamWithin_refused affords refused (bounded size) calls ⟨bytes, .closed⟩ with
      ⟨failure, after', ended, failed⟩
    rw [Reader.bind_apply_of_error failed] at same
    cases same
    exact ended rfl
  endless short := absurd short (Nat.not_lt_zero _)

theorem readField (affords : Affords recv limit) (within : size ≤ limit) (fits : size ≤ maxSize)
    (next : (Nat → Nat) → Nat → ConnReader α) {count : Nat}
    (onwards : AsksFor (fun rounds => next rounds (ofBigEndian (bytes.take size)))
      (bytes.drop size) count) :
    AsksFor (fun rounds => (do return ofBigEndian (← readStreamWithin rounds recv size)) >>=
      next rounds) bytes (size + count) := by
  have stages := read affords within fits (fun rounds part => next rounds (ofBigEndian part))
    onwards
  simpa using stages

/-- A digest, and what is waited for of a payload of that size. -/
theorem data (affords : Affords recv limit) (header : 255 ≤ limit)
    (response : Bytes → Bytes → α) :
    AsksFor (fun rounds => do
        let digest ← readStreamWithin rounds recv RespHeader.sha256Digest
        let payload ← readStreamWithin rounds recv size
        return response digest payload) bytes
      (RespHeader.sha256Digest + awaited limit size) := by
  apply read affords (le_trans (by decide) header) (by decide)
  rw [awaited]
  split
  · rename_i taken
    rw [← Nat.add_zero size]
    exact read affords taken.1 taken.2 _ (pure _ _)
  · rename_i refused'
    exact refused affords refused' _

theorem endsAt_iff {reader : (Nat → Nat) → ConnReader α} {count : Nat}
    (asks : AsksFor reader bytes count) (calls : Nat) :
    EndsAt reader calls ⟨bytes, .closed⟩ ↔ count ≤ bytes.length := by
  constructor
  · intro ends
    rcases ends with ⟨rounds, ends⟩
    by_contra short
    rcases asks.endless (Nat.lt_of_not_le short) (fun _ => rounds) calls with ⟨after, hangs⟩
    exact ends after hangs
  · intro enough
    rcases asks.ends enough with ⟨bound, ends⟩
    exact ⟨bound, ends _ (fun size => min_le_right size bound) calls⟩

theorem hangs_iff {reader : (Nat → Nat) → ConnReader α} {count : Nat}
    (asks : AsksFor reader bytes count) (calls : Nat) :
    (∃ after, reader id (calls, ⟨bytes, .closed⟩) = .error .hangs after) ↔
      bytes.length < count := by
  constructor
  · rintro ⟨after, hangs⟩
    by_contra enough
    rcases asks.ends (Nat.le_of_not_lt enough) with ⟨bound, ends⟩
    exact ends id (fun size => min_le_left size bound) calls after hangs
  · intro short
    exact asks.endless short id calls

end AsksFor

/-! ## The whole response -/

/-- Behind the message, the client asks for what the fields promise. -/
theorem connectWithin_asks {recv : Pieces} {limit : Nat} (affords : Affords recv limit)
    (header : 255 ≤ limit) (bytes : Bytes) :
    AsksFor (fun rounds => connectWithin rounds recv) bytes (asked limit bytes) := by
  generalize isCode : ofBigEndian (bytes.take 1) = returnCode
  generalize isPayloadLen : ofBigEndian ((bytes.drop 6).take 8) = payloadLen
  generalize isMsgLen : ofBigEndian ((bytes.drop 14).take 1) = msgLen
  generalize isMsg : (bytes.drop 15).take msgLen = msg
  have short : msgLen ≤ 255 := by
    have bound := ofBigEndian_lt ((bytes.drop 14).take 1)
    have single : 256 ^ ((bytes.drop 14).take 1).length ≤ 256 ^ 1 :=
      Nat.pow_le_pow_right (by decide) (List.length_take_le _ _)
    omega
  have small : ∀ {size : Nat}, size ≤ 255 → size ≤ limit ∧ size ≤ maxSize := fun bound =>
    ⟨bound.trans header, bound.trans (by decide)⟩
  have total : asked limit bytes =
      1 + (1 + (4 + (8 + (1 + (msgLen +
        askedBehind limit returnCode payloadLen msgLen msg))))) := by
    simp only [asked, fixedLength, RespHeader.returnCode, RespHeader.reserved,
      RespHeader.sessionId, RespHeader.payloadLen, RespHeader.msgLen, Nat.reduceAdd,
      Nat.reduceSub, isCode, isPayloadLen, isMsgLen, isMsg]
    omega
  rw [total]
  unfold connectWithin connectOver
  iterate 5
    apply AsksFor.readField affords (small (by decide)).1 (small (by decide)).2
  simp only [List.drop_drop, RespHeader.returnCode, RespHeader.reserved, RespHeader.sessionId,
    RespHeader.payloadLen, RespHeader.msgLen, Nat.reduceAdd, isCode, isPayloadLen, isMsgLen]
  apply AsksFor.read affords (small short).1 (small short).2
  rw [isMsg]
  cases decoded : decodeUtf8 msg with
  | none =>
      have nothing : askedBehind limit returnCode payloadLen msgLen msg = 0 := by
        simp [askedBehind, decoded]
      rw [nothing]
      simp only [decodeMsg, decoded]
      exact AsksFor.throw (by decide) _
  | some text =>
      simp only [decodeMsg, decoded, pure_bind]
      by_cases success : successResponse = returnCode
      · simp only [success, if_true]
        by_cases present : msgLen + RespHeader.msgLen + RespHeader.sha256Digest < payloadLen
        · have promised : askedBehind limit returnCode payloadLen msgLen msg =
              RespHeader.sha256Digest + awaited limit
                (payloadLen - (msgLen + RespHeader.msgLen + RespHeader.sha256Digest)) := by
            simp [askedBehind, decoded, success, present]
          have positive : (payloadLen : Int) - (msgLen + 1 + RespHeader.sha256Digest) > 0 := by
            simp only [RespHeader.msgLen] at present
            omega
          have streamSize : ((payloadLen : Int) - (msgLen + 1 + RespHeader.sha256Digest)).toNat =
              payloadLen - (msgLen + RespHeader.msgLen + RespHeader.sha256Digest) := by
            simp only [RespHeader.msgLen]
            omega
          rw [promised]
          simp only [Nat.cast_one, positive, if_true, streamSize]
          exact AsksFor.data affords header _
        · have nothing : askedBehind limit returnCode payloadLen msgLen msg = 0 := by
            simp [askedBehind, present]
          have exhausted : ¬ (payloadLen : Int) - (msgLen + 1 + RespHeader.sha256Digest) > 0 := by
            simp only [RespHeader.msgLen] at present
            omega
          rw [nothing]
          simp only [Nat.cast_one, exhausted, if_false]
          apply AsksFor.pure
      · have nothing : askedBehind limit returnCode payloadLen msgLen msg = 0 := by
          simp [askedBehind, Ne.symm success]
        rw [nothing]
        simp only [success, if_false]
        apply AsksFor.pure

/-- A round for each byte is enough wherever any number of rounds is, so that `connect` hangs
just where the client reads for ever. -/
theorem connect_hangs_iff {recv : Pieces} {limit : Nat} (affords : Affords recv limit)
    (header : 255 ≤ limit) (bytes : Bytes) (calls : Nat) :
    (∃ after, connect recv (calls, ⟨bytes, .closed⟩) = .error .hangs after) ↔
      bytes.length < asked limit bytes := by
  rw [connect_eq]
  exact (connectWithin_asks affords header bytes).hangs_iff calls

/-- Over a connection that is closed behind these bytes, the client comes to an end if
and only if they are as many as it waits for. -/
theorem connect_ends_iff {recv : Pieces} {limit : Nat} (affords : Affords recv limit)
    (header : 255 ≤ limit) (bytes : Bytes) (calls : Nat) :
    EndsAt (fun rounds => connectWithin rounds recv) calls ⟨bytes, .closed⟩ ↔
      asked limit bytes ≤ bytes.length :=
  (connectWithin_asks affords header bytes).endsAt_iff calls

theorem connect_ends_promised :
    EndsAt (fun rounds => connectWithin rounds .bytewise) 0
      ⟨[1, 0, 0, 0, 0, 0] ++ List.replicate 8 255 ++ List.replicate 33 0, .closed⟩ :=
  (connect_ends_iff (Affords.of_unfailing Pieces.bytewise_unfailing) (by decide) _ 0).mpr
    (by decide)

theorem closed_at_once_never_ends :
    ¬ EndsAt (fun rounds => connectWithin rounds .bytewise) 0 ⟨[], .closed⟩ := by
  intro ends
  have asks := connectWithin_asks (Affords.of_unfailing Pieces.bytewise_unfailing) (by decide) []
  have sent := (asks.endsAt_iff 0).mp ends
  revert sent
  decide

end FileTransfer

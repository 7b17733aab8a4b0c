import FileTransfer.Foundation.Fallible
import FileTransfer.Foundation.Pieces
import FileTransfer.Server.Sock

/-! # `write_response`

The packet is laid out in one buffer and sent in two loops, first the message and
then, from where the first loop stopped, the file.
-/

namespace FileTransfer

open Foundation Posix

def hReturnCode : Nat := 1
def hRespReserved : Nat := 1
def hMsgLen : Nat := 1

def maxMsgSize : Nat := 2048
def maxFileSize : Nat := 1016

def getBaseRespSize : Nat :=
  hReturnCode + hRespReserved + hSessionId + hPayloadLen + hMsgLen

/-! ## Laying out -/

def memcpy (buffer : Bytes) (offset : Nat) (bytes : Bytes) : Except Fault Bytes :=
  if buffer.length < offset + bytes.length then .error .bufferOverflow
  else .ok (buffer.take offset ++ bytes ++ buffer.drop (offset + bytes.length))

def dataStreamSize (response : ActResp) : Nat :=
  match response.content with
  | none => 0
  | some content => content.stream.length + content.hash.length

def respPayloadLen (response : ActResp) : Nat :=
  response.msg.length + hMsgLen + dataStreamSize response

def pktMsgSize (response : ActResp) : Nat :=
  getBaseRespSize + response.msg.length + dataStreamSize response

/-- The buffer that is sent. Of the length of the message the low-order byte is
copied, the first of a little-endian machine. -/
def layOut (response : ActResp) (sessionId : UInt32) : Except Fault Bytes := do
  let stream := List.replicate (pktMsgSize response) 0
  let offset := 0
  let stream ← memcpy stream offset [response.result.toByte]
  let offset := offset + hReturnCode
  let stream ← memcpy stream offset [0]
  let offset := offset + hRespReserved
  let stream ← memcpy stream offset (toBigEndian hSessionId sessionId.toNat)
  let offset := offset + hSessionId
  let stream ← memcpy stream offset (toBigEndian hPayloadLen (respPayloadLen response))
  let offset := offset + hPayloadLen
  let stream ← memcpy stream offset [UInt8.ofNat response.msg.length]
  let offset := offset + hMsgLen
  let stream ← memcpy stream offset response.msg
  let offset := offset + response.msg.length
  match response.content with
  | none => return stream
  | some content =>
      let stream ← memcpy stream offset content.hash
      let offset := offset + content.hash.length
      memcpy stream offset content.stream

def respHeader (response : ActResp) (sessionId : UInt32) : Bytes :=
  [response.result.toByte] ++ [0] ++ toBigEndian hSessionId sessionId.toNat ++
    toBigEndian hPayloadLen (respPayloadLen response) ++
    [UInt8.ofNat response.msg.length]

def respData (response : ActResp) : Bytes :=
  match response.content with
  | none => []
  | some content => content.hash ++ content.stream

def respBytes (response : ActResp) (sessionId : UInt32) : Bytes :=
  respHeader response sessionId ++ response.msg ++ respData response

@[simp] theorem respHeader_length (response : ActResp) (sessionId : UInt32) :
    (respHeader response sessionId).length = getBaseRespSize := by
  simp only [respHeader, List.length_append, List.length_singleton, toBigEndian_length]
  rfl

theorem respData_length (response : ActResp) :
    (respData response).length = dataStreamSize response := by
  rw [respData, dataStreamSize]
  split
  · rfl
  · rw [List.length_append, Nat.add_comm]

@[simp] theorem respBytes_length (response : ActResp) (sessionId : UInt32) :
    (respBytes response sessionId).length = pktMsgSize response := by
  rw [respBytes, List.length_append, List.length_append, respHeader_length,
    respData_length, pktMsgSize]

def partlyFilled (total : Nat) (front : Bytes) : Bytes :=
  front ++ List.replicate (total - front.length) 0

theorem memcpy_partlyFilled {front bytes : Bytes} {total offset : Nat}
    (filled : offset = front.length) (fits : front.length + bytes.length ≤ total) :
    memcpy (partlyFilled total front) offset bytes =
      .ok (partlyFilled total (front ++ bytes)) := by
  subst filled
  have enough : ¬ (partlyFilled total front).length < front.length + bytes.length := by
    rw [partlyFilled, List.length_append, List.length_replicate]
    omega
  rw [memcpy, if_neg enough, partlyFilled, partlyFilled, List.take_left, List.drop_append,
    List.drop_eq_nil_of_le (by omega), List.nil_append, Nat.add_sub_cancel_left,
    List.drop_replicate, List.length_append, Nat.sub_sub]

@[simp] theorem partlyFilled_whole (front : Bytes) :
    partlyFilled front.length front = front := by
  simp [partlyFilled]

theorem memcpy_bind {front bytes result : Bytes} {total offset : Nat}
    {next : Bytes → Except Fault Bytes} (filled : offset = front.length)
    (fits : front.length + bytes.length ≤ total)
    (goesOn : next (partlyFilled total (front ++ bytes)) = .ok result) :
    (memcpy (partlyFilled total front) offset bytes >>= next) = .ok result := by
  rw [memcpy_partlyFilled filled fits, Fallible.ok_bind, goesOn]

/-- The offsets that are kept by hand put every field where it belongs. -/
theorem layOut_eq (response : ActResp) (sessionId : UInt32) :
    layOut response sessionId = .ok (respBytes response sessionId) := by
  have total : pktMsgSize response =
      1 + 1 + hSessionId + hPayloadLen + 1 + response.msg.length +
        dataStreamSize response := rfl
  have start : List.replicate (pktMsgSize response) (0 : UInt8) =
      partlyFilled (pktMsgSize response) [] := rfl
  have first : hReturnCode = 1 ∧ hRespReserved = 1 ∧ hMsgLen = 1 := ⟨rfl, rfl, rfl⟩
  rcases first with ⟨codeWidth, reservedWidth, lenWidth⟩
  rw [layOut, start]
  -- field by field: each is copied to where the fields before it end
  refine memcpy_bind rfl (by simp [total]; omega) ?_
  refine memcpy_bind (by simp [codeWidth]) (by simp [total]; omega) ?_
  refine memcpy_bind (by simp [codeWidth, reservedWidth]) (by simp [total]; omega) ?_
  refine memcpy_bind (by simp [codeWidth, reservedWidth]; omega) (by simp [total]; omega) ?_
  refine memcpy_bind (by simp [codeWidth, reservedWidth]; omega) (by simp [total]; omega) ?_
  refine memcpy_bind (by simp [codeWidth, reservedWidth, lenWidth]; omega)
    (by simp [total]; omega) ?_
  have header : [] ++ [response.result.toByte] ++ [0] ++ toBigEndian hSessionId sessionId.toNat ++
      toBigEndian hPayloadLen (respPayloadLen response) ++
      [UInt8.ofNat response.msg.length] = respHeader response sessionId := rfl
  have offset : 0 + hReturnCode + hRespReserved + hSessionId + hPayloadLen + hMsgLen =
      getBaseRespSize := rfl
  rw [header, offset]
  have whole := respBytes_length response sessionId
  rw [respBytes] at whole ⊢
  cases carried : response.content with
  | none =>
      simp only [respData, carried, List.append_nil] at whole ⊢
      rw [← whole, partlyFilled_whole]
      rfl
  | some content =>
      simp only [respData, carried, ← List.append_assoc] at whole ⊢
      rw [← whole]
      refine memcpy_bind (by simp) (by simp; omega) ?_
      rw [memcpy_partlyFilled (by simp; omega) (by simp; omega), partlyFilled_whole]

/-! ## Sending -/

structure Sending where
  calls : Nat := 0
  offset : Nat := 0
  wire : Bytes := []
deriving DecidableEq

def sendSize (maxSize left : Nat) : Nat := if left < maxSize then left else maxSize

/-- One of the two loops, with the bytes it has sent so far out of `total`. Every call
that does not fail sends something, so there are never more rounds than bytes. The
result tells whether everything was sent. -/
def sendLoop (write : Pieces) (maxSize : Nat) (stream : Bytes) (total : Nat) :
    (rounds : Nat) → (totalSent : Nat) → Sending → Except Fault (Bool × Sending)
  | 0, _, _ => .error .noProgress
  | rounds + 1, totalSent, sending =>
      let size := sendSize maxSize (total - totalSent)
      if stream.length < sending.offset + size then .error .overread
      else
        match write.moved sending.calls size with
        | none => .ok (false, { sending with calls := sending.calls + 1 })
        | some sentBytes =>
            let sending : Sending :=
              { calls := sending.calls + 1
                offset := sending.offset + sentBytes
                wire := sending.wire ++ (stream.drop sending.offset).take sentBytes }
            if totalSent + sentBytes = total then .ok (true, sending)
            else sendLoop write maxSize stream total rounds (totalSent + sentBytes) sending

def writeResponse (write : Pieces) (calloc : Bool) (response : ActResp)
    (sessionId : UInt32) : Except Fault (Bool × Sending) :=
  if calloc = false then .ok (false, {})
  else do
    let stream ← layOut response sessionId
    let size := dataStreamSize response
    let total := pktMsgSize response - size
    match ← sendLoop write maxMsgSize stream total total 0 {} with
    | (false, sending) => return (false, sending)
    | (true, sending) =>
        if size > 0 then sendLoop write maxFileSize stream size size 0 sending
        else return (true, sending)

/-! ## What is sent -/

theorem sendSize_bounds {maxSize left : Nat} (limit : 0 < maxSize) (unsent : 0 < left) :
    0 < sendSize maxSize left ∧ sendSize maxSize left ≤ left := by
  rw [sendSize]
  split <;> omega

theorem sendLoop_sends {write : Pieces} (unfailing : write.Unfailing) {maxSize : Nat}
    (limit : 0 < maxSize) (stream : Bytes) (total rounds totalSent : Nat)
    (sending : Sending) (unsent : totalSent < total) (enough : total - totalSent ≤ rounds)
    (within : sending.offset + (total - totalSent) ≤ stream.length) :
    ∃ calls, sendLoop write maxSize stream total rounds totalSent sending =
      .ok (true, ⟨calls, sending.offset + (total - totalSent),
        sending.wire ++ (stream.drop sending.offset).take (total - totalSent)⟩) := by
  induction rounds generalizing totalSent sending with
  | zero => omega
  | succ rounds induction =>
      rcases sendSize_bounds limit (show 0 < total - totalSent by omega) with
        ⟨positive, atMost⟩
      rcases unfailing.moves sending.calls positive with ⟨count, moved, some', bounded⟩
      have inside : ¬ stream.length <
          sending.offset + sendSize maxSize (total - totalSent) := by omega
      simp only [sendLoop, if_neg inside, moved]
      by_cases done : totalSent + count = total
      · rw [if_pos done]
        have all : total - totalSent = count := by omega
        exact ⟨_, by rw [all]⟩
      · rw [if_neg done]
        -- What is left for the later rounds begins where this piece ends.
        have later := induction (totalSent + count)
          ⟨sending.calls + 1, sending.offset + count,
            sending.wire ++ (stream.drop sending.offset).take count⟩
          (by omega) (by omega) (by simp only; omega)
        rcases later with ⟨calls, sent⟩
        refine ⟨calls, sent.trans ?_⟩
        have left : total - totalSent = count + (total - (totalSent + count)) := by omega
        rw [left, List.take_add, List.drop_drop, List.append_assoc, Nat.add_assoc]

theorem writeResponse_sends {write : Pieces} (unfailing : write.Unfailing)
    (response : ActResp) (sessionId : UInt32) :
    ∃ calls, writeResponse write true response sessionId =
      .ok (true, ⟨calls, pktMsgSize response, respBytes response sessionId⟩) := by
  have length := respBytes_length response sessionId
  have base : 0 < getBaseRespSize := by decide
  have parts : pktMsgSize response - dataStreamSize response =
      getBaseRespSize + response.msg.length := by
    rw [pktMsgSize]
    omega
  have total : pktMsgSize response =
      (getBaseRespSize + response.msg.length) + dataStreamSize response := rfl
  rcases sendLoop_sends unfailing (show 0 < maxMsgSize by decide)
    (respBytes response sessionId) (getBaseRespSize + response.msg.length)
    (getBaseRespSize + response.msg.length) 0 {} (by omega) (le_refl _) (by simp only; omega) with
    ⟨calls, first⟩
  simp only [writeResponse, Bool.true_eq_false, if_false, layOut_eq, Fallible.ok_bind, parts]
  rw [first, Fallible.ok_bind]
  simp only [Nat.zero_add, Nat.sub_zero, List.drop_zero, List.nil_append]
  by_cases data : dataStreamSize response > 0
  · rw [if_pos data]
    rcases sendLoop_sends unfailing (show 0 < maxFileSize by decide)
      (respBytes response sessionId) (dataStreamSize response) (dataStreamSize response) 0
      ⟨calls, getBaseRespSize + response.msg.length,
        (respBytes response sessionId).take (getBaseRespSize + response.msg.length)⟩
      data (le_refl _) (by simp only; omega) with ⟨calls', second⟩
    refine ⟨calls', second.trans ?_⟩
    simp only [Nat.sub_zero, ← total]
    rw [← List.take_add, ← total, ← length, List.take_length]
  · rw [if_neg data]
    have isAll : getBaseRespSize + response.msg.length = pktMsgSize response := by omega
    refine ⟨calls, ?_⟩
    rw [isAll, ← length, List.take_length]
    rfl

/-! ## What is sent if a call fails -/

theorem sendLoop_part (write : Pieces) {maxSize : Nat} (limit : 0 < maxSize) (stream : Bytes)
    (total rounds totalSent : Nat) (sending : Sending) (unsent : totalSent < total)
    (enough : total - totalSent ≤ rounds)
    (within : sending.offset + (total - totalSent) ≤ stream.length) :
    ∃ whole part calls, part <+: (stream.drop sending.offset).take (total - totalSent) ∧
      (whole = true → part = (stream.drop sending.offset).take (total - totalSent)) ∧
      sendLoop write maxSize stream total rounds totalSent sending =
        .ok (whole, ⟨calls, sending.offset + part.length, sending.wire ++ part⟩) := by
  induction rounds generalizing totalSent sending with
  | zero => omega
  | succ rounds induction =>
      rcases sendSize_bounds limit (show 0 < total - totalSent by omega) with
        ⟨positive, atMost⟩
      have inside : ¬ stream.length <
          sending.offset + sendSize maxSize (total - totalSent) := by omega
      simp only [sendLoop, if_neg inside]
      cases moved : write.moved sending.calls (sendSize maxSize (total - totalSent)) with
      | none => exact ⟨false, [], sending.calls + 1, List.nil_prefix, by simp, by simp⟩
      | some count =>
          rcases write.inRange positive moved with ⟨some', bounded⟩
          have pieceLength : ((stream.drop sending.offset).take count).length = count := by
            rw [List.length_take, List.length_drop]
            omega
          dsimp only
          by_cases done : totalSent + count = total
          · have all : total - totalSent = count := by omega
            rw [if_pos done, all]
            exact ⟨true, (stream.drop sending.offset).take count, _, List.prefix_rfl,
              fun _ => rfl, by rw [pieceLength]⟩
          · rw [if_neg done]
            have later := induction (totalSent + count)
              ⟨sending.calls + 1, sending.offset + count,
                sending.wire ++ (stream.drop sending.offset).take count⟩
              (by omega) (by omega) (by simp only; omega)
            rcases later with ⟨whole, part, calls, isPart, all, sent⟩
            have left : total - totalSent = count + (total - (totalSent + count)) := by omega
            have joined : (stream.drop sending.offset).take (total - totalSent) =
                (stream.drop sending.offset).take count ++
                  (stream.drop (sending.offset + count)).take (total - (totalSent + count)) := by
              rw [left, List.take_add, List.drop_drop]
            refine ⟨whole, (stream.drop sending.offset).take count ++ part, calls, ?_, ?_, ?_⟩
            · rw [joined]
              exact (List.prefix_append_right_inj _).mpr isPart
            · intro isWhole
              rw [joined, all isWhole]
            · rw [sent, List.length_append, pieceLength, List.append_assoc, Nat.add_assoc]

theorem writeResponse_part (write : Pieces) (calloc : Bool) (response : ActResp)
    (sessionId : UInt32) :
    ∃ whole sending, writeResponse write calloc response sessionId = .ok (whole, sending) ∧
      sending.wire <+: respBytes response sessionId ∧
      (whole = true → sending.wire = respBytes response sessionId) := by
  have length := respBytes_length response sessionId
  have base : 0 < getBaseRespSize := by decide
  have parts : pktMsgSize response - dataStreamSize response =
      getBaseRespSize + response.msg.length := by
    rw [pktMsgSize]
    omega
  have total : pktMsgSize response =
      (getBaseRespSize + response.msg.length) + dataStreamSize response := rfl
  cases calloc with
  | false => exact ⟨false, {}, rfl, List.nil_prefix, by simp⟩
  | true =>
      rcases sendLoop_part write (show 0 < maxMsgSize by decide) (respBytes response sessionId)
        (getBaseRespSize + response.msg.length) (getBaseRespSize + response.msg.length) 0 {}
        (by omega) (le_refl _) (by simp only; omega) with
        ⟨whole, part, calls, isPart, all, first⟩
      simp only [Nat.sub_zero, List.drop_zero] at isPart all
      simp only [List.nil_append] at first
      simp only [writeResponse, Bool.true_eq_false, if_false, layOut_eq, Fallible.ok_bind, parts]
      rw [first, Fallible.ok_bind]
      cases whole with
      | false =>
          exact ⟨false, _, rfl, isPart.trans (List.take_prefix _ _), by simp⟩
      | true =>
          cases all rfl
          by_cases data : dataStreamSize response > 0
          · have front : ((respBytes response sessionId).take
                (getBaseRespSize + response.msg.length)).length =
                  getBaseRespSize + response.msg.length := by
              rw [List.length_take]
              omega
            rcases sendLoop_part write (show 0 < maxFileSize by decide)
              (respBytes response sessionId) (dataStreamSize response)
              (dataStreamSize response) 0
              ⟨calls, getBaseRespSize + response.msg.length,
                (respBytes response sessionId).take
                  (getBaseRespSize + response.msg.length)⟩
              data (le_refl _) (by simp only; omega) with
              ⟨whole, part, calls', isPart, all, second⟩
            simp only [Nat.sub_zero] at isPart all
            have joined : (respBytes response sessionId).take
                  (getBaseRespSize + response.msg.length) ++
                ((respBytes response sessionId).drop
                  (getBaseRespSize + response.msg.length)).take (dataStreamSize response) =
                respBytes response sessionId := by
              rw [← List.take_add, ← total, ← length, List.take_length]
            simp only [front, Nat.zero_add, if_pos data]
            rw [second]
            refine ⟨whole, _, rfl, ?_, ?_⟩
            · conv_rhs => rw [← joined]
              exact (List.prefix_append_right_inj _).mpr isPart
            · intro isWhole
              rw [all isWhole]
              exact joined
          · have isAll : getBaseRespSize + response.msg.length = pktMsgSize response := by omega
            simp only [if_neg data]
            refine ⟨true, _, rfl, List.take_prefix _ _, fun _ => ?_⟩
            simp only
            rw [isAll, ← length, List.take_length]

end FileTransfer

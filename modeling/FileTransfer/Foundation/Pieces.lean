import FileTransfer.Foundation.ByteReader

/-! # Bytes that move in pieces

`write` and `recv` move some of the bytes they are asked to move. All that is known of
a call that does not fail is that it moves at least one.
-/

namespace Foundation

/-- What successive calls move: the number of the call and the size it is asked for
decide, and `none` is a call that fails. -/
structure Pieces where
  moved : (call asked : Nat) → Option Nat
  inRange : ∀ {call asked count : Nat}, 0 < asked → moved call asked = some count →
    0 < count ∧ count ≤ asked

namespace Pieces

def Unfailing (pieces : Pieces) : Prop :=
  ∀ call asked, 0 < asked → ∃ count, pieces.moved call asked = some count

theorem Unfailing.moves {pieces : Pieces} (unfailing : pieces.Unfailing) (call : Nat)
    {asked : Nat} (positive : 0 < asked) :
    ∃ count, pieces.moved call asked = some count ∧ 0 < count ∧ count ≤ asked := by
  rcases unfailing call asked positive with ⟨count, moved⟩
  exact ⟨count, moved, pieces.inRange positive moved⟩

def bytewise : Pieces where
  moved _ _ := some 1
  inRange positive moved := by
    cases moved
    exact ⟨Nat.one_pos, positive⟩

theorem bytewise_unfailing : bytewise.Unfailing := fun _ _ _ => ⟨1, rfl⟩

end Pieces

namespace Reader

variable {ε : Type}

/-- One call of `recv`: of the bytes that are there, those that the call moves, and
none once the stream is closed. The state counts the calls. -/
def recv (pieces : Pieces) (failed : ε) (asked : Nat) : Reader ε Nat Bytes :=
  fun (calls, stream) =>
    match pieces.moved calls asked with
    | none => .error failed (calls + 1, stream)
    | some count =>
        if stream.bytes = [] ∧ stream.ending ≠ .closed then .error failed (calls + 1, stream)
        else .ok (stream.bytes.take (min count asked))
          (calls + 1, ⟨stream.bytes.drop (min count asked), stream.ending⟩)

theorem recv_part {pieces : Pieces} (unfailing : pieces.Unfailing) (failed : ε)
    {asked : Nat} {bytes : Bytes} (counted : bytes.length = asked) (positive : 0 < asked)
    (calls : Nat) (rest : Bytes) (ending : StreamEnd) :
    ∃ part later, bytes = part ++ later ∧ 0 < part.length ∧
      recv pieces failed asked (calls, ⟨bytes ++ rest, ending⟩) =
        .ok part (calls + 1, ⟨later ++ rest, ending⟩) := by
  rcases unfailing.moves calls positive with ⟨count, moved, some', bounded⟩
  have nonempty : bytes ++ rest ≠ [] := by
    rintro isNil
    rw [(List.append_eq_nil_iff.mp isNil).1] at counted
    exact absurd counted (by simp; omega)
  refine ⟨bytes.take count, bytes.drop count, (List.take_append_drop _ _).symm, ?_, ?_⟩
  · rw [List.length_take]
    omega
  · have within : count ≤ bytes.length := by omega
    simp only [recv, moved, nonempty, false_and, if_false, Nat.min_eq_left bounded,
      List.take_append_of_le_length within, List.drop_append_of_le_length within]

end Reader

end Foundation

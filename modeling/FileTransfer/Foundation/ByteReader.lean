import FileTransfer.Foundation.ByteString

/-! # Readers of a byte stream

A reader consumes bytes from the front of a stream that may end before it is
satisfied. Readers that succeed look only at what they consume; that one fact
rules out success on a truncated message.
-/

namespace Foundation

inductive StreamEnd
  | closed
  | timedOut
  | failed
deriving DecidableEq

structure Stream where
  bytes : Bytes
  ending : StreamEnd
deriving DecidableEq

def Stream.append (stream : Stream) (later : Stream) : Stream :=
  ⟨stream.bytes ++ later.bytes, later.ending⟩

abbrev Reader (ε σ : Type) := EStateM ε (σ × Stream)

namespace Reader

variable {ε σ α β : Type}

def takeFrom (onEnd : StreamEnd → ε) : (count : Nat) → Stream →
    Except ε Bytes × Stream
  | 0, stream => (.ok [], stream)
  | count + 1, stream =>
      match stream.bytes with
      | [] => (.error (onEnd stream.ending), stream)
      | byte :: rest =>
          match takeFrom onEnd count ⟨rest, stream.ending⟩ with
          | (.ok bytes, stream) => (.ok (byte :: bytes), stream)
          | (.error code, stream) => (.error code, stream)

def take (onEnd : StreamEnd → ε) (count : Nat) : Reader ε σ Bytes :=
  fun (state, stream) =>
    match takeFrom onEnd count stream with
    | (.ok bytes, stream) => .ok bytes (state, stream)
    | (.error code, stream) => .error code (state, stream)

def modifyState (change : σ → σ) : Reader ε σ Unit :=
  fun (state, stream) => .ok () (change state, stream)

@[simp] theorem pure_apply (value : α) (state : σ) (stream : Stream) :
    (pure value : Reader ε σ α) (state, stream) = .ok value (state, stream) := rfl

@[simp] theorem throw_apply (code : ε) (state : σ) (stream : Stream) :
    (throw code : Reader ε σ α) (state, stream) = .error code (state, stream) := rfl

@[simp] theorem modifyState_apply (change : σ → σ) (state : σ) (stream : Stream) :
    (modifyState change : Reader ε σ Unit) (state, stream) =
      .ok () (change state, stream) := rfl

theorem bind_apply_of_ok {reader : Reader ε σ α} {next : α → Reader ε σ β}
    {before after : σ × Stream} {value : α}
    (first : reader before = .ok value after) :
    (reader >>= next) before = next value after := by
  change EStateM.bind reader next before = next value after
  rw [EStateM.bind, first]

theorem bind_apply_of_error {reader : Reader ε σ α} {next : α → Reader ε σ β}
    {before after : σ × Stream} {code : ε}
    (first : reader before = .error code after) :
    (reader >>= next) before = .error code after := by
  change EStateM.bind reader next before = .error code after
  rw [EStateM.bind, first]

theorem ok_of_bind_ok {reader : Reader ε σ α} {next : α → Reader ε σ β}
    {before after : σ × Stream} {result : β}
    (whole : (reader >>= next) before = .ok result after) :
    ∃ value middle, reader before = .ok value middle ∧
      next value middle = .ok result after := by
  cases first : reader before with
  | ok value middle =>
      rw [bind_apply_of_ok first] at whole
      exact ⟨value, middle, rfl, whole⟩
  | error code middle =>
      rw [bind_apply_of_error first] at whole
      cases whole

/-! ## Reading what is there -/

theorem takeFrom_append (onEnd : StreamEnd → ε) (bytes rest : Bytes)
    (ending : StreamEnd) :
    takeFrom onEnd bytes.length ⟨bytes ++ rest, ending⟩ =
      (.ok bytes, ⟨rest, ending⟩) := by
  induction bytes with
  | nil => rfl
  | cons byte bytes induction => simp [takeFrom, induction]

theorem take_append (onEnd : StreamEnd → ε) {count : Nat} {bytes : Bytes}
    (counted : count = bytes.length) (rest : Bytes) (ending : StreamEnd) (state : σ) :
    take onEnd count (state, ⟨bytes ++ rest, ending⟩) =
      .ok bytes (state, ⟨rest, ending⟩) := by
  subst counted
  simp [take, takeFrom_append]

theorem takeFrom_eq_ok {onEnd : StreamEnd → ε} {count : Nat}
    {stream after : Stream} {bytes : Bytes}
    (read : takeFrom onEnd count stream = (.ok bytes, after)) :
    stream.bytes = bytes ++ after.bytes ∧ stream.ending = after.ending ∧
      bytes.length = count := by
  induction count generalizing stream bytes with
  | zero =>
      simp only [takeFrom, Prod.mk.injEq, Except.ok.injEq] at read
      rcases read with ⟨rfl, rfl⟩
      simp
  | succ count induction =>
      rcases stream with ⟨_ | ⟨byte, rest⟩, ending⟩
      · simp [takeFrom] at read
      · simp only [takeFrom] at read
        split at read
        · next deeper tail =>
            simp only [Prod.mk.injEq, Except.ok.injEq] at read
            rcases read with ⟨rfl, rfl⟩
            rcases induction tail with ⟨split, sameEnd, counted⟩
            exact ⟨by simp [← split], sameEnd, by simp [counted]⟩
        · simp at read

theorem take_cases (onEnd : StreamEnd → ε) (count : Nat) (state : σ) (stream : Stream) :
    (∃ bytes rest, stream.bytes = bytes ++ rest ∧ bytes.length = count ∧
        (take onEnd count : Reader ε σ Bytes) (state, stream) =
          .ok bytes (state, ⟨rest, stream.ending⟩)) ∨
      ∃ code after, (take onEnd count : Reader ε σ Bytes) (state, stream) =
        .error code (state, after) := by
  rcases taken : takeFrom onEnd count stream with ⟨code | bytes, after⟩
  · exact .inr ⟨code, after, by simp only [take, taken]⟩
  · rcases takeFrom_eq_ok taken with ⟨split, sameEnd, counted⟩
    refine .inl ⟨bytes, after.bytes, split, counted, ?_⟩
    simp only [take, taken, sameEnd]

/-! ## What a reader leaves alone -/

def finalState : EStateM.Result ε (σ × Stream) α → σ
  | .ok _ after => after.1
  | .error _ after => after.1

def Keeps (view : σ → γ) (reader : Reader ε σ α) : Prop :=
  ∀ state stream, view (finalState (reader (state, stream))) = view state

namespace Keeps

variable {γ : Type} {view : σ → γ}

theorem pure (value : α) : Keeps view (Pure.pure value : Reader ε σ α) :=
  fun _ _ => rfl

theorem throw (code : ε) : Keeps view (MonadExcept.throw code : Reader ε σ α) :=
  fun _ _ => rfl

theorem modifyState {change : σ → σ} (kept : ∀ state, view (change state) = view state) :
    Keeps view (Reader.modifyState change : Reader ε σ Unit) :=
  fun state _ => kept state

theorem take (onEnd : StreamEnd → ε) (count : Nat) :
    Keeps view (Reader.take onEnd count : Reader ε σ Bytes) := by
  intro state stream
  rcases take_cases onEnd count state stream with
    ⟨_, _, _, _, result⟩ | ⟨_, _, result⟩
  · rw [result]
    rfl
  · rw [result]
    rfl

theorem bind {reader : Reader ε σ α} {next : α → Reader ε σ β}
    (first : Keeps view reader) (second : ∀ value, Keeps view (next value)) :
    Keeps view (reader >>= next) := by
  intro state stream
  have kept := first state stream
  cases result : reader (state, stream) with
  | ok value after =>
      rw [bind_apply_of_ok result]
      rw [result] at kept
      exact (second value after.1 after.2).trans kept
  | error code after =>
      rw [bind_apply_of_error result]
      rw [result] at kept
      exact kept

theorem ite {condition : Prop} [Decidable condition]
    {yes no : Reader ε σ α} (left : Keeps view yes) (right : Keeps view no) :
    Keeps view (if condition then yes else no) := by
  split
  · exact left
  · exact right

theorem of_ok {reader : Reader ε σ α} {before after : σ × Stream} {value : α}
    (keeps : Keeps view reader) (read : reader before = .ok value after) :
    view after.1 = view before.1 := by
  have kept := keeps before.1 before.2
  rw [read] at kept
  exact kept

end Keeps

/-! ## Locality -/

/-- A reader that succeeds also succeeds, with the same result, when more bytes
follow what it consumed, however the longer stream ends. -/
def Local (reader : Reader ε σ α) : Prop :=
  ∀ (state : σ) (stream : Stream) (value : α) (state' : σ) (after : Stream),
    reader (state, stream) = .ok value (state', after) → ∀ later : Stream,
      reader (state, stream.append later) = .ok value (state', after.append later)

namespace Local

theorem pure (value : α) : Local (Pure.pure value : Reader ε σ α) := by
  intro state stream value' state' after read later
  simp only [pure_apply, EStateM.Result.ok.injEq, Prod.mk.injEq] at read ⊢
  rcases read with ⟨rfl, rfl, rfl⟩
  exact ⟨rfl, rfl, rfl⟩

theorem throw (code : ε) : Local (MonadExcept.throw code : Reader ε σ α) := by
  intro state stream value state' after read
  simp at read

theorem modifyState (change : σ → σ) :
    Local (Reader.modifyState change : Reader ε σ Unit) := by
  intro state stream value state' after read later
  simp only [modifyState_apply, EStateM.Result.ok.injEq, Prod.mk.injEq] at read ⊢
  rcases read with ⟨_, rfl, rfl⟩
  exact ⟨trivial, rfl, rfl⟩

theorem bind {reader : Reader ε σ α} {next : α → Reader ε σ β}
    (first : Local reader) (second : ∀ value, Local (next value)) :
    Local (reader >>= next) := by
  intro state stream result state' after read later
  rcases ok_of_bind_ok read with ⟨value, ⟨middle, rest⟩, readFirst, readSecond⟩
  rw [bind_apply_of_ok (first _ _ _ _ _ readFirst later)]
  exact second value _ _ _ _ _ readSecond later

theorem take (onEnd : StreamEnd → ε) (count : Nat) :
    Local (Reader.take onEnd count : Reader ε σ Bytes) := by
  intro state stream value state' after read later
  simp only [Reader.take] at read
  split at read
  · next bytes tail taken =>
      simp only [EStateM.Result.ok.injEq, Prod.mk.injEq] at read
      rcases read with ⟨rfl, rfl, rfl⟩
      rcases takeFrom_eq_ok taken with ⟨split, _, counted⟩
      rw [Stream.append, split, List.append_assoc]
      exact take_append onEnd counted.symm _ _ _
  · simp at read

end Local

/-- A local reader that consumes exactly `message` succeeds on no proper prefix
of it. -/
theorem Local.not_ok_of_proper_prefix {reader : Reader ε σ α} (isLocal : Local reader)
    {message start : Bytes} {state state' : σ} {value : α} {ending : StreamEnd}
    (exact : reader (state, ⟨message, ending⟩) = .ok value (state', ⟨[], ending⟩))
    (isPrefix : start <+: message) (proper : start ≠ message) (cut : StreamEnd)
    (value' : α) (after : σ × Stream) :
    reader (state, ⟨start, cut⟩) ≠ .ok value' after := by
  rcases isPrefix with ⟨missing, rfl⟩
  rcases after with ⟨state'', rest⟩
  intro read
  have longer := isLocal _ _ _ _ _ read ⟨missing, ending⟩
  rw [Stream.append, exact] at longer
  simp only [EStateM.Result.ok.injEq, Prod.mk.injEq, Stream.append, Stream.mk.injEq,
    List.nil_eq, List.append_eq_nil_iff] at longer
  exact proper (by simp [longer.2.2.1.2])

/-! ## Discipline -/

structure Disciplined (failure : ε → Prop) (reader : Reader ε σ α) : Prop where
  isLocal : Local reader
  fails : ∀ {before after : σ × Stream} {code : ε},
    reader before = .error code after → failure code

namespace Disciplined

variable {failure : ε → Prop}

theorem pure (value : α) : Disciplined failure (Pure.pure value : Reader ε σ α) where
  isLocal := Local.pure value
  fails failed := nomatch failed

theorem throw {code : ε} (allowed : failure code) :
    Disciplined failure (MonadExcept.throw code : Reader ε σ α) where
  isLocal := Local.throw code
  fails failed := by
    cases failed
    exact allowed

theorem modifyState (change : σ → σ) :
    Disciplined failure (Reader.modifyState change : Reader ε σ Unit) where
  isLocal := Local.modifyState change
  fails failed := nomatch failed

theorem take {onEnd : StreamEnd → ε} (allowed : ∀ ending, failure (onEnd ending))
    (count : Nat) : Disciplined failure (Reader.take onEnd count : Reader ε σ Bytes) where
  isLocal := Local.take onEnd count
  fails := by
    intro before after code failed
    have stopped : ∀ count (stream : Stream) code after,
        takeFrom onEnd count stream = (.error code, after) → failure code := by
      intro count
      induction count with
      | zero => simp [takeFrom]
      | succ count induction =>
          rintro ⟨_ | ⟨byte, rest⟩, ending⟩ code after stop
          · simp only [takeFrom, Prod.mk.injEq, Except.error.injEq] at stop
            exact stop.1 ▸ allowed ending
          · simp only [takeFrom] at stop
            split at stop
            · simp at stop
            · next code' tail deeper =>
                simp only [Prod.mk.injEq, Except.error.injEq] at stop
                exact stop.1 ▸ induction _ _ _ deeper
    rcases before with ⟨state, stream⟩
    simp only [Reader.take] at failed
    split at failed
    · cases failed
    · next code' tail stop =>
        cases failed
        exact stopped _ _ _ _ stop

theorem bind {reader : Reader ε σ α} {next : α → Reader ε σ β}
    (first : Disciplined failure reader) (second : ∀ value, Disciplined failure (next value)) :
    Disciplined failure (reader >>= next) where
  isLocal := Local.bind first.isLocal fun value => (second value).isLocal
  fails := by
    intro before after code failed
    cases result : reader before with
    | ok value middle =>
        rw [bind_apply_of_ok result] at failed
        exact (second value).fails failed
    | error code' middle =>
        rw [bind_apply_of_error result] at failed
        cases failed
        exact first.fails result

theorem ite {condition : Prop} [Decidable condition]
    {yes no : Reader ε σ α} (left : Disciplined failure yes)
    (right : Disciplined failure no) :
    Disciplined failure (if condition then yes else no) := by
  split
  · exact left
  · exact right

end Disciplined

/-! ## Readers that deliver more often -/

def Below (reader other : Reader ε σ α) : Prop :=
  ∀ (before after : σ × Stream) (value : α),
    reader before = .ok value after → other before = .ok value after

namespace Below

variable {reader other : Reader ε σ α}

theorem refl (reader : Reader ε σ α) : Below reader reader := fun _ _ _ => id

theorem throw (code : ε) (other : Reader ε σ α) :
    Below (MonadExcept.throw code : Reader ε σ α) other := by
  intro before after value delivered
  cases delivered

theorem bind {next next' : α → Reader ε σ β} (first : Below reader other)
    (second : ∀ value, Below (next value) (next' value)) :
    Below (reader >>= next) (other >>= next') := by
  intro before after result whole
  rcases ok_of_bind_ok whole with ⟨value, middle, delivered, rest⟩
  rw [bind_apply_of_ok (first _ _ _ delivered)]
  exact second value _ _ _ rest

theorem ite {condition : Prop} [Decidable condition] {yes no yes' no' : Reader ε σ α}
    (left : Below yes yes') (right : Below no no') :
    Below (if condition then yes else no) (if condition then yes' else no') := by
  split
  · exact left
  · exact right

end Below

end Reader

end Foundation

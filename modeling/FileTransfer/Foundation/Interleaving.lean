import FileTransfer.Foundation.Fallible
import FileTransfer.Foundation.Trace

/-! # Interleavings

Threads that share a state and take turns, one atomic step at a time, and what it means
that they might as well have gone one after another.
-/

namespace Foundation

structure Pool (Thread Shared Local : Type) where
  shared : Shared
  locals : Thread → Local

namespace Pool

section Arrivals

variable {Thread Shared Local Output : Type} {pool next : Pool Thread Shared Local}

def arrival (answer : Local → Option Output)
    (pool next : Pool Thread Shared Local) (thread : Thread) : List (Thread × Output) :=
  match answer (pool.locals thread), answer (next.locals thread) with
  | none, some output => [(thread, output)]
  | _, _ => []

theorem arrival_told {answer : Local → Option Output} {thread : Thread}
    {output : Output} (silent : answer (pool.locals thread) = none)
    (told : answer (next.locals thread) = some output) :
    pool.arrival answer next thread = [(thread, output)] := by
  rw [arrival, silent, told]

theorem arrival_silent {answer : Local → Option Output} {thread : Thread}
    (same : answer (next.locals thread) = answer (pool.locals thread)) :
    pool.arrival answer next thread = [] := by
  rw [arrival, same]
  cases answer (pool.locals thread) <;> rfl

end Arrivals

variable {Thread Shared Local ε : Type} [DecidableEq Thread]
  {step : Shared → Local → Except ε (Shared × Local)}
  {pool next final : Pool Thread Shared Local}

def move (step : Shared → Local → Except ε (Shared × Local))
    (pool : Pool Thread Shared Local) (thread : Thread) :
    Except ε (Pool Thread Shared Local) := do
  let (shared, moved) ← step pool.shared (pool.locals thread)
  return ⟨shared, Function.update pool.locals thread moved⟩

def run (step : Shared → Local → Except ε (Shared × Local)) :
    Pool Thread Shared Local → (schedule : List Thread) →
      Except ε (Pool Thread Shared Local)
  | pool, [] => .ok pool
  | pool, thread :: schedule => do
      let next ← pool.move step thread
      next.run step schedule

def Throughout (step : Shared → Local → Except ε (Shared × Local))
    (condition : Pool Thread Shared Local → Thread → Prop) :
    Pool Thread Shared Local → (schedule : List Thread) → Prop
  | _, [] => True
  | pool, thread :: schedule =>
      condition pool thread ∧
        ∀ next, pool.move step thread = .ok next → next.Throughout step condition schedule

instance decidableThroughout (condition : Pool Thread Shared Local → Thread → Prop)
    [∀ pool thread, Decidable (condition pool thread)] :
    ∀ (pool : Pool Thread Shared Local) (schedule : List Thread),
      Decidable (pool.Throughout step condition schedule)
  | _, [] => inferInstanceAs (Decidable True)
  | pool, thread :: schedule =>
      match moved : pool.move step thread with
      | .ok next =>
          have : Decidable (next.Throughout step condition schedule) :=
            decidableThroughout condition next schedule
          decidable_of_iff (condition pool thread ∧ next.Throughout step condition schedule)
            ⟨fun holds => ⟨holds.1, fun next' moved' => by
                rw [moved] at moved'
                cases moved'
                exact holds.2⟩,
              fun holds => ⟨holds.1, holds.2 next moved⟩⟩
      | .error code =>
          decidable_of_iff (condition pool thread)
            ⟨fun holds => ⟨holds, fun next' moved' => by
                rw [moved] at moved'
                cases moved'⟩, And.left⟩

theorem move_ok {thread : Thread} (moved : pool.move step thread = .ok next) :
    step pool.shared (pool.locals thread) = .ok (next.shared, next.locals thread) ∧
      ∀ other, other ≠ thread → next.locals other = pool.locals other := by
  rcases Fallible.ok_of_bind_ok moved with ⟨⟨shared, after⟩, stepped, rest⟩
  cases rest
  refine ⟨?_, fun other different => Function.update_of_ne different _ _⟩
  simpa only [Function.update_self] using stepped

/-- What every turn preserves under a condition, every schedule preserves that meets the
condition throughout. -/
theorem run_invariant {condition : Pool Thread Shared Local → Thread → Prop}
    {Invariant : Pool Thread Shared Local → Prop}
    (preserved : ∀ {pool next : Pool Thread Shared Local} {thread : Thread},
      Invariant pool → condition pool thread → pool.move step thread = .ok next →
        Invariant next)
    {schedule : List Thread} (throughout : pool.Throughout step condition schedule)
    (ran : pool.run step schedule = .ok final) (holds : Invariant pool) :
    Invariant final := by
  induction schedule generalizing pool with
  | nil =>
      cases ran
      exact holds
  | cons thread schedule induction =>
      rcases Fallible.ok_of_bind_ok ran with ⟨next, moved, rest⟩
      apply induction (throughout.2 next moved) rest
      exact preserved holds throughout.1 moved

theorem run_preserves {Invariant : Pool Thread Shared Local → Prop}
    (preserved : ∀ {pool next : Pool Thread Shared Local} {thread : Thread},
      Invariant pool → pool.move step thread = .ok next → Invariant next)
    {schedule : List Thread} (ran : pool.run step schedule = .ok final)
    (holds : Invariant pool) : Invariant final := by
  induction schedule generalizing pool with
  | nil =>
      cases ran
      exact holds
  | cons thread schedule induction =>
      rcases Fallible.ok_of_bind_ok ran with ⟨next, moved, rest⟩
      exact induction rest (preserved holds moved)

theorem run_reaches (Reached : Local → Prop) {thread : Thread} {schedule : List Thread}
    (ran : pool.run step schedule = .ok final) (unmet : ¬ Reached (pool.locals thread))
    (met : Reached (final.locals thread)) :
    ∃ early late before after, schedule = early ++ thread :: late ∧
      pool.run step early = .ok before ∧ before.move step thread = .ok after ∧
      ¬ Reached (before.locals thread) ∧ Reached (after.locals thread) := by
  induction schedule generalizing pool with
  | nil =>
      cases ran
      exact absurd met unmet
  | cons first schedule induction =>
      rcases Fallible.ok_of_bind_ok ran with ⟨next, moved, rest⟩
      by_cases now : Reached (next.locals thread)
      · have same : first = thread := by
          by_contra other
          rw [(move_ok moved).2 thread (Ne.symm other)] at now
          exact unmet now
        subst same
        exact ⟨[], schedule, pool, next, rfl, rfl, moved, unmet, now⟩
      · rcases induction rest now with ⟨early, late, before, after, rfl, reached, turn⟩
        refine ⟨first :: early, late, before, after, rfl, ?_, turn⟩
        rw [run, moved]
        exact reached

theorem run_error_iff {schedule : List Thread} {code : ε} :
    pool.run step schedule = .error code ↔
      ∃ early thread late before, schedule = early ++ thread :: late ∧
        pool.run step early = .ok before ∧ before.move step thread = .error code := by
  induction schedule generalizing pool with
  | nil =>
      constructor
      · rintro ⟨⟩
      · rintro ⟨early, thread, late, before, impossible, _⟩
        exact absurd impossible.symm (by simp)
  | cons first schedule induction =>
      constructor
      · intro failed
        cases moved : pool.move step first with
        | error other =>
            rw [run, moved] at failed
            cases failed
            exact ⟨[], first, schedule, pool, rfl, rfl, moved⟩
        | ok next =>
            rw [run, moved] at failed
            rcases induction.mp failed with ⟨early, thread, late, before, rfl, reached, turn⟩
            refine ⟨first :: early, thread, late, before, rfl, ?_, turn⟩
            rw [run, moved]
            exact reached
      · rintro ⟨early, thread, late, before, same, reached, turn⟩
        cases early with
        | nil =>
            cases same
            cases reached
            rw [run, turn]
            rfl
        | cons other early =>
            cases same
            rcases Fallible.ok_of_bind_ok reached with ⟨next, moved, reached'⟩
            rw [run, moved]
            exact induction.mpr ⟨early, thread, late, before, rfl, reached', turn⟩

def arrivals {Output : Type} (step : Shared → Local → Except ε (Shared × Local))
    (answer : Local → Option Output) :
    Pool Thread Shared Local → (schedule : List Thread) → List (Thread × Output)
  | _, [] => []
  | pool, thread :: schedule =>
      match pool.move step thread with
      | .error _ => []
      | .ok next => pool.arrival answer next thread ++ next.arrivals step answer schedule

def alone (step : Shared → Local → Except ε (Shared × Local)) :
    Nat → Shared → Local → Except ε (Shared × Local)
  | 0, shared, stands => .ok (shared, stands)
  | turns + 1, shared, stands => do
      let (shared, stands) ← step shared stands
      alone step turns shared stands

theorem run_replicate (turns : Nat) (pool : Pool Thread Shared Local) (thread : Thread) :
    pool.run step (List.replicate turns thread) =
      (alone step turns pool.shared (pool.locals thread)).map fun after =>
        ⟨after.1, Function.update pool.locals thread after.2⟩ := by
  induction turns generalizing pool with
  | zero =>
      simp only [List.replicate, run, alone, Except.map, Function.update_eq_self]
  | succ turns induction =>
      rw [List.replicate_succ, run, alone, move]
      cases step pool.shared (pool.locals thread) with
      | error code => rfl
      | ok after =>
          simp only [Fallible.ok_bind, Fallible.pure_eq_ok, induction, Function.update_self,
            Function.update_idem]

theorem Throughout.and {first second : Pool Thread Shared Local → Thread → Prop}
    {schedule : List Thread} (holds : pool.Throughout step first schedule)
    (holds' : pool.Throughout step second schedule) :
    pool.Throughout step (fun pool thread => first pool thread ∧ second pool thread)
      schedule := by
  induction schedule generalizing pool with
  | nil => trivial
  | cons thread schedule induction =>
      refine ⟨⟨holds.1, holds'.1⟩, fun next moved => ?_⟩
      exact induction (holds.2 next moved) (holds'.2 next moved)

end Pool

/-! ## One after another -/

theorem Trace.snoc {Thread : Type} {State : Type u} {Input Output : Type}
    {Step : State → Input → Output → State → Prop} {calls : Thread → Input}
    {log : List (Thread × Output)} {start middle final : State} {thread : Thread}
    {output : Output}
    (trace : Trace Step start (log.map fun entry => calls entry.1) (log.map Prod.snd) middle)
    (step : Step middle (calls thread) output final) :
    Trace Step start ((log ++ [(thread, output)]).map fun entry => calls entry.1)
      ((log ++ [(thread, output)]).map Prod.snd) final := by
  rw [List.map_append, List.map_append]
  exact trace.append (.cons step (.nil final))

/-- The threads that have an answer, listed in an order in which their calls, carried out
one after another, return those answers. -/
structure InTurn {Thread : Type} {State : Type u} {Input Output : Type}
    (Step : State → Input → Output → State → Prop) (calls : Thread → Input)
    (answers : Thread → Option Output) (log : List (Thread × Output))
    (start final : State) : Prop where
  once : (log.map Prod.fst).Nodup
  answered : ∀ thread output, (thread, output) ∈ log ↔ answers thread = some output
  trace : Trace Step start (log.map fun entry => calls entry.1) (log.map Prod.snd) final

namespace InTurn

variable {Thread : Type} {State : Type u} {Input Output : Type}
  {Step : State → Input → Output → State → Prop} {calls : Thread → Input}
  {answers : Thread → Option Output} {log : List (Thread × Output)}
  {start middle final : State}

theorem nobody (silent : ∀ thread, answers thread = none) (state : State) :
    InTurn Step calls answers [] state state where
  once := List.nodup_nil
  answered thread output := by simp [silent]
  trace := .nil state

theorem answer (inTurn : InTurn Step calls answers log start middle) {thread : Thread}
    {output : Output} {later : Thread → Option Output} (silent : answers thread = none)
    (step : Step middle (calls thread) output final) (told : later thread = some output)
    (others : ∀ other, other ≠ thread → later other = answers other) :
    InTurn Step calls later (log ++ [(thread, output)]) start final where
  once := by
    have fresh : thread ∉ log.map Prod.fst := by
      intro member
      rcases List.mem_map.mp member with ⟨⟨other, earlier⟩, listed, rfl⟩
      rw [(inTurn.answered _ _).mp listed] at silent
      cases silent
    rw [List.map_append, List.nodup_append]
    refine ⟨inTurn.once, List.nodup_singleton _, ?_⟩
    intro first listed second last
    rw [List.map_singleton, List.mem_singleton] at last
    intro same
    rw [same, last] at listed
    exact fresh listed
  answered other result := by
    rw [List.mem_append, List.mem_singleton, Prod.mk.injEq, inTurn.answered]
    by_cases same : other = thread
    · subst same
      simp [silent, told, eq_comm]
    · simp [same, others other same]
  trace := inTurn.trace.snoc step

end InTurn

end Foundation

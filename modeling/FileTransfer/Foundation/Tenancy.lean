import FileTransfer.Foundation.Trace

/-! # Tenancy
Parties that hold keys of a table, each at most one at a time. Whoever takes a key takes one
that is not in the table, and nobody touches the entry of a key that another holds.
-/

namespace Foundation

structure Tenancy (Party Key Value : Type) where
  held : Party → Option Key
  entry : Key → Option Value

namespace Tenancy

variable {Party Key Value : Type} {before after : Tenancy Party Key Value}

structure Apart (tenancy : Tenancy Party Key Value) : Prop where
  known : ∀ party key, tenancy.held party = some key → tenancy.entry key ≠ none
  distinct : ∀ party other key, tenancy.held party = some key →
    tenancy.held other = some key → party = other

structure Step (mover : Option Party) (before after : Tenancy Party Key Value) : Prop where
  /-- What the others hold, and what is remembered of it, stays. -/
  others : ∀ party, mover ≠ some party → after.held party = before.held party
  entries : ∀ party key, mover ≠ some party → before.held party = some key →
    after.entry key = before.entry key
  /-- The party that moves holds its key still, or one that was free. -/
  own : ∀ party key, mover = some party → after.held party = some key →
    after.entry key ≠ none ∧ (before.held party = some key ∨ before.entry key = none)

theorem Apart.nobody (nothing : ∀ party, before.held party = none) : before.Apart where
  known party key holds := by
    rw [nothing] at holds
    cases holds
  distinct party other key holds := by
    rw [nothing] at holds
    cases holds

namespace Step

variable {mover : Option Party}

theorem known (step : Step mover before after) (apart : before.Apart) {party : Party}
    {key : Key} (holds : after.held party = some key) : after.entry key ≠ none := by
  by_cases moves : mover = some party
  · exact (step.own party key moves holds).1
  · rw [step.others party moves] at holds
    rw [step.entries party key moves holds]
    exact apart.known party key holds

theorem owner (step : Step mover before after) (apart : before.Apart) {party other : Party}
    {key : Key} (moves : mover = some party) (holds : after.held party = some key)
    (holds' : after.held other = some key) : party = other := by
  by_contra different
  have rests : mover ≠ some other := by
    rw [moves]
    exact fun same => different (Option.some.inj same)
  rw [step.others other rests] at holds'
  rcases (step.own party key moves holds).2 with same | free
  · exact different (apart.distinct party other key same holds')
  · exact apart.known other key holds' free

theorem apart (step : Step mover before after) (apart : before.Apart) : after.Apart where
  known party key holds := step.known apart holds
  distinct party other key holds holds' := by
    by_cases moves : mover = some party
    · exact step.owner apart moves holds holds'
    · by_cases moves' : mover = some other
      · exact (step.owner apart moves' holds' holds).symm
      · rw [step.others party moves] at holds
        rw [step.others other moves'] at holds'
        exact apart.distinct party other key holds holds'

end Step

/-! ## Runs -/

section Runs

variable {State Input Output : Type} {Next : State → Input → Output → State → Prop}
  (look : State → Tenancy Party Key Value) (mover : Input → Option Party)
  (stepped : ∀ {state input output next}, (look state).Apart → Next state input output next →
    Step (mover input) (look state) (look next))

include stepped

theorem run_apart {start final : State} {inputs : List Input} {outputs : List Output}
    (run : Trace Next start inputs outputs final) (apart : (look start).Apart) :
    (look final).Apart :=
  run.invariant (fun state => (look state).Apart)
    (fun holds step => (stepped holds step).apart holds) apart

/-- Whatever the others do, a party keeps its key, and the key its entry. -/
theorem run_rests {start final : State} {inputs : List Input} {outputs : List Output}
    (run : Trace Next start inputs outputs final) (apart : (look start).Apart) {party : Party}
    (rests : ∀ input ∈ inputs, mover input ≠ some party) :
    (look final).held party = (look start).held party ∧
      ∀ key, (look start).held party = some key →
        (look final).entry key = (look start).entry key := by
  induction run with
  | nil => exact ⟨rfl, fun _ _ => rfl⟩
  | cons step _ induction =>
      rw [List.forall_mem_cons] at rests
      have isStep := stepped apart step
      rcases induction (isStep.apart apart) rests.2 with ⟨holds, entries⟩
      have same := isStep.others party rests.1
      refine ⟨holds.trans same, ?_⟩
      intro key isHeld
      rw [entries key (same.trans isHeld)]
      exact isStep.entries party key rests.1 isHeld

end Runs

end Tenancy

end Foundation

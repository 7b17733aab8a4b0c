import Mathlib

/-! # Traces of a transition system -/

namespace Foundation

inductive Trace {State : Type u} {Input : Type v} {Output : Type w}
    (Step : State → Input → Output → State → Prop) :
    State → List Input → List Output → State → Prop
  | nil (state) : Trace Step state [] [] state
  | cons {state middle final input output inputs outputs} :
      Step state input output middle →
      Trace Step middle inputs outputs final →
      Trace Step state (input :: inputs) (output :: outputs) final

namespace Trace

variable {State : Type u} {Input : Type v} {Output : Type w}
  {Step Finer : State → Input → Output → State → Prop}

theorem invariant (Invariant : State → Prop)
    (preserved : ∀ {state input output next},
      Invariant state → Step state input output next → Invariant next)
    {initial final : State} {inputs : List Input} {outputs : List Output}
    (trace : Trace Step initial inputs outputs final)
    (holds : Invariant initial) : Invariant final := by
  induction trace with
  | nil => exact holds
  | cons step _ induction => exact induction (preserved holds step)

theorem append {initial middle final : State} {inputs others : List Input}
    {outputs results : List Output} (first : Trace Step initial inputs outputs middle)
    (second : Trace Step middle others results final) :
    Trace Step initial (inputs ++ others) (outputs ++ results) final := by
  induction first with
  | nil => exact second
  | cons step _ induction => exact .cons step (induction second)

theorem mono_of {Allowed : Input → Prop}
    (weaken : ∀ {state input output next}, Allowed input →
      Finer state input output next → Step state input output next)
    {initial final : State} {inputs : List Input} {outputs : List Output}
    (allowed : ∀ input ∈ inputs, Allowed input)
    (trace : Trace Finer initial inputs outputs final) :
    Trace Step initial inputs outputs final := by
  induction trace with
  | nil state => exact .nil state
  | cons step _ induction =>
      rw [List.forall_mem_cons] at allowed
      exact .cons (weaken allowed.1 step) (induction allowed.2)

theorem view {Seen : Type x} {Step' : Seen → Input → Output → Seen → Prop}
    (look : State → Seen)
    (shown : ∀ {state input output next},
      Step state input output next → Step' (look state) input output (look next))
    {initial final : State} {inputs : List Input} {outputs : List Output}
    (trace : Trace Step initial inputs outputs final) :
    Trace Step' (look initial) inputs outputs (look final) := by
  induction trace with
  | nil state => exact .nil (look state)
  | cons step _ induction => exact .cons (shown step) induction

/-- A system that is simulated by another, step by step, is simulated in whole runs. -/
theorem simulates {State' : Type x} {Input' : Type y} {Output' : Type z}
    {Step' : State' → Input' → Output' → State' → Prop} {Related : State → State' → Prop}
    {Allowed : Input → Prop} {Matched : Input × Output → Input' × Output' → Prop}
    (steps : ∀ state input output next state', Allowed input → Related state state' →
      Step state input output next → ∃ input' output' next',
        Step' state' input' output' next' ∧ Related next next' ∧
          Matched (input, output) (input', output'))
    {initial final : State} {inputs : List Input} {outputs : List Output}
    (trace : Trace Step initial inputs outputs final)
    (allowed : ∀ input ∈ inputs, Allowed input) {initial' : State'}
    (related : Related initial initial') :
    ∃ inputs' outputs' final', Trace Step' initial' inputs' outputs' final' ∧
      Related final final' ∧
      List.Forall₂ Matched (inputs.zip outputs) (inputs'.zip outputs') := by
  induction trace generalizing initial' with
  | nil state => exact ⟨[], [], initial', .nil initial', related, .nil⟩
  | cons step _ induction =>
      rw [List.forall_mem_cons] at allowed
      rcases steps _ _ _ _ _ allowed.1 related step with
        ⟨input', output', next', step', related', matched⟩
      rcases induction allowed.2 related' with
        ⟨inputs', outputs', final', trace', final, matches'⟩
      exact ⟨input' :: inputs', output' :: outputs', final', .cons step' trace', final,
        .cons matched matches'⟩

end Trace

end Foundation

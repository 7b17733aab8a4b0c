import Mathlib

/-! # Computations that may fail -/

namespace Foundation

namespace Fallible

variable {ε α β : Type}

@[simp] theorem ok_bind (value : α) (next : α → Except ε β) :
    (Except.ok value >>= next) = next value := rfl

@[simp] theorem error_bind (code : ε) (next : α → Except ε β) :
    (Except.error code >>= next) = .error code := rfl

@[simp] theorem pure_eq_ok (value : α) : (pure value : Except ε α) = .ok value := rfl

@[simp] theorem throw_eq_error (code : ε) :
    (throw code : Except ε α) = .error code := rfl

theorem ok_of_bind_ok {first : Except ε α} {next : α → Except ε β} {result : β}
    (whole : (first >>= next) = .ok result) :
    ∃ value, first = .ok value ∧ next value = .ok result := by
  cases first with
  | ok value => exact ⟨value, rfl, whole⟩
  | error code => cases whole

theorem bind_eq_error_iff {first : Except ε α} {next : α → Except ε β} {code : ε} :
    (first >>= next) = .error code ↔
      first = .error code ∨ ∃ value, first = .ok value ∧ next value = .error code := by
  cases first with
  | ok value => simp
  | error other => simp

theorem ok_of_toOption {result : Except ε α} {value : α}
    (found : result.toOption = some value) : result = .ok value := by
  cases result with
  | ok other => exact congrArg Except.ok (Option.some.inj found)
  | error code => cases found

theorem exists_ok_of_seen {result : Except ε α} {view : α → β} {seen : β}
    (found : result.toOption.map view = some seen) :
    ∃ value, result = .ok value ∧ view value = seen := by
  rcases Option.map_eq_some_iff.mp found with ⟨value, delivered, shown⟩
  exact ⟨value, ok_of_toOption delivered, shown⟩

end Fallible

end Foundation

/-!
# Outcomes in sequence

How a sequence of two steps, each of which may fail, comes to its outcome.
-/

namespace TriggerScript

variable {ε α β : Type} {first : Except ε α} {next : α → Except ε β}

theorem exceptBind_eq_ok {result : β} :
    (first >>= next) = .ok result ↔
      ∃ value, first = .ok value ∧ next value = .ok result := by
  cases first with
  | error other =>
      change Except.error other = .ok result ↔ _
      simp
  | ok value =>
      change next value = .ok result ↔ _
      simp

theorem exceptBind_eq_error {error : ε} :
    (first >>= next) = .error error ↔
      first = .error error ∨
        ∃ value, first = .ok value ∧ next value = .error error := by
  cases first with
  | error other =>
      change Except.error other = .error error ↔ _
      simp
  | ok value =>
      change next value = .error error ↔ _
      simp

end TriggerScript

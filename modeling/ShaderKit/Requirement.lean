/-!
# Requirements

A reader of a binary format makes its checks one after another, and the first one that
fails decides the fault. `require` is one such check.
-/

namespace ShaderKit

variable {ε : Type} {c : Prop} [Decidable c] {fault e : ε}

/-- Goes on if the condition holds, and stops with the given fault if it does not. -/
def require (c : Prop) [Decidable c] (fault : ε) : Except ε Unit :=
  if c then .ok () else .error fault

theorem require_eq_ok_iff : require c fault = .ok () ↔ c := by
  by_cases h : c <;> simp [require, h]

theorem require_eq_error_iff : require c fault = .error e ↔ ¬ c ∧ fault = e := by
  by_cases h : c <;> simp [require, h]

theorem require_of (h : c) : require c fault = .ok () := require_eq_ok_iff.2 h

theorem require_of_not (h : ¬ c) : require c fault = .error fault :=
  require_eq_error_iff.2 ⟨h, rfl⟩

/-- A reader of two parts comes through if both do. -/
theorem bind_eq_ok_iff {α β : Type} {x : Except ε α} {f : α → Except ε β} {b : β} :
    x >>= f = .ok b ↔ ∃ a, x = .ok a ∧ f a = .ok b := by
  cases x with
  | error e => simp [bind, Except.bind]
  | ok a => simp [bind, Except.bind]

/-- A reader of two parts fails if the first one does, or else the second. -/
theorem bind_eq_error_iff {α β : Type} {x : Except ε α} {f : α → Except ε β} :
    x >>= f = .error e ↔ x = .error e ∨ ∃ a, x = .ok a ∧ f a = .error e := by
  cases x with
  | error e' => simp [bind, Except.bind]
  | ok a => simp [bind, Except.bind]

end ShaderKit

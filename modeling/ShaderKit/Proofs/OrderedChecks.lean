import Mathlib.Data.List.Forall2
import ShaderKit.Requirement

/-!
# Readers as ordered checks

A reader that makes its checks one after another comes to the fault of the first check that
fails, and to its value if none does. The checks of a whole are those of its parts, in the order
in which the parts are read.
-/

namespace ShaderKit

/-- A check, and what is reported when it fails. -/
structure Check (ε : Type) where
  passes : Bool
  fault : ε

namespace Check

variable {ε α β γ : Type} {checks : List (Check ε)} {a b : α} {fault : ε}

/-- The first check that fails. -/
def firstFailing? (checks : List (Check ε)) : Option (Check ε) := checks.find? (!·.passes)

/-- The value, if all checks pass, and else the fault of the first that fails. -/
def judge (checks : List (Check ε)) (a : α) : Except ε α :=
  match firstFailing? checks with
  | none => .ok a
  | some check => .error check.fault

theorem judge_eq_ok_iff : judge checks a = .ok b ↔ (∀ check ∈ checks, check.passes) ∧ b = a := by
  have hnone : firstFailing? checks = none ↔ ∀ check ∈ checks, check.passes := by
    simp [firstFailing?]
  rw [judge, ← hnone]
  cases firstFailing? checks <;> simp [eq_comm]

theorem judge_eq_error_iff :
    judge checks a = .error fault ↔
      ∃ check, firstFailing? checks = some check ∧ check.fault = fault := by
  rw [judge]
  cases firstFailing? checks <;> simp

theorem judge_cons (check : Check ε) (checks : List (Check ε)) (a : α) :
    judge (check :: checks) a =
      if check.passes then judge checks a else .error check.fault := by
  cases hpasses : check.passes <;> simp [judge, firstFailing?, hpasses]

theorem judge_cons_eq_require {passes : Bool} {c : Prop} [Decidable c] (h : passes ↔ c)
    (fault : ε) (checks : List (Check ε)) (a : α) :
    judge (⟨passes, fault⟩ :: checks) a = require c fault >>= fun _ => judge checks a := by
  rw [judge_cons]
  by_cases hc : c <;> simp [require, h, hc, bind, Except.bind]

theorem judge_append (checks more : List (Check ε)) (a : α) :
    judge (checks ++ more) a = judge checks () >>= fun _ => judge more a := by
  induction checks with
  | nil => rfl
  | cons check checks ih =>
    rw [List.cons_append, judge_cons, judge_cons, ih]
    cases check.passes <;> rfl

theorem judge_bind_pure (checks : List (Check ε)) (a : α) (f : α → β) :
    (judge checks a >>= fun a => pure (f a)) = judge checks (f a) := by
  rw [judge, judge]
  cases firstFailing? checks <;> rfl

/-- Renaming a fault renames the fault of each check. -/
theorem mapError_judge {ε' : Type} (checks : List (Check ε)) (a : α) (f : ε → ε') :
    (judge checks a).mapError f =
      judge (checks.map fun check => ⟨check.passes, f check.fault⟩) a := by
  induction checks with
  | nil => rfl
  | cons check checks ih =>
    rw [List.map_cons, judge_cons, judge_cons, ← ih]
    cases check.passes <;> rfl

theorem judge_bind_judge (checks more : List (Check ε)) (a : α) (b : β) (f : α → β → γ) :
    (judge checks a >>= fun a => judge more b >>= fun b => pure (f a b)) =
      judge (checks ++ more) (f a b) := by
  have hvalue : judge checks a = judge checks () >>= fun _ => pure a :=
    (judge_bind_pure checks () fun _ => a).symm
  rw [judge_append, hvalue]
  cases judge checks () with
  | ok => exact judge_bind_pure more b (f a)
  | error fault => rfl

/-- Reading the items of a list makes the checks of the first item, then those of the second, and
so on. -/
theorem mapM_eq_judge {read : α → Except ε β} {checks : α → List (Check ε)} {value : α → β}
    {items : List α} (h : ∀ item ∈ items, read item = judge (checks item) (value item)) :
    items.mapM read = judge (items.flatMap checks) (items.map value) := by
  induction items with
  | nil => rfl
  | cons item items ih =>
    have hrest := ih fun other hother => h other (List.mem_cons_of_mem item hother)
    rw [List.mapM_cons, h item List.mem_cons_self, hrest, judge_bind_judge]
    rfl

end Check

/-- A list is read if each of its items is. -/
theorem mapM_eq_ok_of_forall₂ {ε α β : Type} {read : α → Except ε β} {items : List α}
    {values : List β} (h : List.Forall₂ (fun item value => read item = .ok value) items values) :
    items.mapM read = .ok values := by
  induction h with
  | nil => rfl
  | cons hitem _ ih =>
    rw [List.mapM_cons, hitem, ih]
    rfl

theorem mapM_range_eq_ok {ε α : Type} {read : Nat → Except ε α} {values : List α}
    (h : ∀ i, (hi : i < values.length) → read i = .ok values[i]) :
    (List.range values.length).mapM read = .ok values := by
  apply mapM_eq_ok_of_forall₂
  refine List.forall₂_iff_get.2 ⟨List.length_range, fun i hi hi' => ?_⟩
  rw [List.get_eq_getElem, List.get_eq_getElem, List.getElem_range]
  exact h i hi'

/-- What follows a requirement counts only where the requirement is met. -/
theorem require_bind_congr {ε α : Type} {c : Prop} [Decidable c] {fault : ε}
    {k k' : Unit → Except ε α} (h : c → k () = k' ()) :
    require c fault >>= k = require c fault >>= k' := by
  by_cases hc : c
  · rw [require_of hc]
    exact h hc
  · rw [require_of_not hc]
    rfl

end ShaderKit

import Mathlib.Data.List.Induction
import ShaderKit.MaskWords
import ShaderKit.PipelineState

/-!
# Bound slots

A mask is made by calls that bind and free slots. The last call that affects a slot decides whether
it is bound in the end. Words and sets of slots follow the same calls in step, so that the words are
seen through the set only: two masks have the same words if they have the same slots bound.
-/

namespace ShaderKit

/-- A call on a mask. Collecting slots replaces what the mask holds. -/
inductive MaskCall where
  | collect (slots : List Nat)
  | set (slot : Nat) (bound : Bool)
  | clear
  deriving DecidableEq, Repr

namespace MaskCall

/-- What a call decides about a slot, if it affects it. -/
def verdict? (slot : Nat) : MaskCall → Option Bool
  | collect slots => some (slot ∈ slots)
  | set other bound => if other = slot then some bound else none
  | clear => some false

def lastVerdict? (calls : List MaskCall) (slot : Nat) : Option Bool :=
  (calls.filterMap (verdict? slot)).getLast?

theorem lastVerdict?_append (calls : List MaskCall) (call : MaskCall) (slot : Nat) :
    lastVerdict? (calls ++ [call]) slot = (call.verdict? slot).or (lastVerdict? calls slot) := by
  have hlast : ([call].filterMap (verdict? slot)).getLast? = call.verdict? slot := by
    rw [List.filterMap_cons]
    cases call.verdict? slot <;> rfl
  rw [lastVerdict?, List.filterMap_append, List.getLast?_append, hlast, lastVerdict?]

end MaskCall

namespace BindingMask

theorem test_foldl_set (m : BindingMask) (slots : List Nat) (slot : Nat) :
    (slots.foldl (·.set · true) m).test slot =
      (m.test slot || decide (slot < bindingSlots ∧ slot ∈ slots)) := by
  induction slots generalizing m with
  | nil => simp
  | cons other slots ih =>
    rw [List.foldl_cons, ih, test_set]
    by_cases hself : slot = other
    · subst hself
      by_cases hlt : slot < bindingSlots <;> simp [hlt]
    · simp [hself]

theorem test_ofList (slots : List Nat) (slot : Nat) :
    (ofList slots).test slot = decide (slot < bindingSlots ∧ slot ∈ slots) := by
  rw [ofList, test_foldl_set, test_empty, Bool.false_or]

def apply (m : BindingMask) : MaskCall → BindingMask
  | .collect slots => .ofList slots
  | .set slot bound => m.set slot bound
  | .clear => .empty

def run (m : BindingMask) (calls : List MaskCall) : BindingMask := calls.foldl apply m

theorem lt_of_test {m : BindingMask} {slot : Nat} (h : m.test slot = true) :
    slot < bindingSlots := by
  apply Nat.lt_of_not_le
  intro hle
  rw [m.test_of_le hle] at h
  cases h

/-- Within the range, a call that affects a slot decides about it, and any other leaves it. -/
theorem test_apply_iff (m : BindingMask) (call : MaskCall) (slot : Nat) :
    (m.apply call).test slot = true ↔
      slot < bindingSlots ∧ (call.verdict? slot).getD (m.test slot) = true := by
  cases call with
  | collect slots => simp [apply, test_ofList, MaskCall.verdict?]
  | set other bound =>
    rw [apply, test_set, MaskCall.verdict?]
    by_cases hself : slot = other
    · subst hself
      by_cases hs : slot < bindingSlots
      · simp [hs]
      · simp [hs, m.test_of_le (Nat.le_of_not_lt hs)]
    · rw [if_neg fun h => hself h.1, if_neg (Ne.symm hself), Option.getD_none]
      exact ⟨fun h => ⟨lt_of_test h, h⟩, fun h => h.2⟩
  | clear => simp [apply, MaskCall.verdict?]

theorem test_run_empty_iff (calls : List MaskCall) (slot : Nat) :
    (empty.run calls).test slot = true ↔
      slot < bindingSlots ∧ MaskCall.lastVerdict? calls slot = some true := by
  induction calls using List.reverseRecOn with
  | nil => simp [run, MaskCall.lastVerdict?]
  | append_singleton calls call ih =>
    have hrun : empty.run (calls ++ [call]) = (empty.run calls).apply call := by
      rw [run, List.foldl_append]
      rfl
    rw [hrun, test_apply_iff, MaskCall.lastVerdict?_append]
    cases call.verdict? slot with
    | none =>
      rw [Option.getD_none, Option.none_or, ih]
      exact ⟨fun h => h.2, fun h => ⟨h.1, h⟩⟩
    | some bound => rw [Option.getD_some, Option.some_or, Option.some.injEq]

end BindingMask

namespace MaskWords

variable {m n : MaskWords}

def apply (m : MaskWords) : MaskCall → MaskWords
  | .collect slots => .ofList slots
  | .set slot bound => m.set slot bound
  | .clear => .empty

def run (m : MaskWords) (calls : List MaskCall) : MaskWords := calls.foldl apply m

@[simp] theorem test_mask (m : MaskWords) (slot : Nat) : m.mask.test slot = m.test slot := by
  rw [mask, BindingMask.test_ofList]
  by_cases hs : slot < bindingSlots
  · simp [hs, mem_toList]
  · simp [hs, m.test_of_le (Nat.le_of_not_lt hs)]

/-- The words are known from the set of slots that they hold. -/
theorem mask_injective (h : m.mask = n.mask) : m = n := by
  apply ext
  intro slot
  rw [← m.test_mask, h, test_mask]

theorem mask_empty : empty.mask = .empty := by
  apply BindingMask.ext
  intro slot
  rw [test_mask, test_empty, BindingMask.test_empty]

theorem mask_set (m : MaskWords) (slot : Nat) (bound : Bool) :
    (m.set slot bound).mask = m.mask.set slot bound := by
  apply BindingMask.ext
  intro other
  rw [test_mask, test_set, BindingMask.test_set, test_mask]

theorem mask_foldl_set (m : MaskWords) (slots : List Nat) :
    (slots.foldl (·.set · true) m).mask = slots.foldl (·.set · true) m.mask := by
  induction slots generalizing m with
  | nil => rfl
  | cons slot slots ih => rw [List.foldl_cons, ih, mask_set, List.foldl_cons]

theorem mask_ofList (slots : List Nat) : (ofList slots).mask = .ofList slots := by
  rw [ofList, mask_foldl_set, mask_empty, BindingMask.ofList]

theorem mask_apply (m : MaskWords) (call : MaskCall) :
    (m.apply call).mask = m.mask.apply call := by
  cases call with
  | collect slots => exact mask_ofList slots
  | set slot bound => exact mask_set m slot bound
  | clear => exact mask_empty

theorem mask_run (m : MaskWords) (calls : List MaskCall) :
    (m.run calls).mask = m.mask.run calls := by
  induction calls generalizing m with
  | nil => rfl
  | cons call calls ih =>
    have hrest := ih (m.apply call)
    rw [mask_apply] at hrest
    exact hrest

theorem mask_run_empty (calls : List MaskCall) :
    (empty.run calls).mask = BindingMask.empty.run calls := by
  rw [mask_run, mask_empty]

/-- Collecting the slots that are bound gives the mask again. -/
theorem ofList_toList (m : MaskWords) : ofList m.toList = m :=
  mask_injective (mask_ofList m.toList)

theorem eq_iff_test : m = n ↔ ∀ slot, m.test slot = n.test slot := by
  constructor
  · rintro rfl slot
    rfl
  · exact ext

theorem sorted_toList (m : MaskWords) : m.toList.Pairwise (· < ·) :=
  List.pairwise_lt_range.filter _

/-- After any calls, the bound slots are those of the range about which the last call that affects
them decided so. Binding or freeing a slot leaves every other slot as it is, and one beyond the
range leaves the mask as it is. The bound slots can be listed in ascending order and collected to
the same mask again, and a mask is empty if it has none. Masks are the same if the same slots are
bound, and states are compatible if besides their specialization constants agree, whichever calls
their masks come from. The words hold the set that the same calls make without words. -/
theorem bound_slots_follow_last_calls (calls : List MaskCall) :
    let m := empty.run calls
    (∀ slot, m.test slot = true ↔
      slot < bindingSlots ∧ MaskCall.lastVerdict? calls slot = some true) ∧
    (∀ slot bound other, (m.set slot bound).test other =
      if other = slot ∧ slot < bindingSlots then bound else m.test other) ∧
    (∀ slot bound, slot < bindingSlots ∨ m.set slot bound = m) ∧
    (m.toList.Pairwise (· < ·) ∧ ∀ slot, slot ∈ m.toList ↔ m.test slot = true) ∧
    (m.isEmpty = true ↔ ∀ slot, m.test slot = false) ∧
    ofList m.toList = m ∧
    (∀ calls', m = empty.run calls' ↔ ∀ slot, m.test slot = (empty.run calls').test slot) ∧
    (∀ calls' constants constants' pushed pushed',
      PipelineState.Compatible ⟨m.mask, constants, pushed⟩
          ⟨(empty.run calls').mask, constants', pushed'⟩ ↔
        (∀ slot, m.test slot = (empty.run calls').test slot) ∧ constants = constants') ∧
    m.mask = BindingMask.empty.run calls := by
  intro m
  refine ⟨?_, fun slot bound other => m.test_set slot other bound, ?_,
    ⟨m.sorted_toList, fun slot => mem_toList⟩, isEmpty_iff, m.ofList_toList,
    fun calls' => eq_iff_test, ?_, mask_run_empty calls⟩
  · intro slot
    rw [← m.test_mask, mask_run_empty, BindingMask.test_run_empty_iff]
  · intro slot bound
    rcases Nat.lt_or_ge slot bindingSlots with hlt | hle
    · exact .inl hlt
    · exact .inr (m.set_of_le hle bound)
  · intro calls' constants constants' pushed pushed'
    rw [← eq_iff_test]
    refine and_congr_left fun _ => ?_
    exact ⟨mask_injective, fun h => congrArg mask h⟩

end MaskWords

end ShaderKit

/-!
# Binding masks

A binding mask is a set of binding slots below 384: those at which something is bound. Slots
beyond are never in it.
-/

namespace ShaderKit

abbrev bindingSlots : Nat := 384

/-- A set of bound slots, one bit for each. -/
structure BindingMask where
  bits : BitVec bindingSlots
  deriving DecidableEq, Repr

namespace BindingMask

def empty : BindingMask := ⟨0⟩

def test (m : BindingMask) (slot : Nat) : Bool := m.bits.getLsbD slot

/-- Binds or frees a slot; beyond the range nothing happens. -/
def set (m : BindingMask) (slot : Nat) (bound : Bool) : BindingMask :=
  if slot < bindingSlots then
    ⟨if bound then m.bits ||| BitVec.twoPow _ slot else m.bits &&& ~~~BitVec.twoPow _ slot⟩
  else m

def ofList (slots : List Nat) : BindingMask := slots.foldl (·.set · true) empty

def toList (m : BindingMask) : List Nat := (List.range bindingSlots).filter m.test

def isEmpty (m : BindingMask) : Bool := m = empty

@[simp] theorem test_empty (slot : Nat) : empty.test slot = false := BitVec.getLsbD_zero

theorem test_of_le (m : BindingMask) {slot : Nat} (h : bindingSlots ≤ slot) :
    m.test slot = false := BitVec.getLsbD_of_ge m.bits slot h

@[simp] theorem test_set (m : BindingMask) (slot other : Nat) (bound : Bool) :
    (m.set slot bound).test other =
      if other = slot ∧ slot < bindingSlots then bound else m.test other := by
  unfold set test
  by_cases hs : slot < bindingSlots
  · by_cases ho : other < bindingSlots
    · rcases Decidable.em (other = slot) with rfl | he
      · cases bound <;> simp [hs]
      · cases bound <;> simp [hs, ho, he]
    · have hne : other ≠ slot := fun h => ho (h ▸ hs)
      simp [hne, BitVec.getLsbD_of_ge _ _ (Nat.le_of_not_lt ho)]
  · simp [hs]

@[ext] theorem ext {m n : BindingMask} (h : ∀ slot, m.test slot = n.test slot) : m = n := by
  cases m; cases n
  simpa [test, BitVec.eq_of_getLsbD_eq_iff] using fun i _ => h i

def debugText (m : BindingMask) : String :=
  "\x7b" ++ String.intercalate ", " (m.toList.map toString) ++ "\x7d"

end BindingMask

end ShaderKit

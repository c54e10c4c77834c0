import ShaderKit.BindingMask

/-!
# Binding masks in words

A binding mask is stored in words of 64 bits. The quotient of a slot by 64 is its word, and the
remainder its bit in that word.
-/

namespace ShaderKit

abbrev maskWords : Nat := bindingSlots / 64

/-- The words of a mask, those of the lower slots first. -/
structure MaskWords where
  words : Vector UInt64 maskWords
  deriving DecidableEq, Repr

namespace MaskWords

def bit (slot : Nat) : UInt64 := 1 <<< UInt64.ofNat (slot % 64)

def empty : MaskWords := ⟨Vector.replicate _ 0⟩

/-- Whether a slot is bound. There is no word for a slot beyond the range. -/
def test (m : MaskWords) (slot : Nat) : Bool :=
  m.words[slot / 64]?.any fun word => word &&& bit slot != 0

def set (m : MaskWords) (slot : Nat) (bound : Bool) : MaskWords :=
  if h : slot / 64 < maskWords then
    let word := m.words[slot / 64]
    ⟨m.words.set (slot / 64) (if bound then word ||| bit slot else word &&& ~~~bit slot)⟩
  else m

def ofList (slots : List Nat) : MaskWords := slots.foldl (·.set · true) empty

def toList (m : MaskWords) : List Nat := (List.range bindingSlots).filter m.test

/-- Whether nothing is bound: all words are zero. -/
def isEmpty (m : MaskWords) : Bool := m.words.all (· == 0)

/-- The set of slots that the words hold. -/
def mask (m : MaskWords) : BindingMask := .ofList m.toList

theorem toBitVec_bit (slot : Nat) : (bit slot).toBitVec = BitVec.twoPow 64 (slot % 64) := by
  have hshift : ((UInt64.ofNat (slot % 64)).toBitVec % 64).toNat = slot % 64 := by simp
  rw [bit, UInt64.toBitVec_shiftLeft, BitVec.shiftLeft_eq', hshift, BitVec.twoPow_eq]
  rfl

/-- A word meets the bit of a slot exactly if that bit is set in it. -/
theorem and_bit_ne_zero (word : UInt64) (slot : Nat) :
    (word &&& bit slot != 0) = word.toBitVec.getLsbD (slot % 64) := by
  have hzero : word &&& bit slot = 0 ↔ word.toBitVec &&& BitVec.twoPow 64 (slot % 64) = 0#64 := by
    rw [← UInt64.toBitVec_inj, UInt64.toBitVec_and, toBitVec_bit]
    rfl
  have hpow : BitVec.twoPow 64 (slot % 64) ≠ 0#64 := by
    intro h
    have hlt : slot % 64 < 64 := Nat.mod_lt _ (by decide)
    have hbit := congrArg (BitVec.getLsbD · (slot % 64)) h
    simp [hlt] at hbit
  rw [BitVec.and_twoPow] at hzero
  cases hbit : word.toBitVec.getLsbD (slot % 64) with
  | false =>
    rw [hbit] at hzero
    simpa using hzero
  | true =>
    rw [hbit] at hzero
    simpa [hpow] using hzero

/-- Setting or clearing the bit of a slot leaves the other bits of the word as they are. -/
theorem getLsbD_write (word : UInt64) (slot : Nat) (bound : Bool) {k : Nat} (hk : k < 64) :
    (if bound then word ||| bit slot else word &&& ~~~bit slot).toBitVec.getLsbD k =
      if k = slot % 64 then bound else word.toBitVec.getLsbD k := by
  by_cases hself : k = slot % 64
  · cases bound <;> simp [toBitVec_bit, ← hself, hk]
  · cases bound <;> simp [toBitVec_bit, hself, hk]

section Test

variable {m n : MaskWords} {slot : Nat}

theorem div_lt_maskWords (h : slot < bindingSlots) : slot / 64 < maskWords :=
  Nat.div_lt_of_lt_mul h

theorem test_of_lt (m : MaskWords) (h : slot / 64 < maskWords) :
    m.test slot = m.words[slot / 64].toBitVec.getLsbD (slot % 64) := by
  rw [test, Vector.getElem?_eq_getElem h, Option.any_some, and_bit_ne_zero]

theorem test_of_le (m : MaskWords) (h : bindingSlots ≤ slot) : m.test slot = false := by
  have hword : maskWords ≤ slot / 64 := Nat.div_le_div_right h
  rw [test, Vector.getElem?_eq_none hword, Option.any_none]

theorem set_of_le (m : MaskWords) (h : bindingSlots ≤ slot) (bound : Bool) :
    m.set slot bound = m :=
  dif_neg (Nat.not_lt.2 (Nat.div_le_div_right h))

@[simp] theorem test_empty (slot : Nat) : empty.test slot = false := by
  by_cases h : slot < bindingSlots
  · rw [test_of_lt empty (div_lt_maskWords h), empty, Vector.getElem_replicate]
    exact BitVec.getLsbD_zero
  · exact test_of_le empty (Nat.le_of_not_lt h)

@[simp] theorem test_set (m : MaskWords) (slot other : Nat) (bound : Bool) :
    (m.set slot bound).test other =
      if other = slot ∧ slot < bindingSlots then bound else m.test other := by
  by_cases hs : slot < bindingSlots
  · by_cases ho : other < bindingSlots
    · rw [test_of_lt _ (div_lt_maskWords ho), test_of_lt m (div_lt_maskWords ho), set,
        dif_pos (div_lt_maskWords hs)]
      simp only [Vector.getElem_set, hs, and_true]
      by_cases hword : slot / 64 = other / 64
      · have hself : other % 64 = slot % 64 ↔ other = slot := by omega
        simp only [hword, if_true, getLsbD_write _ _ _ (Nat.mod_lt other (by decide)), hself]
      · have hne : other ≠ slot := fun h => hword (h ▸ rfl)
        rw [if_neg hword, if_neg hne]
    · have hne : other ≠ slot := fun h => ho (h ▸ hs)
      rw [test_of_le _ (Nat.le_of_not_lt ho), test_of_le _ (Nat.le_of_not_lt ho),
        if_neg fun h => hne h.1]
  · rw [set_of_le m (Nat.le_of_not_lt hs), if_neg fun h => hs h.2]

@[ext] theorem ext (h : ∀ slot, m.test slot = n.test slot) : m = n := by
  obtain ⟨words⟩ := m
  obtain ⟨words'⟩ := n
  congr 1
  apply Vector.ext
  intro i hi
  apply UInt64.toBitVec_inj.1
  apply BitVec.eq_of_getLsbD_eq
  intro k hk
  have hdiv : (64 * i + k) / 64 = i := by omega
  have hmod : (64 * i + k) % 64 = k := by omega
  have hlt : (64 * i + k) / 64 < maskWords := hdiv.symm ▸ hi
  have hbit := h (64 * i + k)
  rw [test_of_lt _ hlt, test_of_lt _ hlt] at hbit
  simpa only [hdiv, hmod] using hbit

theorem mem_toList : slot ∈ m.toList ↔ m.test slot = true := by
  rw [toList, List.mem_filter, List.mem_range, and_iff_right_iff_imp]
  intro h
  apply Nat.lt_of_not_le
  intro hle
  rw [m.test_of_le hle] at h
  cases h

theorem isEmpty_iff : m.isEmpty = true ↔ ∀ slot, m.test slot = false := by
  constructor
  · intro h slot
    by_cases hs : slot < bindingSlots
    · have hword := Vector.all_eq_true.1 h (slot / 64) (div_lt_maskWords hs)
      rw [test_of_lt m (div_lt_maskWords hs), beq_iff_eq.1 hword]
      exact BitVec.getLsbD_zero
    · exact m.test_of_le (Nat.le_of_not_lt hs)
  · intro h
    have hempty : m = empty := ext fun slot => (h slot).trans (test_empty slot).symm
    rw [hempty]
    apply Vector.all_eq_true.2
    intro i hi
    exact beq_iff_eq.2 (Vector.getElem_replicate hi)

end Test

end MaskWords

end ShaderKit

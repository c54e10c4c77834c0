import ShaderKit.Proofs.PairingTables

/-!
# Pairing tables of numbers

A pairing can be kept as a number: that of the partner, or one below zero. What is noted of a pair
of slots then takes numbers out of one table as places in the other. A place that does not exist
would stop the program. Tables of numbers that come from pairings have only places that exist, and
noting an instruction in them is the same as noting it in the pairings.
-/

namespace ShaderKit

def Pairing.number {n : Nat} : Pairing n → Int
  | unused => -1
  | paired partner => partner.val
  | conflicting => -2

structure NumberTables where
  ofTexture : Vector Int textureSlots
  ofSampler : Vector Int samplerSlots

def SlotPairs.numbers (p : SlotPairs) : NumberTables :=
  ⟨p.ofTexture.map Pairing.number, p.ofSampler.map Pairing.number⟩

namespace NumberTables

/-- Writes the entry of a texture slot, which must exist. -/
def setTexture? (p : NumberTables) (t : Nat) (a : Int) : Option NumberTables :=
  if h : t < textureSlots then some { p with ofTexture := p.ofTexture.set t a } else none

/-- Writes the entry of a sampler slot, which must exist. -/
def setSampler? (p : NumberTables) (s : Nat) (b : Int) : Option NumberTables :=
  if h : s < samplerSlots then some { p with ofSampler := p.ofSampler.set s b } else none

/-- Marks the texture slot of a number as conflicting, unless the number is below zero. -/
def spoilTexture? (p : NumberTables) (b : Int) : Option NumberTables :=
  if 0 ≤ b then p.setTexture? b.toNat (-2) else some p

/-- Marks the sampler slot of a number as conflicting, unless the number is below zero. -/
def spoilSampler? (p : NumberTables) (a : Int) : Option NumberTables :=
  if 0 ≤ a then p.setSampler? a.toNat (-2) else some p

/-- Notes that a texture slot is used with a sampler slot. There is no result if a place of a table
is asked for that does not exist. -/
def note? (p : NumberTables) (t s : Nat) : Option NumberTables := do
  let a ← p.ofTexture[t]?
  let b ← p.ofSampler[s]?
  if a = -1 ∧ b = -1 then
    let p ← p.setTexture? t s
    p.setSampler? s t
  else if a ≠ s ∨ b ≠ t then
    let p ← p.spoilSampler? a
    let p ← p.spoilTexture? b
    let p ← p.setTexture? t (-2)
    p.setSampler? s (-2)
  else some p

/-- Notes the slots of a texture operand and of a sampler operand, unless one of them is unknown or
out of range. -/
def noteOperands? (p : NumberTables) (texture sampler : Operand) : Option NumberTables :=
  match texture.slot?, sampler.slot? with
  | some t, some s => if textureSlots ≤ t ∨ samplerSlots ≤ s then some p else p.note? t s
  | _, _ => some p

/-- Notes the texture and the sampler of an instruction that has both. -/
def noteInstruction? (p : NumberTables) (i : Instruction) : Option NumberTables :=
  if i.samplesTexture then
    i.textureOperands?.elim (some p) fun operands => p.noteOperands? operands.1 operands.2
  else some p

end NumberTables

section Numbers

variable {n : Nat}

theorem Pairing.number_eq_iff {a : Pairing n} {k : Fin n} :
    a.number = (k.val : Int) ↔ a = .paired k := by
  cases a with
  | unused | conflicting => simp [number]
  | paired partner =>
    simp only [number, paired.injEq, Fin.ext_iff]
    omega

theorem Pairing.number_eq_neg_one_iff {a : Pairing n} : a.number = -1 ↔ a = .unused := by
  cases a <;> simp [number]

/-- The number of a pairing is that of one of `n` slots or one of the two below zero. -/
theorem Pairing.number_cases (a : Pairing n) :
    a.number = -2 ∨ a.number = -1 ∨ 0 ≤ a.number ∧ a.number < n := by
  cases a with
  | unused => exact .inr (.inl rfl)
  | paired partner =>
    have hlt : (partner.val : Int) < n := by exact_mod_cast partner.isLt
    exact .inr (.inr ⟨Int.natCast_nonneg _, hlt⟩)
  | conflicting => exact .inl rfl

end Numbers

namespace SlotPairs

variable (p : SlotPairs) (t : Fin textureSlots) (s : Fin samplerSlots)

theorem get_ofTexture_numbers :
    p.numbers.ofTexture.get t = (p.ofTexture.get t).number :=
  Vector.getElem_map ..

theorem get_ofSampler_numbers :
    p.numbers.ofSampler.get s = (p.ofSampler.get s).number :=
  Vector.getElem_map ..

theorem setTexture?_numbers (a : Pairing samplerSlots) :
    p.numbers.setTexture? t a.number = some (p.setTexture t a).numbers := by
  simp [NumberTables.setTexture?, numbers, setTexture, Vector.map_set]

theorem setSampler?_numbers (b : Pairing textureSlots) :
    p.numbers.setSampler? s b.number = some (p.setSampler s b).numbers := by
  simp [NumberTables.setSampler?, numbers, setSampler, Vector.map_set]

theorem spoilTexture?_numbers (b : Pairing textureSlots) :
    p.numbers.spoilTexture? b.number = some (p.spoilTexture b.partner?).numbers := by
  cases b with
  | unused | conflicting => rfl
  | paired x =>
    have hle : 0 ≤ (Pairing.paired x).number := Int.natCast_nonneg _
    rw [NumberTables.spoilTexture?, if_pos hle]
    exact p.setTexture?_numbers x .conflicting

theorem spoilSampler?_numbers (a : Pairing samplerSlots) :
    p.numbers.spoilSampler? a.number = some (p.spoilSampler a.partner?).numbers := by
  cases a with
  | unused | conflicting => rfl
  | paired y =>
    have hle : 0 ≤ (Pairing.paired y).number := Int.natCast_nonneg _
    rw [NumberTables.spoilSampler?, if_pos hle]
    exact p.setSampler?_numbers y .conflicting

/-- Noting a pair asks for no place that does not exist. -/
theorem note?_numbers : p.numbers.note? t s = some (p.note t s).numbers := by
  have ht : p.numbers.ofTexture[t.val]? = some (p.ofTexture[t.val]).number := by simp [numbers]
  have hs : p.numbers.ofSampler[s.val]? = some (p.ofSampler[s.val]).number := by simp [numbers]
  simp only [NumberTables.note?, note, ht, hs, Option.bind_eq_bind, Option.bind_some,
    Pairing.number_eq_neg_one_iff, Pairing.number_eq_iff, ne_eq, Fin.getElem_fin]
  by_cases hfree : p.ofTexture[t.val] = .unused ∧ p.ofSampler[s.val] = .unused
  · have hset : p.numbers.setTexture? t s = some (p.setTexture t (.paired s)).numbers :=
      p.setTexture?_numbers t (.paired s)
    rw [if_pos hfree, if_pos hfree, hset, Option.bind_some]
    exact setSampler?_numbers _ s (.paired t)
  · rw [if_neg hfree, if_neg hfree]
    by_cases hpaired : p.ofTexture[t.val] = .paired s ∧ p.ofSampler[s.val] = .paired t
    · rw [if_neg (by rw [hpaired.1, hpaired.2]; simp), if_pos hpaired]
    · -- The numbers of the two partners are places of the other table.
      rw [if_pos (not_and_or.1 hpaired), if_neg hpaired, spoilSampler?_numbers, Option.bind_some,
        spoilTexture?_numbers, Option.bind_some]
      have hset := setTexture?_numbers ((p.spoilSampler p.ofTexture[t.val].partner?).spoilTexture
        p.ofSampler[s.val].partner?) t .conflicting
      rw [Pairing.number] at hset
      rw [hset, Option.bind_some]
      exact setSampler?_numbers _ s .conflicting

end SlotPairs

namespace ShaderUsage

/-- An instruction is noted in the numbers as it is in the pairings, whatever its operands are. -/
theorem noteInstruction?_numbers (u : ShaderUsage) (i : Instruction) :
    u.pairs.numbers.noteInstruction? i = some (u.note i).pairs.numbers := by
  rw [pairs_note, NumberTables.noteInstruction?]
  split
  · rw [Instruction.slotPair?]
    rcases i.textureOperands? with _ | ⟨texture, sampler⟩
    · rfl
    · simp only [Option.elim_some, NumberTables.noteOperands?, Option.bind_eq_bind,
        Option.bind_some]
      rcases texture.slot? with _ | t
      · rfl
      rcases sampler.slot? with _ | s
      · rfl
      simp only [Option.bind_some]
      by_cases h : t < textureSlots ∧ s < samplerSlots
      · rw [if_neg (by omega), dif_pos h]
        exact u.pairs.note?_numbers ⟨t, h.1⟩ ⟨s, h.2⟩
      · rw [if_pos (by omega), dif_neg h]
        rfl
  · rfl

theorem foldlM_noteInstruction?_numbers (u : ShaderUsage) (is : List Instruction) :
    is.foldlM NumberTables.noteInstruction? u.pairs.numbers =
      some (u.noteAll is).pairs.numbers := by
  induction is generalizing u with
  | nil => rfl
  | cons i is ih =>
    rw [List.foldlM_cons, noteInstruction?_numbers, Option.bind_eq_bind, Option.bind_some, ih]
    rfl

end ShaderUsage

end ShaderKit

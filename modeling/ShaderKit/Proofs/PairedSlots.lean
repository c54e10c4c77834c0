import ShaderKit.Proofs.PairingGraph

/-!
# Slots that are always used together

A partner is reported for a texture slot if the two are used with each other alone. Every
instruction that names both of its slots, within the noted ranges, keeps to the reported pairs. An
instruction whose other operand is passed over, because its slot depends on a register or lies
beyond the range, is not held against a pair: the pair says nothing about it.
-/

namespace ShaderKit

/-- The operand names no noted slot: its slot depends on a register, or it lies beyond the range. -/
def Operand.IsPassedOver (o : Operand) (slots : Nat) : Prop := ∀ n, o.slot? = some n → slots ≤ n

theorem Operand.exists_slot_or_isPassedOver (o : Operand) (slots : Nat) :
    (∃ n : Fin slots, o.slot? = some n.val) ∨ o.IsPassedOver slots := by
  by_cases hnoted : ∃ n < slots, o.slot? = some n
  · obtain ⟨n, hlt, hn⟩ := hnoted
    exact .inl ⟨⟨n, hlt⟩, hn⟩
  · exact .inr fun n hn => Nat.le_of_not_lt fun hlt => hnoted ⟨n, hlt, hn⟩

namespace Instruction

/-- The instruction reads the texture of one operand through the sampler of another. -/
def ReadsThrough (i : Instruction) (texture sampler : Operand) : Prop :=
  i.samplesTexture ∧ i.sources[i.textureIndex]? = some texture ∧
    i.sources[i.textureIndex + 1]? = some sampler

theorem ReadsThrough.pairs {i : Instruction} {texture sampler : Operand}
    {t : Fin textureSlots} {s : Fin samplerSlots} (h : i.ReadsThrough texture sampler)
    (ht : texture.slot? = some t.val) (hs : sampler.slot? = some s.val) : i.Pairs t s := by
  obtain ⟨hsamples, htexture, hsampler⟩ := h
  exact ⟨hsamples, texture, sampler, htexture, hsampler, ht, hs⟩

theorem ReadsThrough.slotPair?_eq_none {i : Instruction} {texture sampler : Operand}
    (h : i.ReadsThrough texture sampler)
    (hpassed : texture.IsPassedOver textureSlots ∨ sampler.IsPassedOver samplerSlots) :
    i.slotPair? = none := by
  obtain ⟨hsamples, htexture, hsampler⟩ := h
  apply Option.eq_none_iff_forall_ne_some.2
  rintro ⟨t, s⟩ hpair
  obtain ⟨-, texture', sampler', htexture', hsampler', ht, hs⟩ :=
    (slotPair?_eq_some_iff hsamples).1 hpair
  cases Option.some.inj (htexture.symm.trans htexture')
  cases Option.some.inj (hsampler.symm.trans hsampler')
  rcases hpassed with hpassed | hpassed
  · exact absurd t.isLt (Nat.not_lt.2 (hpassed t.val ht))
  · exact absurd s.isLt (Nat.not_lt.2 (hpassed s.val hs))

end Instruction

section Uses

variable {is : List Instruction} {t : Fin textureSlots} {s : Fin samplerSlots}

/-- Every instruction that reads the texture slot reads it through the sampler slot. -/
def ReadOnlyThrough (is : List Instruction) (t s : Nat) : Prop :=
  ∀ i ∈ is, ∀ texture sampler, i.ReadsThrough texture sampler →
    texture.slot? = some t → sampler.slot? = some s

/-- Every instruction that reads through the sampler slot reads the texture slot. -/
def ReadsOnly (is : List Instruction) (s t : Nat) : Prop :=
  ∀ i ∈ is, ∀ texture sampler, i.ReadsThrough texture sampler →
    sampler.slot? = some s → texture.slot? = some t

/-- Of two slots that are used with each other alone, an instruction that names the texture slot
names the sampler slot too, unless its sampler is passed over. -/
theorem Exclusive.sampler_eq_or (h : Exclusive (UsedTogether is) t s) {i : Instruction}
    (hi : i ∈ is) {texture sampler : Operand} (hreads : i.ReadsThrough texture sampler)
    (ht : texture.slot? = some t.val) :
    sampler.slot? = some s.val ∨ sampler.IsPassedOver samplerSlots := by
  obtain ⟨-, hsole, -⟩ := h
  rcases sampler.exists_slot_or_isPassedOver samplerSlots with ⟨s', hs'⟩ | hpassed
  · left
    have hused : UsedTogether is t s' := ⟨i, hi, hreads.pairs ht hs'⟩
    rw [hs', hsole s' hused]
  · right
    exact hpassed

theorem Exclusive.texture_eq_or (h : Exclusive (UsedTogether is) t s) {i : Instruction}
    (hi : i ∈ is) {texture sampler : Operand} (hreads : i.ReadsThrough texture sampler)
    (hs : sampler.slot? = some s.val) :
    texture.slot? = some t.val ∨ texture.IsPassedOver textureSlots := by
  obtain ⟨-, -, hsole⟩ := h
  rcases texture.exists_slot_or_isPassedOver textureSlots with ⟨t', ht'⟩ | hpassed
  · left
    have hused : UsedTogether is t' s := ⟨i, hi, hreads.pairs ht' hs⟩
    rw [ht', hsole t' hused]
  · right
    exact hpassed

end Uses

namespace SlotPairs

variable {p : SlotPairs} {R : Fin textureSlots → Fin samplerSlots → Prop}

theorem sampler?_eq_some_iff {t : Nat} {s : Fin samplerSlots} :
    p.sampler? t = some s ↔ ∃ ht : t < textureSlots, p.ofTexture.get ⟨t, ht⟩ = .paired s := by
  rw [sampler?, Option.bind_eq_some_iff]
  simp only [Pairing.partner?_eq_some_iff, exists_eq_right, Vector.getElem?_eq_some_iff]
  rfl

theorem texture?_eq_some_iff {s : Nat} {t : Fin textureSlots} :
    p.texture? s = some t ↔ ∃ hs : s < samplerSlots, p.ofSampler.get ⟨s, hs⟩ = .paired t := by
  rw [texture?, Option.bind_eq_some_iff]
  simp only [Pairing.partner?_eq_some_iff, exists_eq_right, Vector.getElem?_eq_some_iff]
  rfl

theorem Agrees.sampler?_eq_some_iff (h : p.Agrees R) {t : Nat} {s : Fin samplerSlots} :
    p.sampler? t = some s ↔ ∃ ht : t < textureSlots, Exclusive R ⟨t, ht⟩ s := by
  rw [SlotPairs.sampler?_eq_some_iff]
  exact exists_congr fun ht => h.ofTexture.paired_iff ⟨t, ht⟩ s

theorem Agrees.texture?_eq_some_iff (h : p.Agrees R) {s : Nat} {t : Fin textureSlots} :
    p.texture? s = some t ↔ ∃ hs : s < samplerSlots, Exclusive R t ⟨s, hs⟩ := by
  rw [SlotPairs.texture?_eq_some_iff]
  exact exists_congr fun hs => (h.ofSampler.paired_iff ⟨s, hs⟩ t).trans exclusive_flip

end SlotPairs

namespace ShaderUsage

/-- An instruction with an operand that is passed over leaves the pairs as they are. -/
theorem pairs_note_of_isPassedOver (u : ShaderUsage) {i : Instruction} {texture sampler : Operand}
    (h : i.ReadsThrough texture sampler)
    (hpassed : texture.IsPassedOver textureSlots ∨ sampler.IsPassedOver samplerSlots) :
    (u.note i).pairs = u.pairs := by
  rw [pairs_note, if_pos h.1, h.slotPair?_eq_none hpassed]
  rfl

/-- A sampler that is reported for a texture slot is the one that every instruction reads the slot
through, unless the instruction's sampler is passed over; and a texture that is reported for a
sampler slot is the one that every instruction reads through it, unless the instruction's texture is
passed over. A pair is reported, from both of its sides, exactly if some instruction uses the two
slots together and none uses one of them together with a third. -/
theorem reported_partners_are_sole (signatures : ShaderSignatures) (is : List Instruction) :
    let p := ((ofSignatures signatures).noteAll is).pairs
    (∀ t s, p.sampler? t = some s → ∀ i ∈ is, ∀ texture sampler, i.ReadsThrough texture sampler →
      texture.slot? = some t →
        sampler.slot? = some s.val ∨ sampler.IsPassedOver samplerSlots) ∧
    (∀ s t, p.texture? s = some t → ∀ i ∈ is, ∀ texture sampler, i.ReadsThrough texture sampler →
      sampler.slot? = some s →
        texture.slot? = some t.val ∨ texture.IsPassedOver textureSlots) ∧
    ∀ (t : Fin textureSlots) (s : Fin samplerSlots),
      (p.sampler? t = some s ↔ Exclusive (UsedTogether is) t s) ∧
      (p.texture? s = some t ↔ Exclusive (UsedTogether is) t s) := by
  intro p
  have hagrees : p.Agrees (UsedTogether is) := agrees_usedTogether signatures is
  refine ⟨?_, ?_, ?_⟩
  · intro t s hreported i hi texture sampler hreads htexture
    obtain ⟨ht, hexclusive⟩ := hagrees.sampler?_eq_some_iff.1 hreported
    exact hexclusive.sampler_eq_or hi hreads htexture
  · intro s t hreported i hi texture sampler hreads hsampler
    obtain ⟨hs, hexclusive⟩ := hagrees.texture?_eq_some_iff.1 hreported
    exact hexclusive.texture_eq_or hi hreads hsampler
  · intro t s
    constructor
    · rw [hagrees.sampler?_eq_some_iff]
      exact ⟨fun h => h.2, fun h => ⟨t.isLt, h⟩⟩
    · rw [hagrees.texture?_eq_some_iff]
      exact ⟨fun h => h.2, fun h => ⟨s.isLt, h⟩⟩

def slotOperand (type : OperandType) (slot : UInt64) : Operand :=
  { Operand.ofType type with indices := [⟨slot, none⟩] }

/-- An operand whose slot depends on a register. -/
def indexedOperand (type : OperandType) : Operand :=
  { Operand.ofType type with indices := [⟨0, some (slotOperand .temp 0)⟩] }

def sampleOf (texture sampler : Operand) : Instruction :=
  { samplingInstruction 0 0 with sources := [.ofType .input, texture, sampler] }

/-- A gather of a texture operand through a sampler operand, with an offset in front. -/
def gatherOffsetOf (texture sampler : Operand) : Instruction :=
  { samplingInstruction 0 0 with
    opcode := .gatherOffset
    kind := .textureGather
    sources := [.ofType .input, .ofType .temp, texture, sampler] }

theorem partners_of_gathered_slots :
    let texture := slotOperand .resource 7
    let sampler := slotOperand .sampler 2
    let indexed := indexedOperand .sampler
    let is := [sampleOf texture indexed, samplingInstruction 7 2, gatherOffsetOf texture sampler]
    let p := ((ofSignatures ⟨none, none, none⟩).noteAll is).pairs
    (p.sampler? 7 = some 2 ∧ p.texture? 2 = some 7) ∧
      (gatherOffsetOf texture sampler).ReadsThrough texture sampler ∧
      (sampler.slot? = some 2 ∨ sampler.IsPassedOver samplerSlots) ∧
      (texture.slot? = some 7 ∨ texture.IsPassedOver textureSlots) ∧
      (sampleOf texture indexed).ReadsThrough texture indexed ∧
      (indexed.slot? = some 2 ∨ indexed.IsPassedOver samplerSlots) := by
  intro texture sampler indexed is p
  obtain ⟨hsampler, htexture, -⟩ := reported_partners_are_sole ⟨none, none, none⟩ is
  have hseven : p.sampler? 7 = some 2 := by decide
  have htwo : p.texture? 2 = some 7 := by decide
  have hgather : (gatherOffsetOf texture sampler).ReadsThrough texture sampler := ⟨rfl, rfl, rfl⟩
  have hsample : (sampleOf texture indexed).ReadsThrough texture indexed := ⟨rfl, rfl, rfl⟩
  refine ⟨⟨hseven, htwo⟩, hgather, ?_, ?_, hsample, ?_⟩
  · exact hsampler 7 2 hseven _ (by simp [is]) texture sampler hgather rfl
  · exact htexture 2 7 htwo _ (by simp [is]) texture sampler hgather rfl
  · exact hsampler 7 2 hseven _ (by simp [is]) texture indexed hsample rfl

theorem isPassedOver_indexedOperand (type : OperandType) (slots : Nat) :
    (indexedOperand type).IsPassedOver slots := by
  intro n hn
  cases hn

theorem isPassedOver_slotOperand {type : OperandType} {slot : UInt64} {slots : Nat}
    (h : slots ≤ slot.toNat) : (slotOperand type slot).IsPassedOver slots := by
  intro n hn
  cases hn
  exact h

/-- Reported pairs do not hold for the instructions that are passed over: those whose other operand
depends on a register, and those where it names a slot beyond the range. -/
theorem reported_partners_with_others_passed_over :
    (∀ sampler ∈ [indexedOperand .sampler, slotOperand .sampler 16],
      let is := [samplingInstruction 0 0, sampleOf (slotOperand .resource 0) sampler]
      ((ofSignatures ⟨none, none, none⟩).noteAll is).pairs.sampler? 0 = some 0 ∧
        ¬ ReadOnlyThrough is 0 0) ∧
    ∀ texture ∈ [indexedOperand .resource, slotOperand .resource 128],
      let is := [samplingInstruction 0 0, sampleOf texture (slotOperand .sampler 0)]
      ((ofSignatures ⟨none, none, none⟩).noteAll is).pairs.texture? 0 = some 0 ∧
        ¬ ReadsOnly is 0 0 := by
  let u := (ofSignatures ⟨none, none, none⟩).note (samplingInstruction 0 0)
  constructor
  · intro sampler hsampler is
    let i := sampleOf (slotOperand .resource 0) sampler
    have hpassed : sampler.IsPassedOver samplerSlots := by
      rcases List.mem_pair.1 hsampler with rfl | rfl
      · exact isPassedOver_indexedOperand .sampler samplerSlots
      · exact isPassedOver_slotOperand (Nat.le_refl 16)
    have hreads : i.ReadsThrough (slotOperand .resource 0) sampler := ⟨rfl, rfl, rfl⟩
    constructor
    · change (u.note i).pairs.sampler? 0 = some 0
      rw [u.pairs_note_of_isPassedOver hreads (.inr hpassed)]
      decide
    · intro honly
      have hslot := honly i (List.mem_pair.2 (.inr rfl)) _ sampler hreads rfl
      exact absurd (hpassed 0 hslot) (by decide)
  · intro texture htexture is
    let i := sampleOf texture (slotOperand .sampler 0)
    have hpassed : texture.IsPassedOver textureSlots := by
      rcases List.mem_pair.1 htexture with rfl | rfl
      · exact isPassedOver_indexedOperand .resource textureSlots
      · exact isPassedOver_slotOperand (Nat.le_refl 128)
    have hreads : i.ReadsThrough texture (slotOperand .sampler 0) := ⟨rfl, rfl, rfl⟩
    constructor
    · change (u.note i).pairs.texture? 0 = some 0
      rw [u.pairs_note_of_isPassedOver hreads (.inl hpassed)]
      decide
    · intro honly
      have hslot := honly i (List.mem_pair.2 (.inr rfl)) texture _ hreads rfl
      exact absurd (hpassed 0 hslot) (by decide)

end ShaderUsage

end ShaderKit

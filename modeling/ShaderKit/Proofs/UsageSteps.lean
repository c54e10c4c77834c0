import Mathlib.Data.Finset.Card
import Mathlib.Data.Fintype.Basic
import ShaderKit.Proofs.PairingNumbers
import ShaderKit.Proofs.UsageFlags

/-!
# Steps of the analysis

Noting one instruction changes little and takes nothing back. A slot goes from unused to paired and
from there to conflicting, a flag is never cleared, and the counts of the signatures stay as they
are. At most two slots of either pairing table and one slot for unordered access are changed.
-/

namespace ShaderKit

/-- How the pairing of a slot may change. -/
inductive Pairing.Advances {n : Nat} : Pairing n → Pairing n → Prop where
  | stay (a : Pairing n) : Advances a a
  | pair (partner : Fin n) : Advances unused (paired partner)
  | spoil (a : Pairing n) : Advances a conflicting

theorem Pairing.Advances.trans {n : Nat} {a b c : Pairing n} (hab : Advances a b)
    (hbc : Advances b c) : Advances a c := by
  cases hbc with
  | stay => exact hab
  | spoil => exact .spoil a
  | pair partner =>
    cases hab with
    | stay => exact .pair partner

/-- Noting that two slots are used together, as one of the tables sees it: `f` becomes `f'`, and `g`
is the other table. -/
structure Pairing.Joins {m n : Nat} (f f' : Fin m → Pairing n) (g : Fin n → Pairing m) (a : Fin m)
    (b : Fin n) : Prop where
  self_eq : f' a = if f a = .unused ∧ g b = .unused ∨ f a = .paired b ∧ g b = .paired a then
    .paired b else .conflicting
  other_eq : ∀ x, x ≠ a → f' x = if g b = .paired x then .conflicting else f x

namespace Pairing.Joins

variable {m n : Nat} {f f' : Fin m → Pairing n} {g : Fin n → Pairing m} {a : Fin m} {b : Fin n}

theorem advances (h : Joins f f' g a b) (x : Fin m) : Advances (f x) (f' x) := by
  by_cases hx : x = a
  · subst hx
    rw [h.self_eq]
    split
    · next hfree =>
      rcases hfree with ⟨hf, -⟩ | ⟨hf, -⟩
      · rw [hf]
        exact .pair b
      · rw [hf]
        exact .stay _
    · exact .spoil _
  · rw [h.other_eq x hx]
    split
    · exact .spoil _
    · exact .stay _

/-- Apart from the noted slot only the recorded partner of the other one changes. -/
theorem eq_of_ne (h : Joins f f' g a b) {x : Fin m} (hx : x ≠ a)
    (hpartner : x ≠ (g b).partner?.getD a) : f' x = f x := by
  rw [h.other_eq x hx]
  split
  · next hgb =>
    rw [hgb] at hpartner
    exact absurd rfl hpartner
  · rfl

end Pairing.Joins

namespace SlotPairs

variable (p : SlotPairs) (t : Fin textureSlots) (s : Fin samplerSlots)

theorem joins_ofTexture :
    Pairing.Joins p.ofTexture.get (p.note t s).ofTexture.get p.ofSampler.get t s :=
  ⟨p.getElem_ofTexture_note_self t s, fun _ hx => p.getElem_ofTexture_note_of_ne s hx⟩

theorem joins_ofSampler :
    Pairing.Joins p.ofSampler.get (p.note t s).ofSampler.get p.ofTexture.get s t :=
  ⟨p.getElem_ofSampler_note_self t s, fun _ hy => p.getElem_ofSampler_note_of_ne t hy⟩

end SlotPairs

/-- Tables of numbers in which every number is that of a slot of the other table or one of the two
below zero, and in which partners name each other. -/
structure NumberTables.Consistent (p : NumberTables) : Prop where
  texture_range : ∀ t, p.ofTexture.get t = -2 ∨ p.ofTexture.get t = -1 ∨
    0 ≤ p.ofTexture.get t ∧ p.ofTexture.get t < samplerSlots
  sampler_range : ∀ s, p.ofSampler.get s = -2 ∨ p.ofSampler.get s = -1 ∨
    0 ≤ p.ofSampler.get s ∧ p.ofSampler.get s < textureSlots
  partner_iff : ∀ (t : Fin textureSlots) (s : Fin samplerSlots),
    p.ofTexture.get t = s.val ↔ p.ofSampler.get s = t.val

theorem SlotPairs.Agrees.consistent_numbers {p : SlotPairs}
    {R : Fin textureSlots → Fin samplerSlots → Prop} (h : p.Agrees R) :
    p.numbers.Consistent where
  texture_range t := by
    rw [get_ofTexture_numbers]
    exact Pairing.number_cases _
  sampler_range s := by
    rw [get_ofSampler_numbers]
    exact Pairing.number_cases _
  partner_iff t s := by
    rw [get_ofTexture_numbers, get_ofSampler_numbers, Pairing.number_eq_iff,
      Pairing.number_eq_iff, h.ofTexture.paired_iff, h.ofSampler.paired_iff, exclusive_flip]

section Changes

variable {α : Type} [DecidableEq α] {n : Nat} {x y : Vector α n}

def changes (x y : Vector α n) : Finset (Fin n) := {k | y.get k ≠ x.get k}

theorem changes_self (x : Vector α n) : changes x x = ∅ := by
  simp [changes]

theorem card_changes_le {s : Finset (Fin n)} (h : ∀ k ∉ s, y.get k = x.get k) :
    (changes x y).card ≤ s.card := by
  refine Finset.card_le_card fun k hk => ?_
  by_contra hks
  exact (Finset.mem_filter.1 hk).2 (h k hks)

theorem card_changes_le_one {a : Fin n} (h : ∀ k, k ≠ a → y.get k = x.get k) :
    (changes x y).card ≤ 1 := by
  have hle := card_changes_le (s := {a}) fun k hk => h k (Finset.notMem_singleton.1 hk)
  rwa [Finset.card_singleton] at hle

theorem card_changes_le_two {a b : Fin n} (h : ∀ k, k ≠ a → k ≠ b → y.get k = x.get k) :
    (changes x y).card ≤ 2 := by
  have hle := card_changes_le (x := x) (y := y) (s := {a, b}) fun k hk => by
    rw [Finset.mem_insert, Finset.mem_singleton, not_or] at hk
    exact h k hk.1 hk.2
  exact hle.trans Finset.card_le_two

end Changes

namespace ShaderUsage

/-- Everything that is known in `u` is still known in `v`. -/
structure Extends (u v : ShaderUsage) : Prop where
  texture_advances : ∀ t, (u.pairs.ofTexture.get t).Advances (v.pairs.ofTexture.get t)
  sampler_advances : ∀ s, (u.pairs.ofSampler.get s).Advances (v.pairs.ofSampler.get s)
  derivatives_kept : u.derivatives = true → v.derivatives = true
  discards_kept : u.discards = true → v.discards = true
  atomic_kept : ∀ k, (u.accesses.get k).atomic = true → (v.accesses.get k).atomic = true
  typedLoad_kept : ∀ k, (u.accesses.get k).typedLoad = true → (v.accesses.get k).typedLoad = true
  inputPlanes_eq : v.inputPlanes = u.inputPlanes
  outputPlanes_eq : v.outputPlanes = u.outputPlanes

theorem Extends.refl (u : ShaderUsage) : u.Extends u where
  texture_advances _ := .stay _
  sampler_advances _ := .stay _
  derivatives_kept := id
  discards_kept := id
  atomic_kept _ := id
  typedLoad_kept _ := id
  inputPlanes_eq := rfl
  outputPlanes_eq := rfl

theorem Extends.trans {u v w : ShaderUsage} (huv : u.Extends v) (hvw : v.Extends w) :
    u.Extends w where
  texture_advances t := (huv.texture_advances t).trans (hvw.texture_advances t)
  sampler_advances s := (huv.sampler_advances s).trans (hvw.sampler_advances s)
  derivatives_kept h := hvw.derivatives_kept (huv.derivatives_kept h)
  discards_kept h := hvw.discards_kept (huv.discards_kept h)
  atomic_kept k h := hvw.atomic_kept k (huv.atomic_kept k h)
  typedLoad_kept k h := hvw.typedLoad_kept k (huv.typedLoad_kept k h)
  inputPlanes_eq := hvw.inputPlanes_eq.trans huv.inputPlanes_eq
  outputPlanes_eq := hvw.outputPlanes_eq.trans huv.outputPlanes_eq

/-- The tables of `u` and `v` are the same but for a few slots. -/
structure DiffersInFew (u v : ShaderUsage) : Prop where
  textures : (changes u.pairs.ofTexture v.pairs.ofTexture).card ≤ 2
  samplers : (changes u.pairs.ofSampler v.pairs.ofSampler).card ≤ 2
  accesses : (changes u.accesses v.accesses).card ≤ 1

variable (u : ShaderUsage) (i : Instruction)

/-- All that noting an instruction can do: it raises flags of the whole shader, notes two slots that
are used together, or sets the flags of one slot for unordered access. -/
theorem note_cases :
    (∃ d c, u.note i = { u with derivatives := d, discards := c }) ∨
    (∃ d t s, u.note i = { u with derivatives := d, pairs := u.pairs.note t s }) ∨
    ∃ (k : Fin accessSlots) (a : AccessUse),
      u.note i = { u with accesses := u.accesses.set k.val a k.isLt } := by
  cases hk : i.kind with
  | atomic =>
    simp only [note, hk]
    rcases atomicSlot? i with _ | k
    · exact .inl ⟨_, _, rfl⟩
    · exact .inr (.inr ⟨k, _, rfl⟩)
  | typedUavLoad =>
    simp only [note, hk]
    rcases typedLoadSlot? i with _ | k
    · exact .inl ⟨_, _, rfl⟩
    · exact .inr (.inr ⟨k, _, rfl⟩)
  | textureSample | textureQueryLod | textureGather =>
    simp only [note, hk, notePair]
    rcases i.slotPair? with _ | ⟨t, s⟩
    · exact .inl ⟨_, _, rfl⟩
    · exact .inr (.inl ⟨_, t, s, rfl⟩)
  | controlFlow =>
    simp only [note, hk]
    split <;> exact .inl ⟨_, _, rfl⟩
  | _ =>
    simp only [note, hk]
    exact .inl ⟨_, _, rfl⟩

/-- An instruction takes back nothing that is known. -/
theorem extends_note : u.Extends (u.note i) := by
  have hraises := raises_note u i
  have hrest : (∀ t, (u.pairs.ofTexture.get t).Advances ((u.note i).pairs.ofTexture.get t)) ∧
      (∀ s, (u.pairs.ofSampler.get s).Advances ((u.note i).pairs.ofSampler.get s)) ∧
      (u.note i).inputPlanes = u.inputPlanes ∧ (u.note i).outputPlanes = u.outputPlanes := by
    rcases note_cases u i with ⟨d, c, hv⟩ | ⟨d, t, s, hv⟩ | ⟨k, a, hv⟩ <;> rw [hv]
    · exact ⟨fun _ => .stay _, fun _ => .stay _, rfl, rfl⟩
    · exact ⟨(u.pairs.joins_ofTexture t s).advances, (u.pairs.joins_ofSampler t s).advances, rfl,
        rfl⟩
    · exact ⟨fun _ => .stay _, fun _ => .stay _, rfl, rfl⟩
  obtain ⟨htexture, hsampler, hinput, houtput⟩ := hrest
  exact {
    texture_advances := htexture
    sampler_advances := hsampler
    derivatives_kept := fun h => hraises.derivatives_iff.2 (.inl h)
    discards_kept := fun h => hraises.discards_iff.2 (.inl h)
    atomic_kept := fun k h => (hraises.atomic_iff k).2 (.inl h)
    typedLoad_kept := fun k h => (hraises.typedLoad_iff k).2 (.inl h)
    inputPlanes_eq := hinput
    outputPlanes_eq := houtput }

/-- Nor do more instructions. -/
theorem extends_noteAll (is : List Instruction) : u.Extends (u.noteAll is) := by
  induction is generalizing u with
  | nil => exact .refl u
  | cons i is ih => exact (extends_note u i).trans (ih (u.note i))

/-- An instruction changes the entries of two slots that are used together and of their partners, or
the flags of one slot for unordered access. -/
theorem differsInFew_note : u.DiffersInFew (u.note i) := by
  rcases note_cases u i with ⟨d, c, hv⟩ | ⟨d, t, s, hv⟩ | ⟨k, a, hv⟩ <;> rw [hv]
  · constructor <;> simp [changes_self]
  · -- In either table these are the noted slot and the recorded partner of the other one.
    refine ⟨?_, ?_, by simp [changes_self]⟩
    · exact card_changes_le_two fun _ => (u.pairs.joins_ofTexture t s).eq_of_ne
    · exact card_changes_le_two fun _ => (u.pairs.joins_ofSampler t s).eq_of_ne
  · refine ⟨by simp [changes_self], by simp [changes_self], ?_⟩
    refine card_changes_le_one (a := k) fun j hj => ?_
    rw [get_accesses_set, if_neg hj]

/-- Whatever instructions have been noted, and whatever the next one is, its kind, its operands and
their slots being of any value: the tables of numbers are consistent, no place outside of them has
been asked for and none is asked for by the next instruction, and that one changes few slots and
takes nothing back. -/
theorem tables_stay_consistent (signatures : ShaderSignatures) (is : List Instruction)
    (i : Instruction) :
    let u := (ofSignatures signatures).noteAll is
    let v := u.note i
    is.foldlM NumberTables.noteInstruction? SlotPairs.empty.numbers = some u.pairs.numbers ∧
      u.pairs.numbers.Consistent ∧
      u.pairs.numbers.noteInstruction? i = some v.pairs.numbers ∧
      u.DiffersInFew v ∧
      u.Extends v := by
  intro u v
  have hagrees : u.pairs.Agrees (UsedTogether is) := agrees_usedTogether signatures is
  exact ⟨foldlM_noteInstruction?_numbers (ofSignatures signatures) is, hagrees.consistent_numbers,
    noteInstruction?_numbers u i, differsInFew_note u i, extends_note u i⟩

end ShaderUsage

end ShaderKit

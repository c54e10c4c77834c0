/-!
# Pairing of texture and sampler slots

A texture slot and a sampler slot are paired if each is used with the other alone. Uses are
noted one at a time. A slot that turns out to have two partners is conflicting from then on,
and so are its partners, because a pair has to be exclusive on both sides.
-/

namespace ShaderKit

/-- The number of texture slots and of sampler slots whose uses are noted. -/
abbrev textureSlots : Nat := 128
abbrev samplerSlots : Nat := 16

/-- What is known about the partner of a slot, out of `n` possible ones. -/
inductive Pairing (n : Nat) where
  | unused
  | paired (partner : Fin n)
  | conflicting
  deriving DecidableEq, Repr

namespace Pairing

def partner? {n : Nat} : Pairing n → Option (Fin n)
  | paired p => some p
  | unused | conflicting => none

theorem partner?_eq_some_iff {n : Nat} {p : Pairing n} {q : Fin n} :
    p.partner? = some q ↔ p = paired q := by
  cases p <;> simp [partner?]

end Pairing

structure SlotPairs where
  ofTexture : Vector (Pairing samplerSlots) textureSlots
  ofSampler : Vector (Pairing textureSlots) samplerSlots
  deriving DecidableEq, Repr

namespace SlotPairs

def empty : SlotPairs := ⟨Vector.replicate _ .unused, Vector.replicate _ .unused⟩

def setTexture (p : SlotPairs) (t : Fin textureSlots) (a : Pairing samplerSlots) : SlotPairs :=
  { p with ofTexture := p.ofTexture.set t a }

def setSampler (p : SlotPairs) (s : Fin samplerSlots) (b : Pairing textureSlots) : SlotPairs :=
  { p with ofSampler := p.ofSampler.set s b }

/-- Marks a texture slot, if there is one, as conflicting. -/
def spoilTexture (p : SlotPairs) (t? : Option (Fin textureSlots)) : SlotPairs :=
  t?.elim p (p.setTexture · .conflicting)

def spoilSampler (p : SlotPairs) (s? : Option (Fin samplerSlots)) : SlotPairs :=
  s?.elim p (p.setSampler · .conflicting)

section views

variable (p : SlotPairs) (t x : Fin textureSlots) (s y : Fin samplerSlots)

@[simp] theorem getElem_ofTexture_setTexture (a : Pairing samplerSlots) :
    (p.setTexture t a).ofTexture[x.val] = if x = t then a else p.ofTexture[x.val] := by
  simp [setTexture, Vector.getElem_set, Fin.ext_iff, eq_comm]

@[simp] theorem getElem_ofSampler_setSampler (b : Pairing textureSlots) :
    (p.setSampler s b).ofSampler[y.val] = if y = s then b else p.ofSampler[y.val] := by
  simp [setSampler, Vector.getElem_set, Fin.ext_iff, eq_comm]

@[simp] theorem ofSampler_setTexture (a : Pairing samplerSlots) :
    (p.setTexture t a).ofSampler = p.ofSampler := rfl

@[simp] theorem ofTexture_setSampler (b : Pairing textureSlots) :
    (p.setSampler s b).ofTexture = p.ofTexture := rfl

@[simp] theorem getElem_ofTexture_spoilTexture (t? : Option (Fin textureSlots)) :
    (p.spoilTexture t?).ofTexture[x.val] =
      if t? = some x then .conflicting else p.ofTexture[x.val] := by
  cases t? <;> simp [spoilTexture, eq_comm]

@[simp] theorem getElem_ofSampler_spoilSampler (s? : Option (Fin samplerSlots)) :
    (p.spoilSampler s?).ofSampler[y.val] =
      if s? = some y then .conflicting else p.ofSampler[y.val] := by
  cases s? <;> simp [spoilSampler, eq_comm]

@[simp] theorem ofSampler_spoilTexture (t? : Option (Fin textureSlots)) :
    (p.spoilTexture t?).ofSampler = p.ofSampler := by
  cases t? <;> rfl

@[simp] theorem ofTexture_spoilSampler (s? : Option (Fin samplerSlots)) :
    (p.spoilSampler s?).ofTexture = p.ofTexture := by
  cases s? <;> rfl

end views

def note (p : SlotPairs) (t : Fin textureSlots) (s : Fin samplerSlots) : SlotPairs :=
  let a := p.ofTexture[t]
  let b := p.ofSampler[s]
  if a = .unused ∧ b = .unused then
    (p.setTexture t (.paired s)).setSampler s (.paired t)
  else if a = .paired s ∧ b = .paired t then p
  else
    (((p.spoilSampler a.partner?).spoilTexture b.partner?).spoilTexture (some t)).spoilSampler
      (some s)

/-- The entry of the noted texture slot: a pair if both slots were free or already paired with
each other. -/
theorem getElem_ofTexture_note_self (p : SlotPairs) (t : Fin textureSlots)
    (s : Fin samplerSlots) :
    (p.note t s).ofTexture[t.val] =
      if p.ofTexture[t.val] = .unused ∧ p.ofSampler[s.val] = .unused ∨
          p.ofTexture[t.val] = .paired s ∧ p.ofSampler[s.val] = .paired t then
        .paired s
      else .conflicting := by
  simp only [note, Fin.getElem_fin]
  split
  · next h => simp [h]
  · next hfree =>
    split
    · next h => simp [h]
    · next hpaired => simp [hfree, hpaired]

/-- Of the other texture slots only the recorded partner of the noted sampler slot is touched. -/
theorem getElem_ofTexture_note_of_ne (p : SlotPairs) {t x : Fin textureSlots}
    (s : Fin samplerSlots) (hx : x ≠ t) :
    (p.note t s).ofTexture[x.val] =
      if p.ofSampler[s.val] = .paired x then .conflicting else p.ofTexture[x.val] := by
  simp only [note, Fin.getElem_fin]
  split
  · next h => simp [h, hx]
  · split
    · next h => simp [h, hx.symm]
    · simp [hx.symm, Pairing.partner?_eq_some_iff]

/-- The entry of the noted sampler slot. -/
theorem getElem_ofSampler_note_self (p : SlotPairs) (t : Fin textureSlots)
    (s : Fin samplerSlots) :
    (p.note t s).ofSampler[s.val] =
      if p.ofSampler[s.val] = .unused ∧ p.ofTexture[t.val] = .unused ∨
          p.ofSampler[s.val] = .paired t ∧ p.ofTexture[t.val] = .paired s then
        .paired t
      else .conflicting := by
  simp only [note, Fin.getElem_fin]
  split
  · next h => simp [h]
  · next hfree =>
    split
    · next h => simp [h]
    · next hpaired =>
      rw [and_comm] at hfree hpaired
      simp [hfree, hpaired]

/-- Of the other sampler slots only the recorded partner of the noted texture slot is touched. -/
theorem getElem_ofSampler_note_of_ne (p : SlotPairs) (t : Fin textureSlots)
    {s y : Fin samplerSlots} (hy : y ≠ s) :
    (p.note t s).ofSampler[y.val] =
      if p.ofTexture[t.val] = .paired y then .conflicting else p.ofSampler[y.val] := by
  simp only [note, Fin.getElem_fin]
  split
  · next h => simp [h, hy]
  · split
    · next h => simp [h, hy.symm]
    · simp [hy.symm, Pairing.partner?_eq_some_iff]

def sampler? (p : SlotPairs) (texture : Nat) : Option (Fin samplerSlots) :=
  p.ofTexture[texture]?.bind Pairing.partner?

def texture? (p : SlotPairs) (sampler : Nat) : Option (Fin textureSlots) :=
  p.ofSampler[sampler]?.bind Pairing.partner?

end SlotPairs

end ShaderKit

import Mathlib.Logic.Basic
import ShaderKit.ShaderAnalysis

/-!
# Pairing tables

The tables of texture and sampler slots are compared with the relation between slots that the
noted pairs form. A slot is unused if it is related to nothing, paired with a partner if the
two are related to each other and to nothing else, and conflicting otherwise. Noting a pair
keeps both tables true to the relation with that pair added. It looks at the two slots and at
their recorded partners only, and that is enough.
-/

namespace ShaderKit

/-- The two are related to each other and to nothing else. -/
def Exclusive {α β : Type} (R : α → β → Prop) (a : α) (b : β) : Prop :=
  R a b ∧ (∀ b', R a b' → b' = b) ∧ ∀ a', R a' b → a' = a

/-- The relation with one more pair. -/
def withPair {α β : Type} (R : α → β → Prop) (a : α) (b : β) : α → β → Prop :=
  fun x y => R x y ∨ x = a ∧ y = b

theorem exclusive_flip {α β : Type} {R : α → β → Prop} {a : α} {b : β} :
    Exclusive (flip R) b a ↔ Exclusive R a b := by
  simp only [Exclusive, flip]
  constructor
  · intro h
    obtain ⟨h, ha, hb⟩ := h
    exact ⟨h, hb, ha⟩
  · intro h
    obtain ⟨h, hb, ha⟩ := h
    exact ⟨h, ha, hb⟩

theorem flip_withPair {α β : Type} (R : α → β → Prop) (a : α) (b : β) :
    flip (withPair R a b) = withPair (flip R) b a := by
  funext y x
  simp only [flip, withPair, and_comm]

theorem withPair_self {α β : Type} (R : α → β → Prop) (a : α) (b : β) : withPair R a b a b :=
  Or.inr ⟨rfl, rfl⟩

theorem withPair_of_ne {α β : Type} {R : α → β → Prop} {a x : α} {b y : β} (hx : x ≠ a) :
    withPair R a b x y ↔ R x y := by
  simp [withPair, hx]

/-- The first element of a new pair is in an exclusive pair afterwards only with its new partner:
if neither was related to anything, or if the pair was there before and exclusive. -/
theorem exclusive_withPair_self {α β : Type} {R : α → β → Prop} {a : α} {b y : β} :
    Exclusive (withPair R a b) a y ↔
      y = b ∧ ((∀ y, ¬ R a y) ∧ (∀ x, ¬ R x b) ∨ Exclusive R a b) := by
  constructor
  · intro h
    obtain ⟨_, hright, hleft⟩ := h
    have hy : y = b := (hright b (withPair_self R a b)).symm
    subst hy
    refine ⟨rfl, ?_⟩
    by_cases hR : R a y
    · exact Or.inr ⟨hR, fun y' h => hright y' (Or.inl h), fun x h => hleft x (Or.inl h)⟩
    · refine Or.inl ⟨fun y' h => hR ?_, fun x h => hR ?_⟩
      · exact hright y' (Or.inl h) ▸ h
      · exact hleft x (Or.inl h) ▸ h
  · intro h
    obtain ⟨rfl, h⟩ := h
    have hright : ∀ y', R a y' → y' = y := by
      rcases h with hnone | hexclusive
      · exact fun y' hy' => absurd hy' (hnone.1 y')
      · exact hexclusive.2.1
    have hleft : ∀ x, R x y → x = a := by
      rcases h with hnone | hexclusive
      · exact fun x hx => absurd hx (hnone.2 x)
      · exact hexclusive.2.2
    refine ⟨withPair_self R a y, ?_, ?_⟩
    · intro y' hy'
      rcases hy' with hy' | ⟨-, rfl⟩
      · exact hright y' hy'
      · rfl
    · intro x hx
      rcases hx with hx | ⟨rfl, -⟩
      · exact hleft x hx
      · rfl

/-- Any other element loses its exclusive pair exactly if its partner is the second element of the
new pair. -/
theorem exclusive_withPair_of_ne {α β : Type} {R : α → β → Prop} {a x : α} {b y : β}
    (hx : x ≠ a) : Exclusive (withPair R a b) x y ↔ Exclusive R x y ∧ y ≠ b := by
  constructor
  · intro h
    obtain ⟨hxy, hright, hleft⟩ := h
    refine ⟨⟨(withPair_of_ne hx).1 hxy, fun y' h => hright y' (Or.inl h),
      fun x' h => hleft x' (Or.inl h)⟩, ?_⟩
    intro hy
    subst hy
    exact hx (hleft a (withPair_self R a y)).symm
  · intro h
    obtain ⟨⟨hxy, hright, hleft⟩, hy⟩ := h
    refine ⟨Or.inl hxy, ?_, ?_⟩
    · exact fun y' h => hright y' ((withPair_of_ne hx).1 h)
    · intro x' h
      rcases h with h | ⟨-, rfl⟩
      · exact hleft x' h
      · exact absurd rfl hy

/-- A table of pairings that is true to a relation. -/
structure Records {m n : Nat} (R : Fin m → Fin n → Prop) (f : Fin m → Pairing n) : Prop where
  unused_iff : ∀ a, f a = .unused ↔ ∀ b, ¬ R a b
  paired_iff : ∀ a b, f a = .paired b ↔ Exclusive R a b

namespace Records

variable {m n : Nat} {R : Fin m → Fin n → Prop} {f : Fin m → Pairing n} {g : Fin n → Pairing m}

theorem conflicting_iff (h : Records R f) (a : Fin m) :
    f a = .conflicting ↔ (∃ b, R a b) ∧ ∀ b, ¬ Exclusive R a b := by
  have hunused := h.unused_iff a
  have hpaired := h.paired_iff a
  cases hf : f a with
  | unused =>
    have hnone := hunused.1 hf
    simp only [reduceCtorEq, false_iff, not_and]
    intro hsome
    obtain ⟨b, hb⟩ := hsome
    exact absurd hb (hnone b)
  | paired b =>
    have hb := (hpaired b).1 hf
    simp only [reduceCtorEq, false_iff, not_and]
    exact fun _ hall => hall b hb
  | conflicting =>
    rw [hf] at hunused hpaired
    simpa using And.intro hunused hpaired

theorem unique {f' : Fin m → Pairing n} (h : Records R f) (h' : Records R f') : f = f' := by
  funext a
  cases hf : f a with
  | unused => exact ((h'.unused_iff a).2 ((h.unused_iff a).1 hf)).symm
  | paired b => exact ((h'.paired_iff a b).2 ((h.paired_iff a b).1 hf)).symm
  | conflicting => exact ((h'.conflicting_iff a).2 ((h.conflicting_iff a).1 hf)).symm

/-- Noting a pair keeps a table true, if the entry of the noted slot becomes a pair exactly when
both slots are unused or paired with each other, and of the other entries just the recorded
partner's is spoilt. -/
theorem withPair {f' : Fin m → Pairing n} (hf : Records R f) (hg : Records (flip R) g) (a : Fin m)
    (b : Fin n)
    (hself : f' a = if f a = .unused ∧ g b = .unused ∨ f a = .paired b ∧ g b = .paired a then
      .paired b else .conflicting)
    (hother : ∀ x, x ≠ a → f' x = if g b = .paired x then .conflicting else f x) :
    Records (withPair R a b) f' := by
  have hpartner : ∀ x, g b = .paired x ↔ Exclusive R x b :=
    fun x => (hg.paired_iff b x).trans exclusive_flip
  have hjoin : (f a = .unused ∧ g b = .unused ∨ f a = .paired b ∧ g b = .paired a) ↔
      (∀ y, ¬ R a y) ∧ (∀ x, ¬ R x b) ∨ Exclusive R a b := by
    rw [hf.unused_iff, hg.unused_iff, hf.paired_iff, hpartner, and_self]
    rfl
  constructor
  · intro x
    by_cases hx : x = a
    · subst hx
      have hsome : ¬ ∀ y, ¬ ShaderKit.withPair R x b x y := fun h => h b (withPair_self R x b)
      rw [hself]
      split <;> simp [hsome]
    · simp only [withPair_of_ne hx]
      rw [hother x hx, ← hf.unused_iff x]
      split
      · next h =>
        have hR := ((hpartner x).1 h).1
        simp only [reduceCtorEq, hf.unused_iff, false_iff]
        exact fun hnone => hnone b hR
      · rfl
  · intro x y
    by_cases hx : x = a
    · subst hx
      rw [hself, exclusive_withPair_self, ← hjoin]
      split
      · next h => simp [h, eq_comm]
      · next h => simp [h]
    · rw [hother x hx, exclusive_withPair_of_ne hx, ← hf.paired_iff]
      split
      · next h =>
        have hxb := (hf.paired_iff x b).2 ((hpartner x).1 h)
        simp [hxb, eq_comm]
      · next h =>
        have hxb : f x ≠ .paired b := fun h' => h ((hpartner x).2 ((hf.paired_iff x b).1 h'))
        simp only [iff_self_and]
        rintro h' rfl
        exact hxb h'

end Records

/-- Both tables are true to a relation between texture and sampler slots. -/
structure SlotPairs.Agrees (p : SlotPairs) (R : Fin textureSlots → Fin samplerSlots → Prop) :
    Prop where
  ofTexture : Records R p.ofTexture.get
  ofSampler : Records (flip R) p.ofSampler.get

namespace SlotPairs.Agrees

variable {p q : SlotPairs} {R : Fin textureSlots → Fin samplerSlots → Prop}

theorem empty : SlotPairs.empty.Agrees fun _ _ => False := by
  have htexture (t : Fin textureSlots) : SlotPairs.empty.ofTexture.get t = .unused :=
    Vector.getElem_replicate t.isLt
  have hsampler (s : Fin samplerSlots) : SlotPairs.empty.ofSampler.get s = .unused :=
    Vector.getElem_replicate s.isLt
  constructor <;> constructor <;> simp [htexture, hsampler, Exclusive, flip]

theorem note (h : p.Agrees R) (t : Fin textureSlots) (s : Fin samplerSlots) :
    (p.note t s).Agrees (withPair R t s) where
  ofTexture := h.ofTexture.withPair h.ofSampler t s (p.getElem_ofTexture_note_self t s)
    fun _ hx => p.getElem_ofTexture_note_of_ne s hx
  ofSampler := by
    rw [flip_withPair]
    exact h.ofSampler.withPair h.ofTexture s t (p.getElem_ofSampler_note_self t s)
      fun _ hy => p.getElem_ofSampler_note_of_ne t hy

theorem unique (h : p.Agrees R) (h' : q.Agrees R) : p = q := by
  obtain ⟨pt, ps⟩ := p
  obtain ⟨qt, qs⟩ := q
  have ht := h.ofTexture.unique h'.ofTexture
  have hs := h.ofSampler.unique h'.ofSampler
  congr 1
  · exact Vector.ext fun i hi => congrFun ht ⟨i, hi⟩
  · exact Vector.ext fun i hi => congrFun hs ⟨i, hi⟩

end SlotPairs.Agrees

/-- An instruction that samples a texture uses the texture slot with the sampler slot: the two
operands are there, and both name their slots whatever the registers hold. -/
def Instruction.Pairs (i : Instruction) (t : Fin textureSlots) (s : Fin samplerSlots) : Prop :=
  i.samplesTexture ∧ ∃ texture sampler, i.sources[i.textureIndex]? = some texture ∧
    i.sources[i.textureIndex + 1]? = some sampler ∧ texture.slot? = some t.val ∧
    sampler.slot? = some s.val

/-- Some instruction of a list uses the two slots together. -/
def UsedTogether (is : List Instruction) (t : Fin textureSlots) (s : Fin samplerSlots) : Prop :=
  ∃ i ∈ is, i.Pairs t s

theorem Instruction.slotPair?_eq_some_iff {i : Instruction} {t : Fin textureSlots}
    {s : Fin samplerSlots} (h : i.samplesTexture) : i.slotPair? = some (t, s) ↔ i.Pairs t s := by
  simp only [slotPair?, textureOperands?, Pairs, h, true_and, bind, pure,
    Option.bind_eq_some_iff]
  constructor
  · intro h
    obtain ⟨⟨texture, sampler⟩, ⟨_, hi, _, hj, ho⟩, m, hm, n, hn, hp⟩ := h
    obtain ⟨rfl, rfl⟩ := Prod.mk.inj (Option.some.inj ho)
    split at hp
    · next hlt =>
      obtain ⟨rfl, rfl⟩ := Prod.mk.inj (Option.some.inj hp)
      exact ⟨_, _, hi, hj, hm, hn⟩
    · cases hp
  · intro h
    obtain ⟨texture, sampler, hi, hj, ht, hs⟩ := h
    refine ⟨(texture, sampler), ⟨texture, hi, sampler, hj, rfl⟩, t, ht, s, hs, ?_⟩
    exact dif_pos ⟨t.isLt, s.isLt⟩

namespace ShaderUsage

variable {u : ShaderUsage} {R : Fin textureSlots → Fin samplerSlots → Prop}

theorem pairs_notePair (u : ShaderUsage) (i : Instruction) :
    (u.notePair i).pairs = i.slotPair?.elim u.pairs fun p => u.pairs.note p.1 p.2 := by
  rw [notePair]
  cases i.slotPair? <;> rfl

theorem pairs_note (u : ShaderUsage) (i : Instruction) :
    (u.note i).pairs = if i.samplesTexture then
      i.slotPair?.elim u.pairs fun p => u.pairs.note p.1 p.2 else u.pairs := by
  cases hk : i.kind with
  | atomic =>
    cases ha : atomicSlot? i <;> simp [note, Instruction.samplesTexture, hk, ha, noteAtomic]
  | controlFlow =>
    simp only [note, Instruction.samplesTexture, hk, Bool.false_eq_true, if_false]
    split <;> rfl
  | typedUavLoad =>
    cases hl : typedLoadSlot? i <;>
      simp [note, Instruction.samplesTexture, hk, hl, noteTypedLoad]
  | textureSample | textureQueryLod =>
    simp [note, Instruction.samplesTexture, hk, pairs_notePair, noteDerivatives]
  | textureGather => simp [note, Instruction.samplesTexture, hk, pairs_notePair]
  | _ => simp [note, Instruction.samplesTexture, hk, noteDerivatives]

theorem agrees_note (h : u.pairs.Agrees R) (i : Instruction) :
    (u.note i).pairs.Agrees fun t s => R t s ∨ i.Pairs t s := by
  rw [pairs_note]
  split
  · next hi =>
    cases hp : i.slotPair? with
    | none =>
      have hnone : ∀ t s, ¬ i.Pairs t s := by
        intro t s hts
        have := (Instruction.slotPair?_eq_some_iff hi).2 hts
        simp [hp] at this
      simpa [hnone] using h
    | some p =>
      have hpairs : ∀ t s, i.Pairs t s ↔ t = p.1 ∧ s = p.2 := by
        intro t s
        rw [← Instruction.slotPair?_eq_some_iff hi, hp, Option.some.injEq, Prod.ext_iff]
        exact and_congr eq_comm eq_comm
      have hnote := h.note p.1 p.2
      simp only [hpairs]
      exact hnote
  · next hi =>
    have hnone : ∀ t s, ¬ i.Pairs t s := fun t s hts => hi hts.1
    simpa only [hnone, or_false] using h

theorem agrees_noteAll (h : u.pairs.Agrees R) (is : List Instruction) :
    (u.noteAll is).pairs.Agrees fun t s => R t s ∨ UsedTogether is t s := by
  induction is generalizing u R with
  | nil => simpa [noteAll, UsedTogether] using h
  | cons i is ih =>
    have hall := ih (agrees_note h i)
    simp only [or_assoc] at hall
    simpa [noteAll, UsedTogether] using hall

/-- The tables of a whole shader are true to the slots that its instructions use together. -/
theorem agrees_usedTogether (signatures : ShaderSignatures) (is : List Instruction) :
    ((ofSignatures signatures).noteAll is).pairs.Agrees (UsedTogether is) := by
  have h := agrees_noteAll (u := ofSignatures signatures) SlotPairs.Agrees.empty is
  simpa only [false_or] using h

end ShaderUsage

end ShaderKit

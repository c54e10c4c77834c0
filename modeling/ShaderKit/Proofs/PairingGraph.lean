import Mathlib.Combinatorics.SimpleGraph.Connectivity.Subgraph
import ShaderKit.Proofs.PairingTables

/-!
# Pairings and connected components

The slots that a shader's instructions use together form a bipartite graph. The pairing tables
describe its connected components: a slot without an edge is unused, a slot whose component is a
single edge is paired with the other end of it, and a slot whose component has several edges is
conflicting. In particular the tables depend on the edges only, and neither on the order of the
instructions nor on repetitions.
-/

namespace ShaderKit

open SimpleGraph

section Components

variable {V : Type} {G : SimpleGraph V} {v w : V}

/-- The edges of the connected component of a vertex. -/
def componentEdges (G : SimpleGraph V) (v : V) : Set (Sym2 V) :=
  (G.connectedComponentMk v).toSubgraph.edgeSet

theorem mem_componentEdges {a b : V} :
    s(a, b) ∈ componentEdges G v ↔ G.Adj a b ∧ G.Reachable v a := by
  simp only [componentEdges, Subgraph.mem_edgeSet, Subgraph.induce_adj, Subgraph.top_adj,
    ConnectedComponent.mem_supp_iff, ConnectedComponent.eq]
  constructor
  · intro h
    obtain ⟨ha, -, hab⟩ := h
    exact ⟨hab, ha.symm⟩
  · intro h
    obtain ⟨hab, ha⟩ := h
    exact ⟨ha.symm, (ha.trans hab.reachable).symm, hab⟩

/-- A vertex whose component has an edge has an edge itself. -/
theorem exists_adj_of_nonempty (h : (componentEdges G v).Nonempty) : ∃ w, G.Adj v w := by
  obtain ⟨e, he⟩ := h
  induction e using Sym2.ind with
  | _ a b =>
    obtain ⟨hab, ha⟩ := mem_componentEdges.1 he
    rw [reachable_iff_reflTransGen] at ha
    rcases ha.cases_head with rfl | ⟨c, hc, -⟩
    · exact ⟨b, hab⟩
    · exact ⟨c, hc⟩

/-- A component is a single edge if each end of it has no other neighbour. -/
theorem componentEdges_eq_singleton_iff :
    componentEdges G v = {s(v, w)} ↔
      G.Adj v w ∧ (∀ x, G.Adj v x → x = w) ∧ ∀ x, G.Adj x w → x = v := by
  constructor
  · intro h
    have hvw : G.Adj v w :=
      (mem_componentEdges.1 (h ▸ Set.mem_singleton s(v, w) : s(v, w) ∈ componentEdges G v)).1
    refine ⟨hvw, ?_, ?_⟩
    · intro x hx
      have hmem : s(v, x) ∈ componentEdges G v := mem_componentEdges.2 ⟨hx, Reachable.refl v⟩
      rw [h] at hmem
      exact Sym2.congr_right.1 hmem
    · intro x hx
      have hreach : G.Reachable v x := hvw.reachable.trans hx.symm.reachable
      have hmem : s(x, w) ∈ componentEdges G v := mem_componentEdges.2 ⟨hx, hreach⟩
      rw [h] at hmem
      exact Sym2.congr_left.1 hmem
  · intro h
    obtain ⟨hvw, hright, hleft⟩ := h
    have hends : ∀ x, G.Reachable v x → x = v ∨ x = w := by
      intro x hx
      rw [reachable_iff_reflTransGen] at hx
      induction hx with
      | refl => exact Or.inl rfl
      | tail _ hstep ih =>
        rcases ih with rfl | rfl
        · exact Or.inr (hright _ hstep)
        · exact Or.inl (hleft _ hstep.symm)
    ext e
    induction e using Sym2.ind with
    | _ a b =>
      rw [mem_componentEdges, Set.mem_singleton_iff]
      constructor
      · intro h
        obtain ⟨hab, ha⟩ := h
        rcases hends a ha with rfl | rfl
        · rw [hright b hab]
        · rw [hleft b hab.symm, Sym2.eq_swap]
      · intro he
        rcases Sym2.eq_iff.1 he with ⟨rfl, rfl⟩ | ⟨rfl, rfl⟩
        · exact ⟨hvw, Reachable.refl _⟩
        · exact ⟨hvw.symm, hvw.reachable⟩

/-- A component has several edges if its vertex has an edge that is not the only one. -/
theorem componentEdges_nontrivial_iff :
    (componentEdges G v).Nontrivial ↔
      (∃ w, G.Adj v w) ∧ ∀ w, componentEdges G v ≠ {s(v, w)} := by
  constructor
  · intro h
    exact ⟨exists_adj_of_nonempty h.nonempty, fun w => h.ne_singleton⟩
  · intro h
    obtain ⟨⟨w, hw⟩, hne⟩ := h
    have hmem : s(v, w) ∈ componentEdges G v := mem_componentEdges.2 ⟨hw, Reachable.refl v⟩
    rcases Set.Nonempty.exists_eq_singleton_or_nontrivial ⟨_, hmem⟩ with ⟨e, he⟩ | h
    · rw [he, Set.mem_singleton_iff] at hmem
      exact absurd (hmem ▸ he) (hne w)
    · exact h

end Components

def pairGraph {α β : Type} (R : α → β → Prop) : SimpleGraph (α ⊕ β) where
  Adj
    | .inl a, .inr b => R a b
    | .inr b, .inl a => R a b
    | _, _ => False
  symm := ⟨by rintro (a | b) (c | d) h <;> exact h⟩
  loopless := ⟨by rintro (a | b) h <;> exact h⟩

section Bipartite

variable {α β : Type} {R : α → β → Prop}

theorem exclusive_iff_left {a : α} {b : β} :
    Exclusive R a b ↔ componentEdges (pairGraph R) (.inl a) = {s(.inl a, .inr b)} := by
  rw [componentEdges_eq_singleton_iff]
  simp [Exclusive, pairGraph, Sum.forall]

theorem exclusive_iff_right {a : α} {b : β} :
    Exclusive R a b ↔ componentEdges (pairGraph R) (.inr b) = {s(.inl a, .inr b)} := by
  rw [Sym2.eq_swap, componentEdges_eq_singleton_iff]
  simp [Exclusive, pairGraph, Sum.forall, and_comm]

theorem nontrivial_iff_left {a : α} :
    (componentEdges (pairGraph R) (.inl a)).Nontrivial ↔
      (∃ b, R a b) ∧ ∀ b, ¬ Exclusive R a b := by
  have hadj : (∃ v, (pairGraph R).Adj (.inl a) v) ↔ ∃ b, R a b := by
    simp [pairGraph, Sum.exists]
  rw [componentEdges_nontrivial_iff, hadj]
  refine and_congr_right fun _ => ?_
  constructor
  · intro h b hb
    exact h (.inr b) (exclusive_iff_left.1 hb)
  · rintro h (x | b) hv
    · exact (componentEdges_eq_singleton_iff.1 hv).1
    · exact h b (exclusive_iff_left.2 hv)

theorem nontrivial_iff_right {b : β} :
    (componentEdges (pairGraph R) (.inr b)).Nontrivial ↔
      (∃ a, R a b) ∧ ∀ a, ¬ Exclusive R a b := by
  have hadj : (∃ v, (pairGraph R).Adj (.inr b) v) ↔ ∃ a, R a b := by
    simp [pairGraph, Sum.exists]
  rw [componentEdges_nontrivial_iff, hadj]
  refine and_congr_right fun _ => ?_
  constructor
  · intro h a ha
    exact h (.inl a) (Sym2.eq_swap ▸ exclusive_iff_right.1 ha)
  · rintro h (a | x) hv
    · exact h a (exclusive_iff_right.2 (Sym2.eq_swap ▸ hv))
    · exact (componentEdges_eq_singleton_iff.1 hv).1

end Bipartite

namespace ShaderUsage

/-- The pairing tables of a shader describe the components of the graph of the slots that its
instructions use together, and nothing else about the shader enters them. -/
theorem pairs_describe_components (signatures : ShaderSignatures) (is : List Instruction) :
    let p := ((ofSignatures signatures).noteAll is).pairs
    let G := pairGraph (UsedTogether is)
    (∀ t : Fin textureSlots,
      (p.ofTexture.get t = .unused ↔ ∀ v, ¬ G.Adj (.inl t) v) ∧
      (∀ s : Fin samplerSlots,
        p.ofTexture.get t = .paired s ↔ componentEdges G (.inl t) = {s(.inl t, .inr s)}) ∧
      (p.ofTexture.get t = .conflicting ↔ (componentEdges G (.inl t)).Nontrivial)) ∧
    (∀ s : Fin samplerSlots,
      (p.ofSampler.get s = .unused ↔ ∀ v, ¬ G.Adj (.inr s) v) ∧
      (∀ t : Fin textureSlots,
        p.ofSampler.get s = .paired t ↔ componentEdges G (.inr s) = {s(.inl t, .inr s)}) ∧
      (p.ofSampler.get s = .conflicting ↔ (componentEdges G (.inr s)).Nontrivial)) ∧
    ∀ (signatures' : ShaderSignatures) (is' : List Instruction),
      UsedTogether is' = UsedTogether is →
        ((ofSignatures signatures').noteAll is').pairs = p := by
  intro p G
  have hagrees : p.Agrees (UsedTogether is) := agrees_usedTogether signatures is
  refine ⟨?_, ?_, ?_⟩
  · intro t
    have htable := hagrees.ofTexture
    refine ⟨?_, ?_, ?_⟩
    · rw [htable.unused_iff t]
      simp [G, pairGraph, Sum.forall]
    · intro s
      rw [htable.paired_iff t s, exclusive_iff_left]
    · rw [htable.conflicting_iff t, nontrivial_iff_left]
  · intro s
    have htable := hagrees.ofSampler
    refine ⟨?_, ?_, ?_⟩
    · rw [htable.unused_iff s]
      simp [G, pairGraph, Sum.forall, flip]
    · intro t
      rw [htable.paired_iff s t, exclusive_flip, exclusive_iff_right]
    · rw [htable.conflicting_iff s, nontrivial_iff_right]
      simp only [exclusive_flip, flip]
  · intro signatures' is' his
    have hagrees' := agrees_usedTogether signatures' is'
    rw [his] at hagrees'
    exact hagrees'.unique hagrees

/-- A plain sample of a texture slot through a sampler slot. -/
def samplingInstruction (texture sampler : UInt64) : Instruction where
  opcode := ⟨69⟩
  kind := .textureSample
  controls := 0
  saturate := false
  destinations := [.ofType .temp]
  sources := [.ofType .input, { Operand.ofType .resource with indices := [⟨texture, none⟩] },
    { Operand.ofType .sampler with indices := [⟨sampler, none⟩] }]

theorem pairs_of_two_textures_in_any_order :
    let is := [samplingInstruction 0 0, samplingInstruction 1 0]
    let is' := [samplingInstruction 1 0, samplingInstruction 0 0, samplingInstruction 1 0]
    UsedTogether is' = UsedTogether is ∧
      ((ofSignatures ⟨none, none, none⟩).noteAll is').pairs =
        ((ofSignatures ⟨none, none, none⟩).noteAll is).pairs := by
  intro is is'
  have his : UsedTogether is' = UsedTogether is := by
    funext t s
    simp only [UsedTogether, is, is', List.mem_cons, List.not_mem_nil, or_false]
    apply propext
    constructor
    · rintro ⟨i, rfl | rfl | rfl, hi⟩
      · exact ⟨_, Or.inr rfl, hi⟩
      · exact ⟨_, Or.inl rfl, hi⟩
      · exact ⟨_, Or.inr rfl, hi⟩
    · rintro ⟨i, rfl | rfl, hi⟩
      · exact ⟨_, Or.inr (Or.inl rfl), hi⟩
      · exact ⟨_, Or.inl rfl, hi⟩
  exact ⟨his, (pairs_describe_components ⟨none, none, none⟩ is).2.2 ⟨none, none, none⟩ is' his⟩

end ShaderUsage

end ShaderKit

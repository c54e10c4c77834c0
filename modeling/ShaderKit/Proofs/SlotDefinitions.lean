import Mathlib.Data.List.Nodup
import Mathlib.Data.List.Perm.Subperm
import ShaderKit.Proofs.DynamicOffsets

/-!
# Slots and their bindings

A mapping comes about by definitions, between which dynamic offsets may be given at any time. Slots
stand in it in the order of their first definitions, each once; so the number of a slot's binding
stays the same for good. A binding keeps what the first definition of its slot says, and collects
the accesses of all of them. Only its type may change, into the dynamic one.
-/

namespace ShaderKit

inductive SlotCall where
  | define (s : ResourceSlot)
  | makeDynamic (maxUniform maxStorage : Nat)
  deriving DecidableEq, Repr

namespace SlotCall

def definition? : SlotCall → Option ResourceSlot
  | define s => some s
  | makeDynamic _ _ => none

def definitions (calls : List SlotCall) : List ResourceSlot := calls.filterMap definition?

end SlotCall

namespace ResourceSlot

variable {b d : ResourceSlot} {ds : List ResourceSlot}

/-- The accesses that definitions state for a slot, taken together. -/
def accessIn (ds : List ResourceSlot) (slot : UInt32) : UInt32 :=
  ((ds.filter (·.slot = slot)).map (·.access)).foldl (· ||| ·) 0

/-- A binding says what the first definition of its slot says, with the accesses of all. It may have
got a dynamic offset. -/
structure Collects (b : ResourceSlot) (ds : List ResourceSlot) : Prop where
  first : ∃ first, ds.find? (·.slot = b.slot) = some first ∧ b.view = first.view ∧
    (b.type = first.type ∨ b.type = first.type.toDynamic)
  access_eq : b.access = accessIn ds b.slot

theorem accessIn_append (ds : List ResourceSlot) (d : ResourceSlot) (slot : UInt32) :
    accessIn (ds ++ [d]) slot =
      if d.slot = slot then accessIn ds slot ||| d.access else accessIn ds slot := by
  rw [accessIn, List.filter_append, List.map_append, List.foldl_append, ← accessIn]
  by_cases hslot : d.slot = slot <;> simp [hslot]

theorem Collects.append_of_ne (h : b.Collects ds) (hne : d.slot ≠ b.slot) :
    b.Collects (ds ++ [d]) := by
  obtain ⟨⟨first, hfirst, hsays⟩, haccess⟩ := h
  refine ⟨⟨first, ?_, hsays⟩, ?_⟩
  · rw [List.find?_append, hfirst, Option.some_or]
  · rw [accessIn_append, if_neg hne, haccess]

theorem Collects.append_of_eq (h : b.Collects ds) (heq : d.slot = b.slot) :
    ({ b with access := b.access ||| d.access } : ResourceSlot).Collects (ds ++ [d]) := by
  obtain ⟨⟨first, hfirst, hsays⟩, haccess⟩ := h
  refine ⟨⟨first, ?_, hsays⟩, ?_⟩
  · rw [List.find?_append, hfirst, Option.some_or]
  · rw [accessIn_append, if_pos heq, haccess]

theorem collects_append_self (hnew : ∀ e ∈ ds, e.slot ≠ d.slot) : d.Collects (ds ++ [d]) := by
  constructor
  · refine ⟨d, ?_, rfl, .inl rfl⟩
    have hnone : ds.find? (·.slot = d.slot) = none :=
      List.find?_eq_none.2 fun e he heq => hnew e he (of_decide_eq_true heq)
    rw [List.find?_append, hnone, Option.none_or, List.find?_singleton, if_pos (by simp)]
  · have hnil : ds.filter (·.slot = d.slot) = [] :=
      List.filter_eq_nil_iff.2 fun e he heq => hnew e he (of_decide_eq_true heq)
    rw [accessIn_append, if_pos rfl, accessIn, hnil]
    simp

theorem Collects.withType {type : DescriptorType} (h : b.Collects ds)
    (htype : type = b.type ∨ type = b.type.toDynamic) :
    ({ b with type } : ResourceSlot).Collects ds := by
  obtain ⟨⟨first, hfirst, hview, hfirstType⟩, haccess⟩ := h
  have htwice : first.type.toDynamic.toDynamic = first.type.toDynamic := by
    cases first.type <;> rfl
  refine ⟨⟨first, hfirst, hview, ?_⟩, haccess⟩
  rcases htype with rfl | rfl
  · exact hfirstType
  · rcases hfirstType with heq | heq
    · exact .inr (congrArg DescriptorType.toDynamic heq)
    · exact .inr ((congrArg DescriptorType.toDynamic heq).trans htwice)

end ResourceSlot

namespace SlotMapping

variable {m : SlotMapping} {s : ResourceSlot} {ds : List ResourceSlot} {slot : UInt32} {i : Nat}

def slots (m : SlotMapping) : List UInt32 := m.bindings.map (·.slot)

def apply (m : SlotMapping) : SlotCall → SlotMapping
  | .define s => m.define s
  | .makeDynamic maxUniform maxStorage => m.makeDynamic maxUniform maxStorage

def run (m : SlotMapping) (calls : List SlotCall) : SlotMapping := calls.foldl apply m

theorem mem_slots_iff : slot ∈ m.slots ↔ ∃ b ∈ m.bindings, b.slot = slot := List.mem_map

theorem bindingId?_eq_none_iff : m.bindingId? slot = none ↔ slot ∉ m.slots := by
  rw [bindingId?, List.findIdx?_eq_none_iff, mem_slots_iff]
  simp

/-- Where no slot stands twice, the binding of a slot is the one at which it stands. -/
theorem bindingId?_eq_some_iff (hnodup : m.slots.Nodup) :
    m.bindingId? slot = some i ↔ m.slots[i]? = some slot := by
  have hsearch : m.bindingId? slot = m.slots.idxOf? slot := by
    rw [bindingId?, slots, List.idxOf?, List.findIdx?_map]
    rfl
  rw [hsearch, List.idxOf?_eq_some_iff, List.getElem?_eq_some_iff]
  constructor
  · rintro ⟨hi, hslot, -⟩
    exact ⟨hi, hslot⟩
  · rintro ⟨hi, rfl⟩
    refine ⟨hi, rfl, fun j hj hslot => ?_⟩
    exact absurd (hnodup.getElem_inj_iff.1 hslot) (Nat.ne_of_lt hj)

theorem getElem?_slots_eq_some_iff :
    m.slots[i]? = some slot ↔ ∃ b, m.bindings[i]? = some b ∧ b.slot = slot := by
  rw [slots, List.getElem?_map, Option.map_eq_some_iff]

theorem bindings_define_of_notMem (h : s.slot ∉ m.slots) :
    (m.define s).bindings = m.bindings ++ [s] := by
  rw [define, bindingId?_eq_none_iff.2 h]

theorem bindings_define_of_mem (hnodup : m.slots.Nodup) (h : s.slot ∈ m.slots) :
    (m.define s).bindings = m.bindings.map fun b =>
      if s.slot = b.slot then { b with access := b.access ||| s.access } else b := by
  obtain ⟨i, hi⟩ : ∃ i, m.bindingId? s.slot = some i :=
    Option.ne_none_iff_exists'.1 fun hnone => bindingId?_eq_none_iff.1 hnone h
  rw [define, hi]
  refine List.ext_getElem? fun j => ?_
  rw [List.getElem?_modify, List.getElem?_map]
  cases hb : m.bindings[j]? with
  | none => rfl
  | some b =>
    -- As no slot stands twice, the place that was found is the only one with this slot.
    have hiff : i = j ↔ s.slot = b.slot := by
      have hj : m.bindingId? b.slot = some j :=
        (bindingId?_eq_some_iff hnodup).2 (getElem?_slots_eq_some_iff.2 ⟨b, hb, rfl⟩)
      constructor
      · rintro rfl
        rw [bindingId?_eq_some_iff hnodup] at hi hj
        exact Option.some.inj (hi.symm.trans hj)
      · intro hslot
        rw [hslot, hj] at hi
        exact (Option.some.inj hi).symm
    simp [hiff]

/-- A mapping has the slots of definitions in the order in which they came first, and its bindings
collect what the definitions say. -/
structure Follows (m : SlotMapping) (ds : List ResourceSlot) : Prop where
  nodup : m.slots.Nodup
  slots_eq : m.slots = (ds.map (·.slot)).eraseDups
  collects : ∀ b ∈ m.bindings, b.Collects ds

theorem follows_empty : empty.Follows [] where
  nodup := List.nodup_nil
  slots_eq := rfl
  collects _ hb := absurd hb List.not_mem_nil

theorem Follows.mem_iff (h : m.Follows ds) : slot ∈ m.slots ↔ ∃ d ∈ ds, d.slot = slot := by
  rw [h.slots_eq, List.mem_eraseDups, List.mem_map]

theorem Follows.define_of_notMem (h : m.Follows ds) (hnew : s.slot ∉ m.slots) :
    (m.define s).Follows (ds ++ [s]) := by
  have hbindings := bindings_define_of_notMem hnew
  have hslots : (m.define s).slots = m.slots ++ [s.slot] := by
    rw [slots, hbindings, List.map_append, List.map_singleton, ← slots]
  have hds : ∀ d ∈ ds, d.slot ≠ s.slot := fun d hd heq => hnew (h.mem_iff.2 ⟨d, hd, heq⟩)
  constructor
  · rw [hslots]
    exact h.nodup.append (List.nodup_singleton _) (by simpa using hnew)
  · have hremove : [s.slot].removeAll (ds.map (·.slot)) = [s.slot] := by
      simpa [List.removeAll] using hds
    rw [hslots, h.slots_eq, List.map_append, List.eraseDups_append, List.map_singleton, hremove]
    rfl
  · rw [hbindings]
    intro b hb
    rcases List.mem_append.1 hb with hold | hself
    · have hne : s.slot ≠ b.slot := fun heq => hnew (mem_slots_iff.2 ⟨b, hold, heq.symm⟩)
      exact (h.collects b hold).append_of_ne hne
    · rw [List.mem_singleton.1 hself]
      exact ResourceSlot.collects_append_self hds

theorem Follows.define_of_mem (h : m.Follows ds) (hold : s.slot ∈ m.slots) :
    (m.define s).Follows (ds ++ [s]) := by
  have hbindings := bindings_define_of_mem h.nodup hold
  have hslots : (m.define s).slots = m.slots := by
    rw [slots, hbindings, List.map_map, slots]
    refine List.map_congr_left fun b _ => ?_
    simp only [Function.comp_apply]
    split <;> rfl
  constructor
  · rw [hslots]
    exact h.nodup
  · have hremove : [s.slot].removeAll (ds.map (·.slot)) = [] := by
      obtain ⟨d, hd, heq⟩ := h.mem_iff.1 hold
      simpa [List.removeAll] using ⟨d, hd, heq⟩
    rw [hslots, h.slots_eq, List.map_append, List.eraseDups_append, List.map_singleton, hremove,
      List.eraseDups_nil, List.append_nil]
  · rw [hbindings]
    intro b hb
    obtain ⟨b', hb', rfl⟩ := List.mem_map.1 hb
    by_cases hslot : s.slot = b'.slot
    · rw [if_pos hslot]
      exact (h.collects b' hb').append_of_eq hslot
    · rw [if_neg hslot]
      exact (h.collects b' hb').append_of_ne hslot

theorem Follows.makeDynamic (h : m.Follows ds) (maxUniform maxStorage : Nat) :
    (m.makeDynamic maxUniform maxStorage).Follows ds := by
  have hbindings := m.bindings_makeDynamic maxUniform maxStorage
  have hslots : (m.makeDynamic maxUniform maxStorage).slots = m.slots := by
    rw [slots, hbindings, List.map_map, slots]
    rfl
  refine ⟨?_, ?_, ?_⟩
  · rw [hslots]
    exact h.nodup
  · rw [hslots, h.slots_eq]
  · rw [hbindings]
    intro b hb
    obtain ⟨b', hb', rfl⟩ := List.mem_map.1 hb
    exact (h.collects b' hb').withType (m.offsetType_eq_or maxUniform maxStorage b'.type)

theorem Follows.apply (h : m.Follows ds) (call : SlotCall) :
    (m.apply call).Follows (ds ++ SlotCall.definitions [call]) := by
  cases call with
  | define s =>
    by_cases hmem : s.slot ∈ m.slots
    · exact h.define_of_mem hmem
    · exact h.define_of_notMem hmem
  | makeDynamic maxUniform maxStorage =>
    have hds : ds ++ SlotCall.definitions [.makeDynamic maxUniform maxStorage] = ds :=
      List.append_nil ds
    rw [hds]
    exact h.makeDynamic maxUniform maxStorage

theorem Follows.run (h : m.Follows ds) (calls : List SlotCall) :
    (m.run calls).Follows (ds ++ SlotCall.definitions calls) := by
  induction calls generalizing m ds with
  | nil =>
    have hds : ds ++ SlotCall.definitions [] = ds := List.append_nil ds
    rw [hds]
    exact h
  | cons call calls ih =>
    have hds : SlotCall.definitions (call :: calls) =
        SlotCall.definitions [call] ++ SlotCall.definitions calls :=
      List.filterMap_append (l := [call])
    rw [hds, ← List.append_assoc]
    exact ih (h.apply call)

theorem follows_run_empty (calls : List SlotCall) :
    (empty.run calls).Follows (SlotCall.definitions calls) := follows_empty.run calls

/-- There are no more bindings than slots can be told apart, so that a word holds the number of each
binding. -/
theorem Follows.length_le (h : m.Follows ds) : m.bindings.length ≤ UInt32.size := by
  have hnumbers : (m.slots.map UInt32.toNat).Nodup :=
    h.nodup.map fun slot slot' heq => UInt32.toNat_inj.1 heq
  have hsubset : m.slots.map UInt32.toNat ⊆ List.range UInt32.size := by
    intro number hnumber
    obtain ⟨slot, -, rfl⟩ := List.mem_map.1 hnumber
    exact List.mem_range.2 slot.toNat_lt
  have hle := (List.subperm_of_subset hnumbers hsubset).length_le
  rwa [List.length_map, slots, List.length_map, List.length_range] at hle

theorem Follows.bindingId?_eq_some_iff (h : m.Follows ds) :
    m.bindingId? slot = some i ↔ ∃ b, m.bindings[i]? = some b ∧ b.slot = slot :=
  (SlotMapping.bindingId?_eq_some_iff h.nodup).trans getElem?_slots_eq_some_iff

theorem Follows.bindingId?_eq_none_iff (h : m.Follows ds) :
    m.bindingId? slot = none ↔ ∀ d ∈ ds, d.slot ≠ slot := by
  rw [SlotMapping.bindingId?_eq_none_iff, h.mem_iff]
  simp

/-- Later slots stand behind those that are there, which therefore keep their bindings. -/
theorem Follows.bindingId?_run (h : m.Follows ds) (calls : List SlotCall)
    (hslot : m.bindingId? slot = some i) : (m.run calls).bindingId? slot = some i := by
  have hlater := h.run calls
  have hslots : m.slots <+: (m.run calls).slots := by
    rw [hlater.slots_eq, List.map_append, List.eraseDups_append, ← h.slots_eq]
    exact List.prefix_append ..
  rw [SlotMapping.bindingId?_eq_some_iff h.nodup] at hslot
  rw [SlotMapping.bindingId?_eq_some_iff hlater.nodup]
  obtain ⟨hi, rfl⟩ := List.getElem?_eq_some_iff.1 hslot
  exact List.prefix_iff_getElem?.1 hslots i hi

/-- After any calls, the slots that were defined stand in the order of their first definitions, each
once, and each binding collects what was said of its slot. The number of a slot is that of the
binding at which it stands, in the mapping and in the layout that is made of it, and a slot has none
as long as it is not defined. Once it has a number it keeps it. -/
theorem bindings_follow_definitions (calls : List SlotCall) :
    let m := empty.run calls
    let ds := SlotCall.definitions calls
    (m.slots = (ds.map (·.slot)).eraseDups ∧ m.slots.Nodup ∧ m.bindings.length ≤ UInt32.size) ∧
      (∀ b ∈ m.bindings, b.Collects ds) ∧
      (∀ slot i, m.bindingId? slot = some i ↔ ∃ b, m.bindings[i]? = some b ∧ b.slot = slot) ∧
      (∀ slot, m.bindingId? slot = none ↔ ∀ d ∈ ds, d.slot ≠ slot) ∧
      (∀ later slot i, m.bindingId? slot = some i → (m.run later).bindingId? slot = some i) ∧
      ∀ d ∈ ds, ∃ i b, m.bindingId? d.slot = some i ∧
        (PipelineLayout.ofMapping m).binding? i = some b ∧ b.slot = d.slot := by
  intro m ds
  have h : m.Follows ds := follows_run_empty calls
  refine ⟨⟨h.slots_eq, h.nodup, h.length_le⟩, h.collects, fun slot i => h.bindingId?_eq_some_iff,
    fun slot => h.bindingId?_eq_none_iff, fun later slot i => h.bindingId?_run later,
    fun d hd => ?_⟩
  obtain ⟨i, hi⟩ : ∃ i, m.bindingId? d.slot = some i :=
    Option.ne_none_iff_exists'.1 fun hnone => h.bindingId?_eq_none_iff.1 hnone d hd rfl
  obtain ⟨b, hb, hslot⟩ := h.bindingId?_eq_some_iff.1 hi
  exact ⟨i, b, hi, hb, hslot⟩

/-- A slot is defined again after it got a dynamic offset, as another thing and with accesses that
have no names, and another slot between. -/
def repeatedCalls : List SlotCall :=
  [.define ⟨10, .storageBuffer, .none, 1⟩, .makeDynamic 4 4, .define ⟨3, .uniformBuffer, .none, 1⟩,
    .define ⟨10, .sampler, .d2, 0x80000002⟩]

theorem bindings_of_repeatedCalls :
    let m := empty.run repeatedCalls
    m.bindings =
        [⟨10, .storageBufferDynamic, .none, 0x80000003⟩, ⟨3, .uniformBuffer, .none, 1⟩] ∧
      (∀ b ∈ m.bindings, b.Collects (SlotCall.definitions repeatedCalls)) ∧
      m.bindingId? 3 = some 1 ∧ m.bindingId? 4 = none ∧
      (m.run [.define ⟨4, .sampler, .none, 0⟩, .makeDynamic 1 1]).bindingId? 3 = some 1 ∧
      ∃ i b, m.bindingId? 10 = some i ∧ (PipelineLayout.ofMapping m).binding? i = some b ∧
        b.slot = 10 := by
  intro m
  obtain ⟨-, hcollects, -, hnone, hlater, hlayout⟩ := bindings_follow_definitions repeatedCalls
  have hthree : m.bindingId? 3 = some 1 := by decide
  exact ⟨by decide, hcollects, hthree, (hnone 4).2 (by decide), hlater _ 3 1 hthree,
    hlayout ⟨10, .storageBuffer, .none, 1⟩ (by decide)⟩

end SlotMapping

end ShaderKit

import Mathlib.Data.List.Range
import ShaderKit.PipelineLayout

/-!
# Dynamic offsets

Giving dynamic offsets to a kind of buffers gives them to all of the kind or to none, as the limit
decides. A kind to which they were given has no buffers left, so that a second time nothing remains
to be done; and what happens to one kind cannot be seen in the number of buffers of another. Two
passes with limits of their own are therefore one pass with the larger limit of each kind.
-/

namespace ShaderKit

/-- The positions at which a list changes are as many as the items that change. -/
theorem length_changes {α : Type} [DecidableEq α] (items : List α) (change : α → α) :
    ((List.range items.length).filter fun i => (items.map change)[i]? ≠ items[i]?).length =
      items.countP fun a => change a ≠ a := by
  induction items with
  | nil => rfl
  | cons a items ih =>
    rw [List.length_cons, List.range_succ_eq_map, List.filter_cons, List.filter_map,
      List.countP_cons, ← ih]
    by_cases ha : change a = a <;> simp [ha, Function.comp_def]

namespace SlotMapping

variable {m n : SlotMapping} {type kind : DescriptorType} {limit limit' : Nat}

theorem eq_of_bindings_eq (h : m.bindings = n.bindings) : m = n := congrArg SlotMapping.mk h

section OneKind

theorem bindings_makeTypeDynamic (m : SlotMapping) (type : DescriptorType) (limit : Nat) :
    (m.makeTypeDynamic type limit).bindings = m.bindings.map fun b =>
      if b.type = type ∧ m.count type ≤ limit then { b with type := type.toDynamic } else b := by
  by_cases hfits : m.count type ≤ limit
  · rw [makeTypeDynamic, if_pos hfits]
    simp only [hfits, and_true]
  · rw [makeTypeDynamic, if_neg hfits]
    simp only [hfits, and_false, if_false, List.map_id']

theorem makeTypeDynamic_of_count_eq_zero (h : m.count type = 0) (limit : Nat) :
    m.makeTypeDynamic type limit = m := by
  have hnone : ∀ b ∈ m.bindings, b.type ≠ type := by
    intro b hb hbtype
    exact List.countP_eq_zero.1 h b hb (decide_eq_true hbtype)
  apply eq_of_bindings_eq
  rw [bindings_makeTypeDynamic]
  refine (List.map_congr_left fun b hb => ?_).trans (List.map_id _)
  exact if_neg fun hconverted => hnone b hb hconverted.1

theorem makeTypeDynamic_of_lt (h : limit < m.count type) : m.makeTypeDynamic type limit = m :=
  if_neg (Nat.not_le.2 h)

/-- No buffers are left of a kind that was converted. -/
theorem count_makeTypeDynamic_of_le (htype : type.toDynamic ≠ type) (h : m.count type ≤ limit) :
    (m.makeTypeDynamic type limit).count type = 0 := by
  rw [count, bindings_makeTypeDynamic, List.countP_map, List.countP_eq_zero]
  intro b _ hb
  by_cases hbtype : b.type = type
  · simp [hbtype, h, htype] at hb
  · simp [hbtype] at hb

theorem count_makeTypeDynamic_of_ne (hkind : kind ≠ type) (hdynamic : kind ≠ type.toDynamic)
    (limit : Nat) : (m.makeTypeDynamic type limit).count kind = m.count kind := by
  rw [count, count, bindings_makeTypeDynamic, List.countP_map]
  refine List.countP_congr fun b _ => ?_
  by_cases hbtype : b.type = type
  · by_cases hfits : m.count type ≤ limit
    · simp [hbtype, hfits, hkind.symm, hdynamic.symm]
    · simp [hfits]
  · simp [hbtype]

/-- Two conversions of a kind are one with the larger limit. -/
theorem makeTypeDynamic_makeTypeDynamic (htype : type.toDynamic ≠ type) (m : SlotMapping)
    (limit limit' : Nat) :
    (m.makeTypeDynamic type limit).makeTypeDynamic type limit' =
      m.makeTypeDynamic type (max limit limit') := by
  -- What the first conversion left as it was is left to the second, and else there is nothing left.
  rcases Nat.lt_or_ge limit (m.count type) with hlt | hle
  · rw [makeTypeDynamic_of_lt hlt, makeTypeDynamic, makeTypeDynamic]
    have hiff : m.count type ≤ max limit limit' ↔ m.count type ≤ limit' := by omega
    simp only [hiff]
  · rw [makeTypeDynamic_of_count_eq_zero (count_makeTypeDynamic_of_le htype hle), makeTypeDynamic,
      makeTypeDynamic, if_pos hle, if_pos (Nat.le_trans hle (Nat.le_max_left ..))]

/-- Conversions of two kinds do not see each other. -/
theorem makeTypeDynamic_comm (hne : kind ≠ type) (htype : type ≠ kind.toDynamic)
    (hkind : kind ≠ type.toDynamic) (m : SlotMapping) (limit limit' : Nat) :
    (m.makeTypeDynamic type limit).makeTypeDynamic kind limit' =
      (m.makeTypeDynamic kind limit').makeTypeDynamic type limit := by
  apply eq_of_bindings_eq
  simp only [bindings_makeTypeDynamic, List.map_map, count_makeTypeDynamic_of_ne hne hkind,
    count_makeTypeDynamic_of_ne hne.symm htype]
  refine List.map_congr_left fun b _ => ?_
  simp only [Function.comp_apply]
  by_cases hbtype : b.type = type
  · by_cases hfits : m.count type ≤ limit <;>
      simp [hbtype, hfits, hne.symm, hkind.symm]
  · by_cases hbkind : b.type = kind
    · by_cases hfits : m.count kind ≤ limit' <;>
        simp [hbkind, hfits, hne, htype.symm]
    · simp [hbtype, hbkind]

end OneKind

/-- The type of a binding after dynamic offsets were given: a kind of buffers changes if there are
no more of them than its limit. -/
def offsetType (m : SlotMapping) (maxUniform maxStorage : Nat) : DescriptorType → DescriptorType
  | .uniformBuffer =>
    if m.count .uniformBuffer ≤ maxUniform then .uniformBufferDynamic else .uniformBuffer
  | .storageBuffer =>
    if m.count .storageBuffer ≤ maxStorage then .storageBufferDynamic else .storageBuffer
  | type => type

/-- The positions at which giving dynamic offsets changes the binding. -/
def converted (m : SlotMapping) (maxUniform maxStorage : Nat) : List Nat :=
  (List.range m.bindings.length).filter fun i =>
    (m.makeDynamic maxUniform maxStorage).bindings[i]? ≠ m.bindings[i]?

section BothKinds

variable {maxUniform maxStorage maxUniform' maxStorage' : Nat}

theorem bindings_makeDynamic (m : SlotMapping) (maxUniform maxStorage : Nat) :
    (m.makeDynamic maxUniform maxStorage).bindings = m.bindings.map fun b =>
      { b with type := m.offsetType maxUniform maxStorage b.type } := by
  rw [makeDynamic, bindings_makeTypeDynamic, bindings_makeTypeDynamic,
    count_makeTypeDynamic_of_ne (by decide) (by decide), List.map_map]
  refine List.map_congr_left fun b _ => ?_
  obtain ⟨slot, type, view, access⟩ := b
  cases type with
  | uniformBuffer =>
    by_cases hfits : m.count .uniformBuffer ≤ maxUniform <;>
      simp [offsetType, hfits, DescriptorType.toDynamic]
  | storageBuffer =>
    by_cases hfits : m.count .storageBuffer ≤ maxStorage <;>
      simp [offsetType, hfits, DescriptorType.toDynamic]
  | _ => rfl

/-- Two passes are one with the larger limits. -/
theorem makeDynamic_makeDynamic (m : SlotMapping)
    (maxUniform maxStorage maxUniform' maxStorage' : Nat) :
    (m.makeDynamic maxUniform maxStorage).makeDynamic maxUniform' maxStorage' =
      m.makeDynamic (max maxUniform maxUniform') (max maxStorage maxStorage') := by
  simp only [makeDynamic]
  rw [makeTypeDynamic_comm (by decide) (by decide) (by decide) (m.makeTypeDynamic _ _) maxStorage
      maxUniform', makeTypeDynamic_makeTypeDynamic (by decide),
    makeTypeDynamic_makeTypeDynamic (by decide)]

theorem offsetType_eq_or (m : SlotMapping) (maxUniform maxStorage : Nat) (type : DescriptorType) :
    m.offsetType maxUniform maxStorage type = type ∨
      m.offsetType maxUniform maxStorage type = type.toDynamic := by
  cases type with
  | uniformBuffer => exact (ite_eq_or_eq _ _ _).symm
  | storageBuffer => exact (ite_eq_or_eq _ _ _).symm
  | _ => exact .inl rfl

theorem offsetType_ne_iff :
    m.offsetType maxUniform maxStorage type ≠ type ↔
      type = .uniformBuffer ∧ m.count .uniformBuffer ≤ maxUniform ∨
        type = .storageBuffer ∧ m.count .storageBuffer ≤ maxStorage := by
  cases type with
  | uniformBuffer =>
    by_cases hfits : m.count .uniformBuffer ≤ maxUniform <;> simp [offsetType, hfits]
  | storageBuffer =>
    by_cases hfits : m.count .storageBuffer ≤ maxStorage <;> simp [offsetType, hfits]
  | _ => simp [offsetType]

/-- A larger limit lets a kind through that a smaller one let through. -/
theorem offsetType_ne_of_le (huniform : maxUniform ≤ maxUniform')
    (hstorage : maxStorage ≤ maxStorage') (h : m.offsetType maxUniform maxStorage type ≠ type) :
    m.offsetType maxUniform' maxStorage' type ≠ type := by
  apply offsetType_ne_iff.2
  rcases offsetType_ne_iff.1 h with ⟨htype, hfits⟩ | ⟨htype, hfits⟩
  · exact .inl ⟨htype, Nat.le_trans hfits huniform⟩
  · exact .inr ⟨htype, Nat.le_trans hfits hstorage⟩

/-- A binding that has a dynamic offset afterwards had one before or was converted, not both. -/
theorem isDynamic_offsetType (m : SlotMapping) (maxUniform maxStorage : Nat)
    (type : DescriptorType) :
    (if (m.offsetType maxUniform maxStorage type).isDynamic then 1 else 0) =
      (if type.isDynamic then 1 else 0) +
        if m.offsetType maxUniform maxStorage type ≠ type then 1 else 0 := by
  cases type with
  | uniformBuffer =>
    by_cases hfits : m.count .uniformBuffer ≤ maxUniform <;>
      simp [offsetType, hfits, DescriptorType.isDynamic]
  | storageBuffer =>
    by_cases hfits : m.count .storageBuffer ≤ maxStorage <;>
      simp [offsetType, hfits, DescriptorType.isDynamic]
  | _ => rfl

theorem getElem?_makeDynamic_ne_iff {i : Nat} :
    (m.makeDynamic maxUniform maxStorage).bindings[i]? ≠ m.bindings[i]? ↔
      ∃ b, m.bindings[i]? = some b ∧ m.offsetType maxUniform maxStorage b.type ≠ b.type := by
  rw [bindings_makeDynamic, List.getElem?_map]
  cases m.bindings[i]? with
  | none => simp
  | some b =>
    obtain ⟨slot, type, view, access⟩ := b
    simp

theorem mem_converted_iff {i : Nat} :
    i ∈ m.converted maxUniform maxStorage ↔
      ∃ b, m.bindings[i]? = some b ∧ m.offsetType maxUniform maxStorage b.type ≠ b.type := by
  rw [converted, List.mem_filter, decide_eq_true_iff, getElem?_makeDynamic_ne_iff, List.mem_range]
  constructor
  · exact And.right
  · rintro ⟨b, hb, hne⟩
    exact ⟨(List.getElem?_eq_some_iff.1 hb).1, b, hb, hne⟩

theorem length_converted (m : SlotMapping) (maxUniform maxStorage : Nat) :
    (m.converted maxUniform maxStorage).length =
      m.bindings.countP fun b => m.offsetType maxUniform maxStorage b.type ≠ b.type := by
  rw [converted, bindings_makeDynamic, length_changes]
  refine List.countP_congr fun b _ => ?_
  obtain ⟨slot, type, view, access⟩ := b
  simp

/-- The types go by the numbers of buffers in the whole mapping, whichever bindings are counted. -/
theorem countP_isDynamic_map (m : SlotMapping) (maxUniform maxStorage : Nat)
    (bindings : List ResourceSlot) :
    (bindings.map fun b => { b with type := m.offsetType maxUniform maxStorage b.type }).countP
        (·.type.isDynamic) =
      bindings.countP (·.type.isDynamic) +
        bindings.countP fun b => m.offsetType maxUniform maxStorage b.type ≠ b.type := by
  induction bindings with
  | nil => rfl
  | cons b bindings ih =>
    have hb := m.isDynamic_offsetType maxUniform maxStorage b.type
    rw [List.map_cons, List.countP_cons, List.countP_cons, List.countP_cons, ih, hb]
    simp only [decide_eq_true_iff]
    omega

theorem dynamicCount_makeDynamic (m : SlotMapping) (maxUniform maxStorage : Nat) :
    (PipelineLayout.ofMapping (m.makeDynamic maxUniform maxStorage)).dynamicCount =
      (PipelineLayout.ofMapping m).dynamicCount + (m.converted maxUniform maxStorage).length := by
  rw [length_converted, PipelineLayout.dynamicCount, PipelineLayout.ofMapping,
    bindings_makeDynamic]
  exact m.countP_isDynamic_map maxUniform maxStorage m.bindings

/-- All buffers of a kind become dynamic or none does, as many as there are of the kind against its
limit; the bindings stay in their places and all else in them stays as it is. A second pass with
the same limits does nothing, larger limits convert no less, and one pass for each kind does the
same as one for both. The layout has as many more dynamic bindings as were converted. -/
theorem whole_kinds_become_dynamic (m : SlotMapping) (maxUniform maxStorage : Nat) :
    (m.makeDynamic maxUniform maxStorage).bindings =
        m.bindings.map (fun b => { b with type := m.offsetType maxUniform maxStorage b.type }) ∧
      (m.makeDynamic maxUniform maxStorage).makeDynamic maxUniform maxStorage =
        m.makeDynamic maxUniform maxStorage ∧
      (∀ maxUniform' maxStorage', maxUniform ≤ maxUniform' → maxStorage ≤ maxStorage' →
        m.converted maxUniform maxStorage ⊆ m.converted maxUniform' maxStorage') ∧
      (m.makeDynamic maxUniform 0).makeDynamic 0 maxStorage =
        m.makeDynamic maxUniform maxStorage ∧
      (PipelineLayout.ofMapping (m.makeDynamic maxUniform maxStorage)).dynamicCount =
        (PipelineLayout.ofMapping m).dynamicCount + (m.converted maxUniform maxStorage).length := by
  refine ⟨m.bindings_makeDynamic maxUniform maxStorage, ?_, ?_, ?_,
    m.dynamicCount_makeDynamic maxUniform maxStorage⟩
  · rw [makeDynamic_makeDynamic, Nat.max_self, Nat.max_self]
  · intro maxUniform' maxStorage' huniform hstorage i hi
    obtain ⟨b, hb, hne⟩ := mem_converted_iff.1 hi
    exact mem_converted_iff.2 ⟨b, hb, offsetType_ne_of_le huniform hstorage hne⟩
  · rw [makeDynamic_makeDynamic, Nat.max_zero, Nat.zero_max]

/-- Two uniform buffers, a storage buffer and an image. -/
def mixedMapping : SlotMapping :=
  ⟨[⟨0, .uniformBuffer, .none, 1⟩, ⟨1, .uniformBuffer, .none, 1⟩, ⟨2, .storageBuffer, .none, 1⟩,
    ⟨3, .sampledImage, .d2, 1⟩]⟩

theorem converted_mixedMapping :
    (mixedMapping.makeDynamic 1 4).bindings.map (·.type) =
        [.uniformBuffer, .uniformBuffer, .storageBufferDynamic, .sampledImage] ∧
      mixedMapping.converted 1 4 = [2] ∧ mixedMapping.converted 2 4 = [0, 1, 2] ∧
      mixedMapping.converted 1 4 ⊆ mixedMapping.converted 2 4 ∧
      (mixedMapping.makeDynamic 1 0).makeDynamic 0 4 = mixedMapping.makeDynamic 1 4 ∧
      (PipelineLayout.ofMapping (mixedMapping.makeDynamic 1 4)).dynamicCount = 1 := by
  obtain ⟨hbindings, -, hlarger, hsplit, hdynamic⟩ := whole_kinds_become_dynamic mixedMapping 1 4
  refine ⟨?_, by decide, by decide, hlarger 2 4 (by decide) (by decide), hsplit,
    hdynamic.trans (by decide)⟩
  rw [hbindings]
  decide

end BothKinds

end SlotMapping

end ShaderKit

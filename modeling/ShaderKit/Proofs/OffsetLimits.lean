import ShaderKit.PipelineManager
import ShaderKit.Proofs.DynamicOffsets

/-!
# Limits on dynamic offsets

A kind of buffers gets dynamic offsets if the limit admits its buffers that have none yet. Slots
that a shader declares with a dynamic offset from the start are not counted, though they take up
dynamic offsets of the layout too. The layout keeps to the limit exactly if the buffers of both
forms fit into it together.
-/

namespace ShaderKit

namespace SlotMapping

variable {type : DescriptorType}

/-- The bindings with a dynamic offset are those that had one and those that get one. -/
theorem countP_toDynamic_map (htype : type.toDynamic ≠ type) (bindings : List ResourceSlot) :
    (bindings.map fun b => if b.type = type then { b with type := type.toDynamic } else b).countP
        (·.type = type.toDynamic) =
      bindings.countP (·.type = type.toDynamic) + bindings.countP (·.type = type) := by
  induction bindings with
  | nil => rfl
  | cons b bindings ih =>
    rw [List.map_cons, List.countP_cons, List.countP_cons, List.countP_cons, ih]
    by_cases hb : b.type = type
    · simp only [hb, if_true, decide_true, htype.symm, decide_false, Bool.false_eq_true, if_false]
      omega
    · simp only [hb, if_false, decide_false, Bool.false_eq_true]
      omega

theorem count_toDynamic_makeTypeDynamic (htype : type.toDynamic ≠ type) (m : SlotMapping)
    (limit : Nat) :
    (m.makeTypeDynamic type limit).count type.toDynamic =
      m.count type.toDynamic + if m.count type ≤ limit then m.count type else 0 := by
  by_cases hfits : m.count type ≤ limit
  · rw [makeTypeDynamic, if_pos hfits, if_pos hfits]
    exact countP_toDynamic_map htype m.bindings
  · rw [makeTypeDynamic_of_lt (Nat.lt_of_not_le hfits), if_neg hfits, Nat.add_zero]

/-- Neither kind of buffers adds to the dynamic offsets of the other. -/
theorem count_uniformBufferDynamic_makeDynamic (m : SlotMapping) (maxUniform maxStorage : Nat) :
    (m.makeDynamic maxUniform maxStorage).count .uniformBufferDynamic =
      m.count .uniformBufferDynamic +
        if m.count .uniformBuffer ≤ maxUniform then m.count .uniformBuffer else 0 := by
  rw [makeDynamic, count_makeTypeDynamic_of_ne (by decide) (by decide)]
  exact count_toDynamic_makeTypeDynamic (by decide) m maxUniform

theorem count_storageBufferDynamic_makeDynamic (m : SlotMapping) (maxUniform maxStorage : Nat) :
    (m.makeDynamic maxUniform maxStorage).count .storageBufferDynamic =
      m.count .storageBufferDynamic +
        if m.count .storageBuffer ≤ maxStorage then m.count .storageBuffer else 0 := by
  rw [makeDynamic, makeTypeDynamic_comm (by decide) (by decide) (by decide),
    count_makeTypeDynamic_of_ne (by decide) (by decide)]
  exact count_toDynamic_makeTypeDynamic (by decide) m maxStorage

end SlotMapping

namespace PipelineLayout

def count (l : PipelineLayout) (type : DescriptorType) : Nat := l.bindings.countP (·.type = type)

/-- Some binding of a type that was declared has a dynamic offset in the layout. -/
def Converts (l : PipelineLayout) (declared : SlotMapping) (type : DescriptorType) : Prop :=
  ∃ i b b', declared.bindings[i]? = some b ∧ b.type = type ∧
    l.binding? i = some b' ∧ b'.type = type.toDynamic

end PipelineLayout

namespace PipelineObject

variable {options : PipelineOptions} {shader : ComputeShader}

theorem count_layout_ofShader (options : PipelineOptions) (shader : ComputeShader)
    (type : DescriptorType) :
    (ofShader options shader).layout.count type =
      ((shader.defineSlots .empty).makeDynamic options.maxDynamicUniformBuffers
        options.maxDynamicStorageBuffers).count type := rfl

def layoutType (options : PipelineOptions) (shader : ComputeShader) :
    DescriptorType → DescriptorType :=
  (shader.defineSlots .empty).offsetType options.maxDynamicUniformBuffers
    options.maxDynamicStorageBuffers

theorem binding?_layout_ofShader (options : PipelineOptions) (shader : ComputeShader) (i : Nat) :
    (ofShader options shader).layout.binding? i =
      (shader.defineSlots .empty).bindings[i]?.map fun b =>
        { b with type := layoutType options shader b.type } := by
  change ((shader.defineSlots .empty).makeDynamic _ _).bindings[i]? = _
  rw [SlotMapping.bindings_makeDynamic, List.getElem?_map]
  rfl

/-- A type is converted exactly if some binding of it is declared and the limits let it through. -/
theorem converts_iff {type : DescriptorType} (htype : type.toDynamic ≠ type) :
    (ofShader options shader).layout.Converts (shader.defineSlots .empty) type ↔
      0 < (shader.defineSlots .empty).count type ∧ layoutType options shader type ≠ type := by
  constructor
  · rintro ⟨i, b, b', hb, rfl, hb', hdynamic⟩
    rw [binding?_layout_ofShader, hb] at hb'
    cases hb'
    constructor
    · exact List.countP_pos_iff.2 ⟨b, List.mem_of_getElem? hb, decide_eq_true rfl⟩
    · have hlayout : layoutType options shader b.type = b.type.toDynamic := hdynamic
      rw [hlayout]
      exact htype
  · rintro ⟨hpos, hne⟩
    obtain ⟨b, hmem, hb⟩ := List.countP_pos_iff.1 hpos
    obtain rfl := of_decide_eq_true hb
    obtain ⟨i, hi⟩ := List.getElem?_of_mem hmem
    have hdynamic : layoutType options shader b.type = b.type.toDynamic :=
      (SlotMapping.offsetType_eq_or _ _ _ b.type).resolve_left hne
    refine ⟨i, b, { b with type := layoutType options shader b.type }, hi, rfl, ?_, hdynamic⟩
    rw [binding?_layout_ofShader, hi, Option.map_some]

theorem converts_uniformBuffer_iff :
    (ofShader options shader).layout.Converts (shader.defineSlots .empty) .uniformBuffer ↔
      0 < (shader.defineSlots .empty).count .uniformBuffer ∧
        (shader.defineSlots .empty).count .uniformBuffer ≤ options.maxDynamicUniformBuffers := by
  rw [converts_iff (by decide), layoutType, SlotMapping.offsetType_ne_iff]
  simp

theorem converts_storageBuffer_iff :
    (ofShader options shader).layout.Converts (shader.defineSlots .empty) .storageBuffer ↔
      0 < (shader.defineSlots .empty).count .storageBuffer ∧
        (shader.defineSlots .empty).count .storageBuffer ≤ options.maxDynamicStorageBuffers := by
  rw [converts_iff (by decide), layoutType, SlotMapping.offsetType_ne_iff]
  simp

/-- When a kind of buffers of a shader is converted, the layout keeps to the limit of that kind
exactly if the limit admits the declared buffers of both forms together: those that get a dynamic
offset, and those that were declared with one. -/
theorem offsets_within_limit_iff (options : PipelineOptions) (shader : ComputeShader) :
    let declared := shader.defineSlots .empty
    let layout := (ofShader options shader).layout
    (layout.Converts declared .uniformBuffer →
      (layout.count .uniformBufferDynamic ≤ options.maxDynamicUniformBuffers ↔
        declared.count .uniformBuffer + declared.count .uniformBufferDynamic ≤
          options.maxDynamicUniformBuffers)) ∧
    (layout.Converts declared .storageBuffer →
      (layout.count .storageBufferDynamic ≤ options.maxDynamicStorageBuffers ↔
        declared.count .storageBuffer + declared.count .storageBufferDynamic ≤
          options.maxDynamicStorageBuffers)) := by
  intro declared layout
  constructor
  · intro hconverts
    obtain ⟨-, hfits⟩ := converts_uniformBuffer_iff.1 hconverts
    rw [count_layout_ofShader, SlotMapping.count_uniformBufferDynamic_makeDynamic, if_pos hfits,
      Nat.add_comm]
  · intro hconverts
    obtain ⟨-, hfits⟩ := converts_storageBuffer_iff.1 hconverts
    rw [count_layout_ofShader, SlotMapping.count_storageBufferDynamic_makeDynamic, if_pos hfits,
      Nat.add_comm]

/-- A shader that declares of each kind of buffers one with a dynamic offset and one without. -/
def bothFormsShader : ComputeShader :=
  .ofInterface "cs" ⟨"fn main() \x7b\x7d", "main", ⟨1, 1, 1⟩, 0,
    [⟨0, .uniformBufferDynamic, .none, 1⟩, ⟨1, .uniformBuffer, .none, 1⟩,
      ⟨2, .storageBufferDynamic, .none, 1⟩, ⟨3, .storageBuffer, .none, 1⟩], []⟩

def withLimits (maxUniform maxStorage : Nat) : PipelineOptions :=
  { PipelineOptions.standard with
    maxDynamicUniformBuffers := maxUniform
    maxDynamicStorageBuffers := maxStorage }

/-- The limit of two admits both uniform buffers, and the limit of one does not admit both storage
buffers. -/
theorem offsets_of_bothFormsShader :
    let declared := bothFormsShader.defineSlots .empty
    let layout := (ofShader (withLimits 2 1) bothFormsShader).layout
    (layout.Converts declared .uniformBuffer ∧ layout.count .uniformBufferDynamic ≤ 2) ∧
      layout.Converts declared .storageBuffer ∧ ¬ layout.count .storageBufferDynamic ≤ 1 := by
  intro declared layout
  obtain ⟨huniform, hstorage⟩ := offsets_within_limit_iff (withLimits 2 1) bothFormsShader
  have hconverts : layout.Converts declared .uniformBuffer :=
    converts_uniformBuffer_iff.2 ⟨Nat.one_pos, Nat.le_succ 1⟩
  have hconverts' : layout.Converts declared .storageBuffer :=
    converts_storageBuffer_iff.2 ⟨Nat.one_pos, Nat.le_refl 1⟩
  refine ⟨⟨hconverts, (huniform hconverts).2 ?_⟩, hconverts', fun hle => ?_⟩
  · exact Nat.le_refl 2
  · exact absurd ((hstorage hconverts').1 hle) (Nat.not_succ_le_self 1)

/-- A declared dynamic offset is not counted: with a limit of one for each kind, both kinds are
converted, and the layout has two dynamic offsets of each. -/
theorem offsets_beyond_limits :
    let declared := bothFormsShader.defineSlots .empty
    let options := withLimits 1 1
    let layout := (ofShader options bothFormsShader).layout
    (layout.Converts declared .uniformBuffer ∧
        ¬ layout.count .uniformBufferDynamic ≤ options.maxDynamicUniformBuffers) ∧
      layout.Converts declared .storageBuffer ∧
        ¬ layout.count .storageBufferDynamic ≤ options.maxDynamicStorageBuffers := by
  intro declared options layout
  refine ⟨⟨?_, ?_⟩, ?_, ?_⟩
  · exact converts_uniformBuffer_iff.2 ⟨Nat.one_pos, Nat.le_refl 1⟩
  · exact Nat.not_succ_le_self 1
  · exact converts_storageBuffer_iff.2 ⟨Nat.one_pos, Nat.le_refl 1⟩
  · exact Nat.not_succ_le_self 1

end PipelineObject

end ShaderKit

/-!
# Pipeline layouts

Shaders name their resources by slots, which are arbitrary numbers. A pipeline binds them
densely, in the order in which the slots were first defined. A slot that is defined again
keeps its first definition, to which the new accesses are added. Uniform and storage buffers
can be bound with dynamic offsets, if all of a kind fit into the device's limit for it.
-/

namespace ShaderKit

inductive DescriptorType where
  | sampler
  | sampledImage
  | storageImage
  | uniformTexelBuffer
  | storageTexelBuffer
  | uniformBuffer
  | storageBuffer
  | uniformBufferDynamic
  | storageBufferDynamic
  deriving DecidableEq, Repr

namespace DescriptorType

def all : List DescriptorType :=
  [sampler, sampledImage, storageImage, uniformTexelBuffer, storageTexelBuffer, uniformBuffer,
    storageBuffer, uniformBufferDynamic, storageBufferDynamic]

def code (t : DescriptorType) : Nat := all.idxOf t

theorem code_injective {s t : DescriptorType} (h : s.code = t.code) : s = t := by
  cases s <;> cases t <;> first | rfl | exact absurd h (by decide)

def toDynamic : DescriptorType → DescriptorType
  | uniformBuffer => uniformBufferDynamic
  | storageBuffer => storageBufferDynamic
  | t => t

def isDynamic : DescriptorType → Bool
  | uniformBufferDynamic | storageBufferDynamic => true
  | _ => false

end DescriptorType

/-- The dimension of the image or texel buffer at a slot; `none` for other things. -/
inductive ViewType where
  | none
  | d1
  | d1Array
  | d2
  | d2Array
  | cube
  | cubeArray
  | d3
  | buffer
  deriving DecidableEq, Repr

namespace ViewType

def all : List ViewType := [none, d1, d1Array, d2, d2Array, cube, cubeArray, d3, buffer]

def code (v : ViewType) : Nat := all.idxOf v

theorem code_injective {v w : ViewType} (h : v.code = w.code) : v = w := by
  cases v <;> cases w <;> first | rfl | exact absurd h (by decide)

end ViewType

structure ResourceSlot where
  slot : UInt32
  type : DescriptorType
  view : ViewType
  access : UInt32
  deriving DecidableEq, Repr

/-- The slots of a pipeline in the order of their bindings. -/
structure SlotMapping where
  bindings : List ResourceSlot
  deriving DecidableEq, Repr

namespace SlotMapping

def empty : SlotMapping := ⟨[]⟩

def bindingId? (m : SlotMapping) (slot : UInt32) : Option Nat :=
  m.bindings.findIdx? (·.slot == slot)

/-- Defines a slot at the end, or adds its accesses to those of its earlier definition. -/
def define (m : SlotMapping) (s : ResourceSlot) : SlotMapping :=
  match m.bindingId? s.slot with
  | some i => ⟨m.bindings.modify i fun b => { b with access := b.access ||| s.access }⟩
  | none => ⟨m.bindings ++ [s]⟩

def defineAll (m : SlotMapping) (ss : List ResourceSlot) : SlotMapping := ss.foldl define m

def count (m : SlotMapping) (type : DescriptorType) : Nat := m.bindings.countP (·.type = type)

/-- Gives all bindings of a type dynamic offsets if there are no more of them than the limit,
and none of them otherwise. -/
def makeTypeDynamic (m : SlotMapping) (type : DescriptorType) (limit : Nat) : SlotMapping :=
  if m.count type ≤ limit then
    ⟨m.bindings.map fun b => if b.type = type then { b with type := type.toDynamic } else b⟩
  else m

/-- Gives uniform buffers and storage buffers dynamic offsets, each kind within its limit. -/
def makeDynamic (m : SlotMapping) (maxUniform maxStorage : Nat) : SlotMapping :=
  (m.makeTypeDynamic .uniformBuffer maxUniform).makeTypeDynamic .storageBuffer maxStorage

end SlotMapping

structure PipelineLayout where
  bindings : List ResourceSlot
  deriving DecidableEq, Repr

namespace PipelineLayout

def ofMapping (m : SlotMapping) : PipelineLayout := ⟨m.bindings⟩

def bindingCount (l : PipelineLayout) : Nat := l.bindings.length

def binding? (l : PipelineLayout) (id : Nat) : Option ResourceSlot := l.bindings[id]?

def dynamicCount (l : PipelineLayout) : Nat := l.bindings.countP (·.type.isDynamic)

end PipelineLayout

end ShaderKit

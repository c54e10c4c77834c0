import ShaderKit.PipelineLayout
import ShaderKit.ShaderKey

/-!
# Compute shaders

A compute shader is its code together with what shapes its pipelines: the entry point, the
sizes of workgroup and subgroup, the resource slots and the identifiers of its overridable
constants. All of this is its interface and enters its key; its name does not.
-/

namespace ShaderKit

structure WorkgroupSize where
  x : UInt32
  y : UInt32
  z : UInt32
  deriving DecidableEq, Repr

/-- The number of invocations of a workgroup, counted in 64 bits: a greater one wraps. -/
def WorkgroupSize.invocations (w : WorkgroupSize) : UInt64 :=
  w.x.toUInt64 * w.y.toUInt64 * w.z.toUInt64

theorem WorkgroupSize.toNat_invocations (w : WorkgroupSize) :
    w.invocations.toNat = w.x.toNat * w.y.toNat * w.z.toNat % UInt64.size := by
  rw [invocations, UInt64.toNat_mul, UInt64.toNat_mul, UInt32.toNat_toUInt64,
    UInt32.toNat_toUInt64, UInt32.toNat_toUInt64, Nat.mod_mul_mod]

/-- Only the count of invocations can wrap: a product of two dwords fits into 64 bits. -/
theorem WorkgroupSize.invocations_le_mul_iff (w : WorkgroupSize) (a b : UInt32) :
    w.invocations ≤ a.toUInt64 * b.toUInt64 ↔
      w.x.toNat * w.y.toNat * w.z.toNat % UInt64.size ≤ a.toNat * b.toNat := by
  have hfits : a.toNat * b.toNat < UInt64.size :=
    calc a.toNat * b.toNat
        < UInt32.size * UInt32.size := Nat.mul_lt_mul'' a.toNat_lt_size b.toNat_lt_size
      _ = UInt64.size := by decide
  rw [UInt64.le_iff_toNat_le, toNat_invocations, UInt64.toNat_mul, UInt32.toNat_toUInt64,
    UInt32.toNat_toUInt64, Nat.mod_eq_of_lt hfits]

/-- The code of a shader and what shapes its pipelines. A subgroup size of zero states no
preference. -/
structure ShaderInterface where
  code : String
  entryPoint : String
  workgroup : WorkgroupSize
  subgroupSize : UInt32
  slots : List ResourceSlot
  overrides : List UInt32
  deriving DecidableEq, Repr

namespace ShaderInterface

def textBytes (s : String) : Bytes := Bytes.ofQword (Bytes.ofText s).length ++ Bytes.ofText s

def slotBytes (s : ResourceSlot) : Bytes :=
  Bytes.ofDword s.slot ++ [UInt8.ofNat s.type.code, UInt8.ofNat s.view.code] ++
    Bytes.ofDword s.access

/-- The interface as bytes: texts and lists behind their lengths, all else in full width. -/
def bytes (i : ShaderInterface) : Bytes :=
  textBytes i.code ++ textBytes i.entryPoint ++
    Bytes.ofDwords [i.workgroup.x, i.workgroup.y, i.workgroup.z, i.subgroupSize] ++
    Bytes.ofQword i.slots.length ++ i.slots.flatMap slotBytes ++
    Bytes.ofQword i.overrides.length ++ Bytes.ofDwords i.overrides

end ShaderInterface

structure ComputeShader where
  name : String
  interface : ShaderInterface
  key : ShaderKey
  deriving DecidableEq, Repr

namespace ComputeShader

def ofInterface (name : String) (i : ShaderInterface) : ComputeShader :=
  ⟨name, i, .ofCode .compute i.bytes⟩

/-- A shader of one invocation, without preference, slots or constants. -/
def ofCode (name code entryPoint : String) : ComputeShader :=
  ofInterface name ⟨code, entryPoint, ⟨1, 1, 1⟩, 0, [], []⟩

def withWorkgroup (s : ComputeShader) (size : WorkgroupSize) : ComputeShader :=
  ofInterface s.name { s.interface with workgroup := size }

def withSubgroupSize (s : ComputeShader) (size : UInt32) : ComputeShader :=
  ofInterface s.name { s.interface with subgroupSize := size }

def withSlots (s : ComputeShader) (slots : List ResourceSlot) : ComputeShader :=
  ofInterface s.name { s.interface with slots := s.interface.slots ++ slots }

def withOverrides (s : ComputeShader) (ids : List UInt32) : ComputeShader :=
  ofInterface s.name { s.interface with overrides := s.interface.overrides ++ ids }

/-- The slots that the shader defines, in order, on top of earlier ones. -/
def defineSlots (s : ComputeShader) (m : SlotMapping) : SlotMapping :=
  m.defineAll s.interface.slots

end ComputeShader

end ShaderKit

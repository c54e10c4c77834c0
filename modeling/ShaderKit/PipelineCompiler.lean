import ShaderKit.ComputeShader
import ShaderKit.SpecConstants

/-!
# The compiler

Pipelines are compiled by a device. A request says all that the compiled pipeline depends on,
and the handle of the pipeline keeps the request that it was compiled from. Requests are
numbered, whether they succeed or not.
-/

namespace ShaderKit

structure Device where
  subgroupSizeControl : Bool
  fullSubgroups : Bool
  minSubgroupSize : UInt32
  maxSubgroupSize : UInt32
  maxWorkgroupSubgroups : UInt32
  deriving DecidableEq, Repr

namespace Device

/-- The subgroup size that a shader's pipelines must run with: the size that it asks for, if
the device can fix it, it lies above the least and not above the greatest size, and the
workgroup's count of invocations fits into the number of subgroups allowed. -/
def requiredSubgroupSize? (d : Device) (i : ShaderInterface) : Option UInt32 :=
  if d.subgroupSizeControl ∧ d.minSubgroupSize < i.subgroupSize ∧
      i.subgroupSize ≤ d.maxSubgroupSize ∧
      i.workgroup.invocations ≤ i.subgroupSize.toUInt64 * d.maxWorkgroupSubgroups.toUInt64 then
    some i.subgroupSize
  else none

theorem requiredSubgroupSize?_eq_some_iff {d : Device} {i : ShaderInterface} {size : UInt32} :
    d.requiredSubgroupSize? i = some size ↔
      i.subgroupSize = size ∧ d.subgroupSizeControl = true ∧ d.minSubgroupSize < size ∧
        size ≤ d.maxSubgroupSize ∧
        i.workgroup.x.toNat * i.workgroup.y.toNat * i.workgroup.z.toNat % UInt64.size ≤
          size.toNat * d.maxWorkgroupSubgroups.toNat := by
  rw [requiredSubgroupSize?, Option.ite_none_right_eq_some, WorkgroupSize.invocations_le_mul_iff]
  constructor
  · rintro ⟨⟨hcontrol, hmin, hmax, hcount⟩, hsize⟩
    obtain rfl := Option.some.inj hsize
    exact ⟨rfl, hcontrol, hmin, hmax, hcount⟩
  · rintro ⟨rfl, h⟩
    exact ⟨h, rfl⟩

-- A workgroup of `2 ^ 64` invocations counts as one of none.
example : requiredSubgroupSize? ⟨true, true, 8, 64, 4⟩
    ⟨"", "main", ⟨4194304, 2097152, 2097152⟩, 32, [], []⟩ = some 32 := by decide

/-- Whether a shader's pipelines must run with full subgroups: if the device can do so and the
shader asks for any size. -/
def requiresFullSubgroups (d : Device) (i : ShaderInterface) : Bool :=
  d.fullSubgroups && i.subgroupSize != 0

end Device

structure CompileRequest where
  shader : ComputeShader
  layout : PipelineLayout
  constants : SpecConstants
  subgroupSize : Option UInt32
  fullSubgroups : Bool
  deriving DecidableEq, Repr

/-- A compiled pipeline. No two have the same number. -/
structure PipelineHandle where
  serial : Nat
  request : CompileRequest
  deriving DecidableEq, Repr

inductive CompileFault where
  | shaderModule (shader reason : String)
  | pipeline (shader reason : String)
  | unavailable (reason : String)
  deriving DecidableEq, Repr

def CompileFault.message : CompileFault → String
  | shaderModule shader reason => s!"shader module for {shader} failed to compile: {reason}"
  | pipeline shader reason => s!"compute pipeline for {shader} failed to compile: {reason}"
  | unavailable reason => s!"pipeline backend unavailable: {reason}"

/-- The compiler: how many requests it has seen, and whether it refuses them at present. -/
structure PipelineCompiler where
  requests : Nat
  failing : Bool
  deriving DecidableEq, Repr

namespace PipelineCompiler

def fresh : PipelineCompiler := ⟨0, false⟩

/-- The outcome of a request, which takes the next number. -/
def outcome (c : PipelineCompiler) (r : CompileRequest) : Except CompileFault PipelineHandle :=
  if c.failing then .error (.pipeline r.shader.name "injected failure") else .ok ⟨c.requests, r⟩

def advance (c : PipelineCompiler) : PipelineCompiler := { c with requests := c.requests + 1 }

end PipelineCompiler

end ShaderKit

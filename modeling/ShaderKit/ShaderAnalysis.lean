import ShaderKit.Instruction
import ShaderKit.Signature
import ShaderKit.SlotPairing

/-!
# What a shader uses

An analysis walks over the instructions of a shader in order and notes what must be known
before its interface is declared elsewhere: the clip and cull distances of both signatures,
which texture and sampler slots belong together, how each slot for unordered access is used,
and whether the shader takes derivatives or discards pixels. Slots beyond the noted ranges and
slots that depend on a register are passed over.
-/

namespace ShaderKit

abbrev accessSlots : Nat := 64

structure PlaneCounts where
  clip : Nat
  cull : Nat
  deriving DecidableEq, Repr

/-- The counts of a signature; a missing one counts as empty. -/
def PlaneCounts.ofSignature (s : Option Signature) : PlaneCounts :=
  let s := s.getD .empty
  ⟨s.componentsOf .clipDistance, s.componentsOf .cullDistance⟩

structure AccessUse where
  atomic : Bool
  typedLoad : Bool
  deriving DecidableEq, Repr

structure ShaderSignatures where
  input : Option Signature
  output : Option Signature
  patchConstant : Option Signature
  deriving DecidableEq, Repr

structure ShaderUsage where
  inputPlanes : PlaneCounts
  outputPlanes : PlaneCounts
  pairs : SlotPairs
  accesses : Vector AccessUse accessSlots
  derivatives : Bool
  discards : Bool
  deriving DecidableEq, Repr

namespace Instruction

/-- Where the texture stands among the sources: behind the coordinates, and in two gathers
behind an offset as well. -/
def textureIndex (i : Instruction) : Nat :=
  if i.opcode = .gatherOffset ∨ i.opcode = .gatherOffsetCompare then 2 else 1

def samplesTexture (i : Instruction) : Bool :=
  match i.kind with
  | .textureSample | .textureQueryLod | .textureGather => true
  | _ => false

/-- The texture operand and the sampler operand of an instruction that has both. -/
def textureOperands? (i : Instruction) : Option (Operand × Operand) := do
  return (← i.sources[i.textureIndex]?, ← i.sources[i.textureIndex + 1]?)

/-- The texture slot and the sampler slot that an instruction uses together, if it names both
and they are in range. -/
def slotPair? (i : Instruction) : Option (Fin textureSlots × Fin samplerSlots) := do
  let (texture, sampler) ← i.textureOperands?
  let t ← texture.slot?
  let s ← sampler.slot?
  if h : t < textureSlots ∧ s < samplerSlots then some (⟨t, h.1⟩, ⟨s, h.2⟩) else none

end Instruction

def Operand.accessSlot? (o : Operand) : Option (Fin accessSlots) := do
  let n ← o.slot?
  if h : n < accessSlots then some ⟨n, h⟩ else none

namespace ShaderUsage

def ofSignatures (s : ShaderSignatures) : ShaderUsage where
  inputPlanes := .ofSignature s.input
  outputPlanes := .ofSignature s.output
  pairs := .empty
  accesses := Vector.replicate _ ⟨false, false⟩
  derivatives := false
  discards := false

def noteAtomic (u : ShaderUsage) (k : Fin accessSlots) : ShaderUsage :=
  { u with accesses := u.accesses.set k { u.accesses[k] with atomic := true } }

def noteTypedLoad (u : ShaderUsage) (k : Fin accessSlots) : ShaderUsage :=
  { u with accesses := u.accesses.set k { u.accesses[k] with typedLoad := true } }

def notePair (u : ShaderUsage) (i : Instruction) : ShaderUsage :=
  match i.slotPair? with
  | some (t, s) => { u with pairs := u.pairs.note t s }
  | none => u

def noteDerivatives (u : ShaderUsage) : ShaderUsage := { u with derivatives := true }

/-- The slot that an atomic instruction works on: that of its last destination. -/
def atomicSlot? (i : Instruction) : Option (Fin accessSlots) := do
  let o ← i.destinations.getLast?
  if o.type = .unorderedAccessView then o.accessSlot? else none

/-- The slot that a typed load reads: that of its second source. -/
def typedLoadSlot? (i : Instruction) : Option (Fin accessSlots) := do
  let o ← i.sources[1]?
  o.accessSlot?

def note (u : ShaderUsage) (i : Instruction) : ShaderUsage :=
  match i.kind with
  | .atomic => (atomicSlot? i).elim u u.noteAtomic
  | .textureSample | .textureQueryLod => u.noteDerivatives.notePair i
  | .textureGather => u.notePair i
  | .vectorDeriv => u.noteDerivatives
  | .controlFlow => if i.opcode = .discard then { u with discards := true } else u
  | .typedUavLoad => (typedLoadSlot? i).elim u u.noteTypedLoad
  | _ => u

def noteAll (u : ShaderUsage) (is : List Instruction) : ShaderUsage := is.foldl note u

end ShaderUsage

end ShaderKit

import ShaderKit.PipelineCompiler
import ShaderKit.PipelineOptions
import ShaderKit.PipelineStats
import ShaderKit.StateCache

/-!
# Pipeline managers

A manager owns one pipeline object for each shader key, and an object owns the pipelines that
were compiled for it, one for each class of compatible states. Asking an object for the
pipeline of a state either finds it or compiles it. A failed compilation leaves nothing
behind, so that it is tried again. A pipeline that was compiled because it was asked for is
recorded in the state cache; one that was only compiled ahead is not.

Looking a pipeline up and compiling it is one step, `enter`, which nothing interrupts. The
record in the state cache is a step of its own.
-/

namespace ShaderKit

structure PipelineInstance where
  state : PipelineState
  handle : PipelineHandle
  deriving DecidableEq, Repr

/-- The pipelines of a shader, and what they have in common. -/
structure PipelineObject where
  shader : ComputeShader
  mapping : SlotMapping
  layout : PipelineLayout
  instances : List PipelineInstance
  deriving DecidableEq, Repr

namespace PipelineObject

def ofShader (options : PipelineOptions) (shader : ComputeShader) : PipelineObject :=
  let mapping := (shader.defineSlots .empty).makeDynamic options.maxDynamicUniformBuffers
    options.maxDynamicStorageBuffers
  ⟨shader, mapping, .ofMapping mapping, []⟩

def instance? (o : PipelineObject) (s : PipelineState) : Option PipelineInstance :=
  o.instances.find? (·.state.Compatible s)

def request (o : PipelineObject) (d : Device) (s : PipelineState) : CompileRequest where
  shader := o.shader
  layout := o.layout
  constants := s.specConstantsFor o.layout.bindingCount
  subgroupSize := d.requiredSubgroupSize? o.shader.interface
  fullSubgroups := d.requiresFullSubgroups o.shader.interface

def addInstance (o : PipelineObject) (s : PipelineState) (h : PipelineHandle) : PipelineObject :=
  { o with instances := o.instances ++ [⟨s, h⟩] }

end PipelineObject

/-- A manager. Its objects stand in the order of their creation. -/
structure PipelineManager where
  options : PipelineOptions
  device : Device
  compiler : PipelineCompiler
  cache : Option StateCache
  stats : PipelineStats
  objects : List PipelineObject
  deriving DecidableEq, Repr

/-- Why a state is brought to an object: to get a pipeline for it, or only to compile one
ahead. -/
inductive Purpose where
  | use
  | prepare
  deriving DecidableEq, Repr

inductive Entered where
  | found (handle : PipelineHandle)
  | compiled (handle : PipelineHandle)
  | failed
  | noObject
  deriving DecidableEq, Repr

def Entered.handle? : Entered → Option PipelineHandle
  | found h | compiled h => some h
  | failed | noObject => none

namespace PipelineManager

def new (options : PipelineOptions) (device : Device) (cache : Option StateCache) :
    PipelineManager := ⟨options, device, .fresh, cache, .zero, []⟩

def object? (m : PipelineManager) (key : ShaderKey) : Option PipelineObject :=
  m.objects.find? (·.shader.key = key)

def modifyObject (m : PipelineManager) (key : ShaderKey) (f : PipelineObject → PipelineObject) :
    PipelineManager :=
  { m with objects := m.objects.map fun o => if o.shader.key = key then f o else o }

/-- Makes sure that there is an object for the key of a shader. An object that is there keeps
its own shader. -/
def create (m : PipelineManager) (shader : ComputeShader) : PipelineManager :=
  if (m.object? shader.key).isSome then m
  else { m with objects := m.objects ++ [.ofShader m.options shader] }

def setFailing (m : PipelineManager) (failing : Bool) : PipelineManager :=
  { m with compiler := { m.compiler with failing := failing } }

def compileMissing (m : PipelineManager) (o : PipelineObject) (s : PipelineState) :
    PipelineManager × Entered :=
  let missed := { m with stats := m.stats.countMiss, compiler := m.compiler.advance }
  match m.compiler.outcome (o.request m.device s) with
  | .ok h =>
    ({ missed with stats := missed.stats.countPipeline }.modifyObject o.shader.key
      (·.addInstance s h), .compiled h)
  | .error _ => ({ missed with stats := missed.stats.countFailure }, .failed)

/-- Brings a state to the object of a key: finds the pipeline that serves it or compiles one.
Only a use counts as a hit. -/
def enter (m : PipelineManager) (purpose : Purpose) (key : ShaderKey) (s : PipelineState) :
    PipelineManager × Entered :=
  match m.object? key with
  | none => (m, .noObject)
  | some o =>
    match o.instance? s with
    | some i =>
      (match purpose with
        | .use => { m with stats := m.stats.countHit }
        | .prepare => m, .found i.handle)
    | none => m.compileMissing o s

/-- Records in the state cache that a pipeline was compiled, if there is a cache and it is in
use. -/
def record (m : PipelineManager) (key : ShaderKey) (s : PipelineState) : PipelineManager :=
  match m.options.stateCache, m.cache with
  | true, some cache =>
    { m with cache := some (cache.add ⟨⟨some key⟩, s⟩), stats := m.stats.countWrite }
  | _, _ => m

/-- The pipeline of an object for a state, compiled on first use. -/
def get (m : PipelineManager) (key : ShaderKey) (s : PipelineState) :
    PipelineManager × Option PipelineHandle :=
  match m.enter .use key s with
  | (m, .compiled h) => (m.record key s, some h)
  | (m, e) => (m, e.handle?)

/-- Compiles the pipeline of an object for a state ahead of its use. -/
def prepare (m : PipelineManager) (key : ShaderKey) (s : PipelineState) : PipelineManager :=
  (m.enter .prepare key s).1

end PipelineManager

end ShaderKit

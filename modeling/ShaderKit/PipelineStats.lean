/-!
# Counters

A pipeline manager counts what it compiles, what it finds already compiled, and what it
writes to the state cache.
-/

namespace ShaderKit

structure PipelineStats where
  computePipelines : Nat
  compileFailures : Nat
  instanceHits : Nat
  instanceMisses : Nat
  stateCacheWrites : Nat
  deriving DecidableEq, Repr

namespace PipelineStats

def zero : PipelineStats := ⟨0, 0, 0, 0, 0⟩

def countPipeline (s : PipelineStats) : PipelineStats :=
  { s with computePipelines := s.computePipelines + 1 }

def countFailure (s : PipelineStats) : PipelineStats :=
  { s with compileFailures := s.compileFailures + 1 }

def countHit (s : PipelineStats) : PipelineStats :=
  { s with instanceHits := s.instanceHits + 1 }

def countMiss (s : PipelineStats) : PipelineStats :=
  { s with instanceMisses := s.instanceMisses + 1 }

def countWrite (s : PipelineStats) : PipelineStats :=
  { s with stateCacheWrites := s.stateCacheWrites + 1 }

def fields (s : PipelineStats) : List (String × Nat) :=
  [("compute_pipelines", s.computePipelines), ("compile_failures", s.compileFailures),
    ("instance_hits", s.instanceHits), ("instance_misses", s.instanceMisses),
    ("state_cache_writes", s.stateCacheWrites)]

def json (s : PipelineStats) : String :=
  "\x7b" ++ String.intercalate "," (s.fields.map fun (name, n) => s!"\"{name}\":{n}") ++ "\x7d"

end PipelineStats

end ShaderKit

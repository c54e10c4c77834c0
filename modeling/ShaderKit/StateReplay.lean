import ShaderKit.PipelineManager

/-!
# Replaying a state cache

The entries of an earlier run are compiled ahead, one after another. Each entry's key is
resolved to a shader; entries whose shader is not known are skipped. For the others the object
is made if it is not there yet, and its pipeline for the recorded state is prepared.
-/

namespace ShaderKit

/-- How many entries were replayed, whether or not they compiled, and how many were skipped. -/
structure ReplaySummary where
  replayed : Nat
  skipped : Nat
  deriving DecidableEq, Repr

namespace PipelineManager

def replayEntry (m : PipelineManager) (shader : ComputeShader) (s : PipelineState) :
    PipelineManager :=
  (m.create shader).prepare shader.key s

def replay (resolve : StateCacheKey → Option ComputeShader) :
    PipelineManager → List StateCacheEntry → PipelineManager × ReplaySummary
  | m, [] => (m, ⟨0, 0⟩)
  | m, e :: es =>
    match resolve e.key with
    | some shader =>
      let (m, sum) := replay resolve (m.replayEntry shader e.state) es
      (m, { sum with replayed := sum.replayed + 1 })
    | none =>
      let (m, sum) := replay resolve m es
      (m, { sum with skipped := sum.skipped + 1 })

end PipelineManager

end ShaderKit

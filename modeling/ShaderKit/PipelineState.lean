import ShaderKit.BindingMask

/-!
# Pipeline states

The state under which a compute shader is dispatched: what is bound, the values of the user's
specialization constants, and the push constants. Compiled code depends on the first two only,
so states that agree on these are compatible.
-/

namespace ShaderKit

/-- The number of specialization constants, and of words of push constants. -/
abbrev specConstantCount : Nat := 8
abbrev pushConstantWords : Nat := 32

structure PipelineState where
  bindings : BindingMask
  specConstants : Vector UInt32 specConstantCount
  pushConstants : Vector UInt32 pushConstantWords
  deriving DecidableEq, Repr

namespace PipelineState

def zero : PipelineState := ⟨.empty, Vector.replicate _ 0, Vector.replicate _ 0⟩

/-- Whether code compiled for one state serves the other. -/
def Compatible (a b : PipelineState) : Prop :=
  a.bindings = b.bindings ∧ a.specConstants = b.specConstants

instance (a b : PipelineState) : Decidable (Compatible a b) :=
  inferInstanceAs (Decidable (_ ∧ _))

theorem Compatible.refl (a : PipelineState) : Compatible a a := ⟨rfl, rfl⟩

theorem Compatible.symm {a b : PipelineState} (h : Compatible a b) : Compatible b a :=
  ⟨h.1.symm, h.2.symm⟩

theorem Compatible.trans {a b c : PipelineState} (h : Compatible a b) (h' : Compatible b c) :
    Compatible a c := ⟨h.1.trans h'.1, h.2.trans h'.2⟩

end PipelineState

end ShaderKit

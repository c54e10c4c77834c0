import Mathlib.Data.List.Pairwise
import ShaderKit.Proofs.ManagerRuns
import ShaderKit.Proofs.VariantConstants

/-!
# Compiled pipelines

An object's pipelines serve pairwise incompatible states, and each was compiled from the request
that its state asks for. As compatible states ask for the same request, whatever an object hands
out for a state is what a fresh compilation for this very state would build.
-/

namespace ShaderKit

namespace PipelineObject

variable {o : PipelineObject} {d : Device} {s : PipelineState}

theorem request_eq_of_compatible {a b : PipelineState} (h : a.Compatible b) :
    o.request d a = o.request d b := by
  simp only [request, h.specConstantsFor_eq]

/-- No two pipelines serve the same states, and all are what their states ask for. -/
structure Consistent (o : PipelineObject) (d : Device) : Prop where
  exclusive : o.instances.Pairwise fun i j => ¬ i.state.Compatible j.state
  request_eq : ∀ i ∈ o.instances, i.handle.request = o.request d i.state

theorem consistent_ofShader (options : PipelineOptions) (shader : ComputeShader) :
    (ofShader options shader).Consistent d := by
  constructor <;> simp [ofShader]

theorem Consistent.addInstance (h : o.Consistent d) (hnone : o.instance? s = none)
    {handle : PipelineHandle} (hhandle : handle.request = o.request d s) :
    (o.addInstance s handle).Consistent d := by
  constructor
  · refine List.pairwise_append.2 ⟨h.exclusive, List.pairwise_singleton _ _, ?_⟩
    intro i hi j hj
    rw [List.mem_singleton] at hj
    subst hj
    exact instance?_eq_none_iff.1 hnone i hi
  · intro i hi
    rcases List.mem_append.1 hi with hi | hi
    · exact h.request_eq i hi
    · rw [List.mem_singleton] at hi
      subst hi
      exact hhandle

theorem Consistent.eq_of_compatible (h : o.Consistent d) {i j : PipelineInstance}
    (hi : i ∈ o.instances) (hj : j ∈ o.instances) (hij : i.state.Compatible j.state) : i = j := by
  apply Decidable.byContradiction
  intro hne
  have hsymm : Std.Symm fun i j : PipelineInstance => ¬ i.state.Compatible j.state :=
    ⟨fun _ _ hab hba => hab hba.symm⟩
  exact h.exclusive.forall hi hj hne hij

/-- An object at a later time: it was made from the same, and behind its pipelines stand new
ones. -/
structure Extends (o o' : PipelineObject) : Prop where
  shader_eq : o'.shader = o.shader
  mapping_eq : o'.mapping = o.mapping
  layout_eq : o'.layout = o.layout
  instances_le : o.instances <+: o'.instances

theorem Extends.refl (o : PipelineObject) : o.Extends o := ⟨rfl, rfl, rfl, List.prefix_rfl⟩

theorem Extends.trans {o₁ o₂ o₃ : PipelineObject} (h : o₁.Extends o₂) (h' : o₂.Extends o₃) :
    o₁.Extends o₃ :=
  ⟨h'.shader_eq.trans h.shader_eq, h'.mapping_eq.trans h.mapping_eq,
    h'.layout_eq.trans h.layout_eq, h.instances_le.trans h'.instances_le⟩

theorem extends_addInstance (o : PipelineObject) (s : PipelineState) (h : PipelineHandle) :
    o.Extends (o.addInstance s h) :=
  ⟨rfl, rfl, rfl, List.prefix_append _ _⟩

end PipelineObject

namespace PipelineManager

variable {m : PipelineManager}

/-- Every object is consistent. -/
def Consistent (m : PipelineManager) : Prop :=
  ∀ key o, m.object? key = some o → o.Consistent m.device

theorem consistent_isInvariant : IsInvariant Consistent where
  create := by
    intro m shader h key o ho
    rw [device_create]
    rw [object?_create] at ho
    rcases Option.or_eq_some_iff.1 ho with ho | ⟨-, ho⟩
    · exact h key o ho
    · rw [Option.ite_none_right_eq_some, Option.some.injEq] at ho
      obtain ⟨-, rfl⟩ := ho
      exact PipelineObject.consistent_ofShader m.options shader
  enter := by
    intro m purpose key s h
    have hstep := enterStep m purpose key s
    generalize m.enter purpose key s = result at hstep ⊢
    cases hstep with
    | noObject ho => exact h
    | found ho hi hstats => exact h
    | failed ho hi hfails => exact h
    | @compiled o handle ho hi hworks hh =>
      intro k o' ho'
      rw [object?_addCompiled] at ho'
      obtain ⟨o'', ho'', rfl⟩ := Option.map_eq_some_iff.1 ho'
      have hconsistent : o''.Consistent m.device := h k o'' ho''
      split
      · next hk =>
        subst hk
        obtain rfl : o = o'' := Option.some.inj (ho.symm.trans ho'')
        exact hconsistent.addInstance hi (by rw [hh])
      · exact hconsistent
  record := by
    intro m key s h k o ho
    rw [object?_record] at ho
    rw [device_record]
    exact h k o ho
  setFailing := fun _ h => h

theorem consistent_new (options : PipelineOptions) (device : Device)
    (cache : Option StateCache) : (new options device cache).Consistent := by
  intro key o ho
  cases ho

/-- Whatever came before, a pipeline that an object hands out for a state is the one that would
be compiled for this very state: of the object's own shader and layout, under the constants of
the state, and with the subgroup controls that the device and the shader call for. -/
theorem request_of_get_eq_some (options : PipelineOptions) (device : Device)
    (cache : Option StateCache) (calls : List Call) (key : ShaderKey) (s : PipelineState)
    (handle : PipelineHandle)
    (hget : (((new options device cache).run calls).get key s).2 = some handle) :
    ∃ o, ((new options device cache).run calls).object? key = some o ∧
      handle.request = {
        shader := o.shader
        layout := o.layout
        constants := s.specConstantsFor o.layout.bindingCount
        subgroupSize := device.requiredSubgroupSize? o.shader.interface
        fullSubgroups := device.requiresFullSubgroups o.shader.interface } := by
  have hconsistent : ((new options device cache).run calls).Consistent :=
    consistent_isInvariant.run calls (consistent_new options device cache)
  have hdevice : ((new options device cache).run calls).device = device :=
    (device_isInvariant device).run calls rfl
  generalize (new options device cache).run calls = m at hget hconsistent hdevice ⊢
  subst hdevice
  rw [get] at hget
  have hstep := enterStep m .use key s
  generalize m.enter .use key s = result at hstep hget
  cases hstep with
  | noObject ho => cases hget
  | failed ho hi hfails => cases hget
  | @found o i stats ho hi hstats =>
    obtain rfl : i.handle = handle := Option.some.inj hget
    obtain ⟨hmem, hcompatible⟩ := PipelineObject.mem_of_instance?_eq_some hi
    refine ⟨o, ho, ?_⟩
    rw [(hconsistent key o ho).request_eq i hmem,
      PipelineObject.request_eq_of_compatible hcompatible]
    rfl
  | @compiled o h ho hi hworks hh =>
    obtain rfl : h = handle := Option.some.inj hget
    exact ⟨o, ho, by rw [hh]; rfl⟩

/-- A manager at a later time: every object is still there and is extended. -/
def Extends (m m' : PipelineManager) : Prop :=
  ∀ key o, m.object? key = some o → ∃ o', m'.object? key = some o' ∧ o.Extends o'

theorem Extends.refl (m : PipelineManager) : m.Extends m :=
  fun _ o ho => ⟨o, ho, PipelineObject.Extends.refl o⟩

theorem Extends.trans {m₁ m₂ m₃ : PipelineManager} (h : m₁.Extends m₂) (h' : m₂.Extends m₃) :
    m₁.Extends m₃ := by
  intro key o₁ ho₁
  obtain ⟨o₂, ho₂, hle⟩ := h key o₁ ho₁
  obtain ⟨o₃, ho₃, hle'⟩ := h' key o₂ ho₂
  exact ⟨o₃, ho₃, hle.trans hle'⟩

theorem extends_isInvariant (m₀ : PipelineManager) : IsInvariant m₀.Extends where
  create := by
    intro m shader h
    refine h.trans ?_
    intro key o ho
    refine ⟨o, ?_, PipelineObject.Extends.refl o⟩
    rw [object?_create, ho, Option.some_or]
  enter := by
    intro m purpose key s h
    refine h.trans ?_
    have hstep := enterStep m purpose key s
    generalize m.enter purpose key s = result at hstep ⊢
    cases hstep with
    | noObject ho => exact Extends.refl m
    | found ho hi hstats => exact Extends.refl m
    | failed ho hi hfails => exact Extends.refl m
    | @compiled o handle ho hi hworks hh =>
      intro k o' ho'
      rw [object?_addCompiled, ho']
      refine ⟨_, rfl, ?_⟩
      split
      · exact PipelineObject.extends_addInstance o' s handle
      · exact PipelineObject.Extends.refl o'
  record := by
    intro m key s h k o ho
    rw [object?_record]
    exact h k o ho
  setFailing _ h := h

/-- The pipelines of the object of a key; none if there is no object. -/
def instances (m : PipelineManager) (key : ShaderKey) : List PipelineInstance :=
  (m.object? key).elim [] (·.instances)

section Instances

variable {key k : ShaderKey} {s : PipelineState} {o : PipelineObject}

theorem instances_eq (ho : m.object? key = some o) : m.instances key = o.instances := by
  simp [instances, ho]

@[simp] theorem instances_create (shader : ComputeShader) :
    (m.create shader).instances k = m.instances k := by
  rw [instances, instances, object?_create]
  cases m.object? k with
  | some o => rfl
  | none =>
    by_cases hk : shader.key = k <;> simp [hk, PipelineObject.ofShader]

@[simp] theorem instances_record : (m.record key s).instances k = m.instances k := by
  simp [instances]

theorem instances_addCompiled (ho : m.object? key = some o) (handle : PipelineHandle) :
    (m.addCompiled key s handle).instances k =
      m.instances k ++ if key = k then [⟨s, handle⟩] else [] := by
  rw [instances, instances, object?_addCompiled]
  by_cases hk : key = k
  · subst hk
    simp [ho, PipelineObject.addInstance]
  · have hne : ¬ k = key := fun h => hk h.symm
    simp [hk, hne]

theorem Consistent.exclusive_instances (h : m.Consistent) (key : ShaderKey) :
    (m.instances key).Pairwise fun i j => ¬ i.state.Compatible j.state := by
  rw [instances]
  cases ho : m.object? key with
  | none => exact List.Pairwise.nil
  | some o => exact (h key o ho).exclusive

theorem Consistent.countP_compatible_le_one (h : m.Consistent) (key : ShaderKey)
    (s : PipelineState) : (m.instances key).countP (·.state.Compatible s) ≤ 1 := by
  have hexclusive := h.exclusive_instances key
  generalize m.instances key = instances at hexclusive ⊢
  induction instances with
  | nil => exact Nat.zero_le 1
  | cons i is ih =>
    obtain ⟨hi, his⟩ := List.pairwise_cons.1 hexclusive
    rw [List.countP_cons]
    by_cases hc : i.state.Compatible s
    · have hnone : is.countP (·.state.Compatible s) = 0 := by
        rw [List.countP_eq_zero]
        intro j hj hjc
        exact hi j hj (hc.trans (of_decide_eq_true hjc).symm)
      simp [hnone, hc]
    · simpa [hc] using ih his

/-- The pipelines that an outcome adds to the object of a key. -/
def compiledInstances (s : PipelineState) : Entered → List PipelineInstance
  | .compiled h => [⟨s, h⟩]
  | .found _ | .failed | .noObject => []

theorem instances_enter (m : PipelineManager) (purpose : Purpose) (key k : ShaderKey)
    (s : PipelineState) :
    (m.enter purpose key s).1.instances k =
      m.instances k ++ if key = k then compiledInstances s (m.enter purpose key s).2 else [] := by
  have hstep := enterStep m purpose key s
  generalize m.enter purpose key s = result at hstep ⊢
  cases hstep with
  | noObject ho => simp [compiledInstances]
  | found ho hi hstats => simp [compiledInstances, instances, object?]
  | failed ho hi hfails => simp [compiledInstances, instances, object?, countFailed]
  | compiled ho hi hworks hh => exact instances_addCompiled ho _

/-- A compiled pipeline takes the number of its request, and numbers are not used twice. -/
theorem serial_of_enter (m : PipelineManager) (purpose : Purpose) (key : ShaderKey)
    (s : PipelineState) :
    m.compiler.requests ≤ (m.enter purpose key s).1.compiler.requests ∧
      ∀ i ∈ compiledInstances s (m.enter purpose key s).2,
        i.handle.serial = m.compiler.requests ∧
          m.compiler.requests < (m.enter purpose key s).1.compiler.requests := by
  have hstep := enterStep m purpose key s
  generalize m.enter purpose key s = result at hstep ⊢
  cases hstep with
  | noObject ho => simp [compiledInstances]
  | found ho hi hstats => simp [compiledInstances]
  | failed ho hi hfails => simp [compiledInstances, countFailed, PipelineCompiler.advance]
  | compiled ho hi hworks hh =>
    simp [compiledInstances, addCompiled, modifyObject, PipelineCompiler.advance, hh]

def Serves (m : PipelineManager) (key : ShaderKey) (s : PipelineState)
    (handle : PipelineHandle) : Prop :=
  ∃ i ∈ m.instances key, i.state.Compatible s ∧ i.handle = handle

theorem Serves.mono {m' : PipelineManager} {handle : PipelineHandle}
    (h : m.Serves key s handle) (hle : m.instances key <+: m'.instances key) :
    m'.Serves key s handle := by
  obtain ⟨i, hi, hc, hhandle⟩ := h
  exact ⟨i, hle.mem hi, hc, hhandle⟩

theorem serves_of_enter {purpose : Purpose} {handle : PipelineHandle}
    (h : (m.enter purpose key s).2.handle? = some handle) :
    (m.enter purpose key s).1.Serves key s handle := by
  have hinstances := instances_enter m purpose key key s
  have hstep := enterStep m purpose key s
  generalize m.enter purpose key s = result at h hinstances hstep ⊢
  cases hstep with
  | noObject ho => cases h
  | failed ho hi hfails => cases h
  | @found o i stats ho hi hstats =>
    obtain rfl : i.handle = handle := Option.some.inj h
    obtain ⟨hmem, hcompatible⟩ := PipelineObject.mem_of_instance?_eq_some hi
    refine ⟨i, ?_, hcompatible, rfl⟩
    rw [hinstances, instances_eq ho]
    exact List.mem_append_left _ hmem
  | @compiled o handle' ho hi hworks hh =>
    obtain rfl : handle' = handle := Option.some.inj h
    refine ⟨⟨s, handle'⟩, ?_, PipelineState.Compatible.refl s, rfl⟩
    rw [hinstances]
    simp [compiledInstances]

theorem Consistent.serves_unique (h : m.Consistent) {s' : PipelineState}
    {handle handle' : PipelineHandle} (hs : m.Serves key s handle)
    (hs' : m.Serves key s' handle') (hcompatible : s.Compatible s') : handle = handle' := by
  obtain ⟨i, hi, hic, rfl⟩ := hs
  obtain ⟨j, hj, hjc, rfl⟩ := hs'
  cases ho : m.object? key with
  | none => simp [instances, ho] at hi
  | some o =>
    rw [instances_eq ho] at hi hj
    have hij : i.state.Compatible j.state := (hic.trans hcompatible).trans hjc.symm
    rw [(h key o ho).eq_of_compatible hi hj hij]

end Instances

def tileShader : ComputeShader :=
  (((ComputeShader.ofCode "tile" "" "main").withWorkgroup ⟨8, 8, 1⟩).withSubgroupSize 32).withSlots
    [⟨3, .uniformBuffer, .none, 1⟩]

/-- A state with one binding and one push constant. -/
def boundState (pushConstant : UInt32) : PipelineState :=
  { PipelineState.zero with
    bindings := .ofList [0]
    pushConstants := PipelineState.zero.pushConstants.set 0 pushConstant }

theorem request_of_get_after_failure_and_prepare :
    let device : Device := ⟨true, true, 8, 64, 4⟩
    let m := (new .standard device none).run
      [.create tileShader, .setFailing true, .get tileShader.key (boundState 0),
        .setFailing false, .prepare tileShader.key (boundState 0)]
    let handle : PipelineHandle :=
      ⟨1, (PipelineObject.ofShader .standard tileShader).request device (boundState 0)⟩
    (m.get tileShader.key (boundState 7)).2 = some handle ∧
      ∃ o, m.object? tileShader.key = some o ∧
        handle.request = {
          shader := o.shader
          layout := o.layout
          constants := (boundState 7).specConstantsFor o.layout.bindingCount
          subgroupSize := device.requiredSubgroupSize? o.shader.interface
          fullSubgroups := device.requiresFullSubgroups o.shader.interface } := by
  intro device m handle
  have hget : (m.get tileShader.key (boundState 7)).2 = some handle := by decide +kernel
  exact ⟨hget, request_of_get_eq_some .standard device none _ tileShader.key (boundState 7)
    handle hget⟩

end PipelineManager

end ShaderKit

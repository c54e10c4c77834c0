import ShaderKit.StateReplay

/-!
# Runs of a pipeline manager

Everything that happens to a manager is made of four steps that nothing interrupts: an object is
made, a state is brought to an object, a compiled pipeline is recorded, and the compiler starts
or stops failing. What the four steps preserve is preserved by every call and by every run.
-/

namespace ShaderKit

namespace PipelineObject

variable {o : PipelineObject} {s : PipelineState}

theorem instance?_eq_none_iff :
    o.instance? s = none ↔ ∀ i ∈ o.instances, ¬ i.state.Compatible s := by
  simp [instance?]

theorem mem_of_instance?_eq_some {i : PipelineInstance} (h : o.instance? s = some i) :
    i ∈ o.instances ∧ i.state.Compatible s := by
  have hc := List.find?_some h
  exact ⟨List.mem_of_find?_eq_some h, of_decide_eq_true hc⟩

end PipelineObject

namespace PipelineManager

variable {m m' : PipelineManager} {key k : ShaderKey} {s : PipelineState} {purpose : Purpose}
  {o : PipelineObject}

theorem key_of_object?_eq_some (h : m.object? key = some o) : o.shader.key = key := by
  simpa using List.find?_some h

theorem mem_of_object?_eq_some (h : m.object? key = some o) : o ∈ m.objects :=
  List.mem_of_find?_eq_some h

theorem isSome_object?_iff : (m.object? key).isSome ↔ key ∈ m.objects.map (·.shader.key) := by
  simp [object?]

theorem object?_modifyObject {f : PipelineObject → PipelineObject}
    (hf : ∀ o, (f o).shader = o.shader) :
    (m.modifyObject key f).object? k =
      (m.object? k).map fun o => if k = key then f o else o := by
  have hkey : ∀ o : PipelineObject,
      (if o.shader.key = key then f o else o).shader.key = o.shader.key := by
    intro o
    split
    · rw [hf]
    · rfl
  simp only [modifyObject, object?, List.find?_map, Function.comp_def, hkey]
  cases ho : m.objects.find? (·.shader.key = k) with
  | none => rfl
  | some o => simp [key_of_object?_eq_some (m := m) ho]

theorem object?_create (shader : ComputeShader) :
    (m.create shader).object? k =
      (m.object? k).or (if shader.key = k then some (.ofShader m.options shader) else none) := by
  rw [create]
  split
  · next h =>
    obtain ⟨o, ho⟩ := Option.isSome_iff_exists.1 h
    split
    · next hk => rw [← hk, ho]; rfl
    · simp
  · simp [object?, List.find?_append, PipelineObject.ofShader, List.find?_singleton]

def addCompiled (m : PipelineManager) (key : ShaderKey) (s : PipelineState)
    (h : PipelineHandle) : PipelineManager :=
  ({ m with
      stats := m.stats.countMiss.countPipeline
      compiler := m.compiler.advance } : PipelineManager).modifyObject key (·.addInstance s h)

def countFailed (m : PipelineManager) : PipelineManager :=
  { m with stats := m.stats.countMiss.countFailure, compiler := m.compiler.advance }

theorem object?_addCompiled (h : PipelineHandle) :
    (m.addCompiled key s h).object? k =
      (m.object? k).map fun o => if k = key then o.addInstance s h else o :=
  object?_modifyObject fun _ => rfl

/-- What bringing a state to the object of a key can do. -/
inductive EnterStep (m : PipelineManager) (purpose : Purpose) (key : ShaderKey)
    (s : PipelineState) : PipelineManager × Entered → Prop
  | noObject (ho : m.object? key = none) : EnterStep m purpose key s (m, .noObject)
  | found {o : PipelineObject} {i : PipelineInstance} {stats : PipelineStats}
      (ho : m.object? key = some o) (hi : o.instance? s = some i)
      (hstats : stats = if purpose = .use then m.stats.countHit else m.stats) :
      EnterStep m purpose key s ({ m with stats := stats }, .found i.handle)
  | compiled {o : PipelineObject} {h : PipelineHandle}
      (ho : m.object? key = some o) (hi : o.instance? s = none)
      (hworks : m.compiler.failing = false)
      (hh : h = ⟨m.compiler.requests, o.request m.device s⟩) :
      EnterStep m purpose key s (m.addCompiled key s h, .compiled h)
  | failed {o : PipelineObject} (ho : m.object? key = some o) (hi : o.instance? s = none)
      (hfails : m.compiler.failing = true) :
      EnterStep m purpose key s (m.countFailed, .failed)

theorem enterStep (m : PipelineManager) (purpose : Purpose) (key : ShaderKey)
    (s : PipelineState) : EnterStep m purpose key s (m.enter purpose key s) := by
  simp only [enter]
  cases ho : m.object? key with
  | none => exact .noObject ho
  | some o =>
    dsimp only
    cases hi : o.instance? s with
    | some i => cases purpose <;> exact .found ho hi rfl
    | none =>
      simp only [compileMissing, PipelineCompiler.outcome, key_of_object?_eq_some ho]
      cases hfailing : m.compiler.failing with
      | false => exact .compiled ho hi hfailing rfl
      | true => exact .failed ho hi hfailing

@[simp] theorem device_create (shader : ComputeShader) :
    (m.create shader).device = m.device := by
  rw [create]
  split <;> rfl

@[simp] theorem device_enter : (m.enter purpose key s).1.device = m.device := by
  have hstep := enterStep m purpose key s
  generalize m.enter purpose key s = result at hstep ⊢
  cases hstep <;> rfl

@[simp] theorem device_record : (m.record key s).device = m.device := by
  rw [record]
  split <;> rfl

@[simp] theorem compiler_create (shader : ComputeShader) :
    (m.create shader).compiler = m.compiler := by
  rw [create]
  split <;> rfl

@[simp] theorem compiler_record : (m.record key s).compiler = m.compiler := by
  rw [record]
  split <;> rfl

@[simp] theorem object?_record : (m.record key s).object? k = m.object? k := by
  rw [record]
  split <;> rfl

@[simp] theorem options_create (shader : ComputeShader) :
    (m.create shader).options = m.options := by
  rw [create]
  split <;> rfl

@[simp] theorem options_enter : (m.enter purpose key s).1.options = m.options := by
  have hstep := enterStep m purpose key s
  generalize m.enter purpose key s = result at hstep ⊢
  cases hstep <;> rfl

@[simp] theorem options_record : (m.record key s).options = m.options := by
  rw [record]
  split <;> rfl

@[simp] theorem cache_create (shader : ComputeShader) : (m.create shader).cache = m.cache := by
  rw [create]
  split <;> rfl

@[simp] theorem cache_enter : (m.enter purpose key s).1.cache = m.cache := by
  have hstep := enterStep m purpose key s
  generalize m.enter purpose key s = result at hstep ⊢
  cases hstep <;> rfl

@[simp] theorem stateCacheWrites_create (shader : ComputeShader) :
    (m.create shader).stats.stateCacheWrites = m.stats.stateCacheWrites := by
  rw [create]
  split <;> rfl

@[simp] theorem stateCacheWrites_enter :
    (m.enter purpose key s).1.stats.stateCacheWrites = m.stats.stateCacheWrites := by
  have hstep := enterStep m purpose key s
  generalize m.enter purpose key s = result at hstep ⊢
  cases hstep with
  | found ho hi hstats =>
    subst hstats
    cases purpose <;> rfl
  | _ => rfl

theorem record_of_unused (h : m.options.stateCache = false) : m.record key s = m := by
  rw [record, h]

theorem record_of_used {cache : StateCache} (h : m.options.stateCache = true)
    (hcache : m.cache = some cache) :
    m.record key s =
      { m with cache := some (cache.add ⟨⟨some key⟩, s⟩), stats := m.stats.countWrite } := by
  rw [record, h, hcache]

/-- No two objects have the same key, so that an object is found under its key. -/
def KeysDistinct (m : PipelineManager) : Prop := (m.objects.map (·.shader.key)).Nodup

theorem KeysDistinct.object?_eq_some (h : m.KeysDistinct) (ho : o ∈ m.objects) :
    m.object? o.shader.key = some o := by
  rw [KeysDistinct] at h
  rw [object?]
  generalize m.objects = objects at h ho ⊢
  induction objects with
  | nil => cases ho
  | cons o' os ih =>
    obtain ⟨hnot, hos⟩ := List.nodup_cons.1 h
    rw [List.find?_cons]
    rcases List.mem_cons.1 ho with rfl | ho
    · simp
    · have hne : o'.shader.key ≠ o.shader.key :=
        fun hkey => hnot (List.mem_map.2 ⟨o, ho, hkey.symm⟩)
      simp only [hne, decide_false]
      exact ih hos ho

/-- A property of managers that each of the four steps preserves. -/
structure IsInvariant (P : PipelineManager → Prop) : Prop where
  create : ∀ {m} (shader : ComputeShader), P m → P (m.create shader)
  enter : ∀ {m} (purpose : Purpose) (key : ShaderKey) (s : PipelineState),
    P m → P (m.enter purpose key s).1
  record : ∀ {m} (key : ShaderKey) (s : PipelineState), P m → P (m.record key s)
  setFailing : ∀ {m} (failing : Bool), P m → P (m.setFailing failing)

/-- What can be called on a manager. The two halves of a call come one by one where other calls
fall between them, and so do the objects and pipelines of a replay by several workers. -/
inductive Call where
  | create (shader : ComputeShader)
  | get (key : ShaderKey) (s : PipelineState)
  | prepare (key : ShaderKey) (s : PipelineState)
  | replay (resolve : StateCacheKey → Option ComputeShader) (entries : List StateCacheEntry)
  | setFailing (failing : Bool)
  | enter (purpose : Purpose) (key : ShaderKey) (s : PipelineState)
  | record (key : ShaderKey) (s : PipelineState)

def after (m : PipelineManager) : Call → PipelineManager
  | .create shader => m.create shader
  | .get key s => (m.get key s).1
  | .prepare key s => m.prepare key s
  | .replay resolve entries => (replay resolve m entries).1
  | .setFailing failing => m.setFailing failing
  | .enter purpose key s => (m.enter purpose key s).1
  | .record key s => m.record key s

def run (m : PipelineManager) (calls : List Call) : PipelineManager := calls.foldl after m

theorem run_append (m : PipelineManager) (calls more : List Call) :
    m.run (calls ++ more) = (m.run calls).run more := List.foldl_append

namespace IsInvariant

variable {P : PipelineManager → Prop}

theorem get (hP : IsInvariant P) (key : ShaderKey) (s : PipelineState) (h : P m) :
    P (m.get key s).1 := by
  have henter := hP.enter .use key s h
  rw [PipelineManager.get]
  cases he : m.enter .use key s with
  | mk m' e =>
    rw [he] at henter
    cases e with
    | compiled h => exact hP.record key s henter
    | found h => exact henter
    | failed => exact henter
    | noObject => exact henter

theorem replay (hP : IsInvariant P) (resolve : StateCacheKey → Option ComputeShader)
    (entries : List StateCacheEntry) (h : P m) :
    P (PipelineManager.replay resolve m entries).1 := by
  induction entries generalizing m with
  | nil => exact h
  | cons e es ih =>
    rw [PipelineManager.replay]
    cases resolve e.key with
    | none => exact ih h
    | some shader => exact ih (hP.enter .prepare shader.key e.state (hP.create shader h))

theorem after (hP : IsInvariant P) (call : Call) (h : P m) : P (m.after call) := by
  cases call with
  | create shader => exact hP.create shader h
  | get key s => exact hP.get key s h
  | prepare key s => exact hP.enter .prepare key s h
  | replay resolve entries => exact hP.replay resolve entries h
  | setFailing failing => exact hP.setFailing failing h
  | enter purpose key s => exact hP.enter purpose key s h
  | record key s => exact hP.record key s h

theorem run (hP : IsInvariant P) (calls : List Call) (h : P m) : P (m.run calls) := by
  induction calls generalizing m with
  | nil => exact h
  | cons call calls ih => exact ih (hP.after call h)

end IsInvariant

theorem keysDistinct_isInvariant : IsInvariant KeysDistinct where
  create := by
    intro m shader h
    rw [create]
    split
    · exact h
    · next hnone =>
      have hnew : ∀ o ∈ m.objects, o.shader.key ≠ shader.key := by
        simpa [object?] using hnone
      have happend : ((m.objects ++ [PipelineObject.ofShader m.options shader]).map
          (·.shader.key)).Nodup := by
        rw [List.map_append, List.nodup_append]
        refine ⟨h, List.pairwise_singleton _ _, ?_⟩
        intro k hk k' hk'
        obtain ⟨o, ho, rfl⟩ := List.mem_map.1 hk
        obtain rfl := List.mem_singleton.1 hk'
        exact hnew o ho
      exact happend
  enter := by
    intro m purpose key s h
    have hstep := enterStep m purpose key s
    generalize m.enter purpose key s = result at hstep ⊢
    cases hstep with
    | noObject ho => exact h
    | found ho hi hstats => exact h
    | failed ho hi hfails => exact h
    | @compiled o handle ho hi hworks hh =>
      have hkeys : ∀ o' : PipelineObject,
          (if o'.shader.key = key then o'.addInstance s handle else o').shader.key =
            o'.shader.key := by
        intro o'
        split <;> rfl
      have hmap : (m.objects.map fun o' => if o'.shader.key = key then o'.addInstance s handle
          else o').map (·.shader.key) = m.objects.map (·.shader.key) := by
        rw [List.map_map]
        exact List.map_congr_left fun o' _ => hkeys o'
      exact (congrArg List.Nodup hmap).mpr h
  record := by
    intro m key s h
    rw [record]
    split <;> exact h
  setFailing _ h := h

theorem options_isInvariant (options : PipelineOptions) :
    IsInvariant fun m => m.options = options where
  create _ h := (options_create _).trans h
  enter _ _ _ h := options_enter.trans h
  record _ _ h := options_record.trans h
  setFailing _ h := h

theorem device_isInvariant (device : Device) : IsInvariant fun m => m.device = device where
  create _ h := (device_create _).trans h
  enter _ _ _ h := device_enter.trans h
  record _ _ h := device_record.trans h
  setFailing _ h := h

end PipelineManager

end ShaderKit

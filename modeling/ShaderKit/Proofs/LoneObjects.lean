import ShaderKit.Proofs.ManagerRuns

/-!
# Objects on their own

The objects of a manager share its compiler, its counters and its state cache, but what becomes of
one of them depends only on the calls about its own key and on whether the compiler works. Of the
other calls it keeps no more than the numbers of its pipelines, since the compiler numbers the
requests of all objects together.
-/

namespace ShaderKit

def PipelineHandle.unnumbered (h : PipelineHandle) : PipelineHandle := { h with serial := 0 }

def PipelineInstance.unnumbered (i : PipelineInstance) : PipelineInstance :=
  { i with handle := i.handle.unnumbered }

def Entered.unnumbered : Entered → Entered
  | found h => found h.unnumbered
  | compiled h => compiled h.unnumbered
  | failed => failed
  | noObject => noObject

theorem Entered.handle?_unnumbered (e : Entered) :
    e.unnumbered.handle? = e.handle?.map PipelineHandle.unnumbered := by
  cases e <;> rfl

namespace PipelineObject

def unnumbered (o : PipelineObject) : PipelineObject :=
  { o with instances := o.instances.map PipelineInstance.unnumbered }

theorem instance?_unnumbered (o : PipelineObject) (s : PipelineState) :
    o.unnumbered.instance? s = (o.instance? s).map PipelineInstance.unnumbered := by
  rw [instance?, unnumbered, List.find?_map]
  rfl

theorem unnumbered_addInstance (o : PipelineObject) (s : PipelineState) (h : PipelineHandle) :
    (o.addInstance s h).unnumbered = o.unnumbered.addInstance s h.unnumbered := by
  rw [addInstance, unnumbered, List.map_append]
  rfl

/-- What bringing a state to an object does to it, with pipelines that have no numbers. -/
def enterAlone (failing : Bool) (device : Device) (o? : Option PipelineObject)
    (s : PipelineState) : Option PipelineObject × Entered :=
  match o? with
  | none => (none, .noObject)
  | some o =>
    match o.instance? s with
    | some i => (some o, .found i.handle)
    | none =>
      if failing then (some o, .failed)
      else (some (o.addInstance s ⟨0, o.request device s⟩), .compiled ⟨0, o.request device s⟩)

end PipelineObject

namespace PipelineManager

inductive Answer where
  | object (o? : Option PipelineObject)
  | pipeline (h? : Option PipelineHandle)
  | entered (e : Entered)
  | done

namespace Answer

def unnumbered : Answer → Answer
  | object o? => object (o?.map PipelineObject.unnumbered)
  | pipeline h? => pipeline (h?.map PipelineHandle.unnumbered)
  | entered e => entered e.unnumbered
  | done => done

end Answer

def answer (m : PipelineManager) : Call → Answer
  | .create shader => .object ((m.create shader).object? shader.key)
  | .get key s => .pipeline (m.get key s).2
  | .enter purpose key s => .entered (m.enter purpose key s).2
  | .prepare _ _ | .replay _ _ | .setFailing _ | .record _ _ => .done

namespace Call

def key? : Call → Option ShaderKey
  | .create shader => some shader.key
  | .get key _ | .prepare key _ | .enter _ key _ | .record key _ => some key
  | .replay _ _ | .setFailing _ => none

/-- A replay of the entries for one key; other calls are as they are. -/
def filterEntries (key : ShaderKey) : Call → Call
  | .replay resolve entries =>
    .replay resolve (entries.filter fun e => (resolve e.key).any (·.key = key))
  | call => call

/-- What is left of a call when the objects of other keys are left out. -/
def onlyAbout (key : ShaderKey) (call : Call) : Option Call :=
  match call.key? with
  | some k => if k = key then some call else none
  | none => some (call.filterEntries key)

theorem onlyAbout_of_key? {call : Call} {key k : ShaderKey} (h : call.key? = some k) :
    call.onlyAbout key = if k = key then some call else none := by
  rw [onlyAbout, h]

end Call

/-- The answers to the calls about a key in the course of a run, without the numbers of
pipelines. -/
def answersAbout (key : ShaderKey) : PipelineManager → List Call → List Answer
  | _, [] => []
  | m, call :: calls =>
    if call.key? = some key then
      (m.answer call).unnumbered :: answersAbout key (m.after call) calls
    else answersAbout key (m.after call) calls

theorem failing_enter (m : PipelineManager) (purpose : Purpose) (key : ShaderKey)
    (s : PipelineState) :
    (m.enter purpose key s).1.compiler.failing = m.compiler.failing := by
  have hstep := enterStep m purpose key s
  generalize m.enter purpose key s = result at hstep ⊢
  cases hstep <;> rfl

/-- Of a manager, bringing a state to an object sees that object and whether the compiler works. -/
theorem unnumbered_enter (m : PipelineManager) (purpose : Purpose) (key : ShaderKey)
    (s : PipelineState) :
    let alone := PipelineObject.enterAlone m.compiler.failing m.device
      ((m.object? key).map PipelineObject.unnumbered) s
    ((m.enter purpose key s).1.object? key).map PipelineObject.unnumbered = alone.1 ∧
      (m.enter purpose key s).2.unnumbered = alone.2 := by
  intro alone
  have hstep := enterStep m purpose key s
  generalize m.enter purpose key s = result at hstep ⊢
  cases hstep with
  | noObject ho =>
    have halone : alone = (none, .noObject) := by
      simp only [alone, ho, Option.map_none, PipelineObject.enterAlone]
    rw [halone, ho]
    exact ⟨rfl, rfl⟩
  | @found o i stats ho hi hstats =>
    have halone : alone = (some o.unnumbered, .found i.unnumbered.handle) := by
      simp only [alone, ho, Option.map_some, PipelineObject.enterAlone,
        PipelineObject.instance?_unnumbered, hi]
    rw [halone]
    exact ⟨congrArg (Option.map PipelineObject.unnumbered) ho, rfl⟩
  | @compiled o h ho hi hworks hh =>
    have halone : alone = (some (o.unnumbered.addInstance s h.unnumbered),
        .compiled h.unnumbered) := by
      simp only [alone, ho, Option.map_some, PipelineObject.enterAlone,
        PipelineObject.instance?_unnumbered, hi, Option.map_none, hworks, hh]
      rfl
    rw [halone]
    refine ⟨?_, rfl⟩
    dsimp only
    rw [object?_addCompiled, ho, Option.map_some, if_pos rfl, Option.map_some,
      PipelineObject.unnumbered_addInstance]
  | @failed o ho hi hfails =>
    have halone : alone = (some o.unnumbered, .failed) := by
      simp only [alone, ho, Option.map_some, PipelineObject.enterAlone,
        PipelineObject.instance?_unnumbered, hi, Option.map_none, hfails, if_true]
    rw [halone]
    exact ⟨congrArg (Option.map PipelineObject.unnumbered) ho, rfl⟩

theorem snd_get (m : PipelineManager) (key : ShaderKey) (s : PipelineState) :
    (m.get key s).2 = (m.enter .use key s).2.handle? := by
  rw [get]
  cases m.enter .use key s with
  | mk m' e => cases e <;> rfl

/-- Managers that agree on all that matters to the object of a key. -/
structure AgreeOn (key : ShaderKey) (m m' : PipelineManager) : Prop where
  options_eq : m.options = m'.options
  device_eq : m.device = m'.device
  failing_eq : m.compiler.failing = m'.compiler.failing
  object?_eq : (m.object? key).map PipelineObject.unnumbered =
    (m'.object? key).map PipelineObject.unnumbered

namespace AgreeOn

variable {key k : ShaderKey} {m m' m₁ m₂ : PipelineManager}

theorem refl (key : ShaderKey) (m : PipelineManager) : AgreeOn key m m := ⟨rfl, rfl, rfl, rfl⟩

theorem trans (h : AgreeOn key m m₁) (h' : AgreeOn key m₁ m₂) : AgreeOn key m m₂ :=
  ⟨h.options_eq.trans h'.options_eq, h.device_eq.trans h'.device_eq,
    h.failing_eq.trans h'.failing_eq, h.object?_eq.trans h'.object?_eq⟩

theorem symm (h : AgreeOn key m m') : AgreeOn key m' m :=
  ⟨h.options_eq.symm, h.device_eq.symm, h.failing_eq.symm, h.object?_eq.symm⟩

theorem create (h : AgreeOn key m m') (shader : ComputeShader) :
    AgreeOn key (m.create shader) (m'.create shader) where
  options_eq := by rw [options_create, options_create, h.options_eq]
  device_eq := by rw [device_create, device_create, h.device_eq]
  failing_eq := by rw [compiler_create, compiler_create, h.failing_eq]
  object?_eq := by
    rw [object?_create, object?_create, Option.map_or, Option.map_or, h.object?_eq, h.options_eq]

theorem setFailing (h : AgreeOn key m m') (failing : Bool) :
    AgreeOn key (m.setFailing failing) (m'.setFailing failing) :=
  ⟨h.options_eq, h.device_eq, rfl, h.object?_eq⟩

theorem record_left (key k : ShaderKey) (m : PipelineManager) (s : PipelineState) :
    AgreeOn key (m.record k s) m :=
  ⟨options_record, device_record, by rw [compiler_record], by rw [object?_record]⟩

theorem create_left {shader : ComputeShader} (hne : shader.key ≠ key) (m : PipelineManager) :
    AgreeOn key (m.create shader) m where
  options_eq := options_create shader
  device_eq := device_create shader
  failing_eq := by rw [compiler_create]
  object?_eq := by rw [object?_create, if_neg hne, Option.or_none]

theorem enter_left (hne : k ≠ key) (m : PipelineManager) (purpose : Purpose) (s : PipelineState) :
    AgreeOn key (m.enter purpose k s).1 m where
  options_eq := options_enter
  device_eq := device_enter
  failing_eq := failing_enter m purpose k s
  object?_eq := by
    have hstep := enterStep m purpose k s
    generalize m.enter purpose k s = result at hstep ⊢
    cases hstep with
    | compiled ho hi hworks hh =>
      dsimp only
      rw [object?_addCompiled]
      simp only [hne.symm, if_false, Option.map_id']
    | _ => rfl

theorem enter (h : AgreeOn key m m') (purpose : Purpose) (s : PipelineState) :
    AgreeOn key (m.enter purpose key s).1 (m'.enter purpose key s).1 ∧
      (m.enter purpose key s).2.unnumbered = (m'.enter purpose key s).2.unnumbered := by
  obtain ⟨hobject, hentered⟩ := unnumbered_enter m purpose key s
  obtain ⟨hobject', hentered'⟩ := unnumbered_enter m' purpose key s
  rw [h.failing_eq, h.device_eq, h.object?_eq] at hobject hentered
  refine ⟨⟨?_, ?_, ?_, hobject.trans hobject'.symm⟩, hentered.trans hentered'.symm⟩
  · rw [options_enter, options_enter, h.options_eq]
  · rw [device_enter, device_enter, h.device_eq]
  · rw [failing_enter, failing_enter, h.failing_eq]

/-- What a use adds to bringing the state to the object is at most a record. -/
theorem get_left (key k : ShaderKey) (m : PipelineManager) (s : PipelineState) :
    AgreeOn key (m.get k s).1 (m.enter .use k s).1 := by
  rw [PipelineManager.get]
  cases m.enter .use k s with
  | mk m' e =>
    cases e with
    | compiled h => exact record_left key k m' s
    | found h => exact .refl key m'
    | failed => exact .refl key m'
    | noObject => exact .refl key m'

theorem replayEntry_left {shader : ComputeShader} (hne : shader.key ≠ key) (m : PipelineManager)
    (s : PipelineState) : AgreeOn key (m.replayEntry shader s) m :=
  (enter_left hne (m.create shader) .prepare s).trans (create_left hne m)

/-- Entries for other objects can be left out of a replay. -/
theorem replay (h : AgreeOn key m m') (resolve : StateCacheKey → Option ComputeShader)
    (entries : List StateCacheEntry) :
    AgreeOn key (PipelineManager.replay resolve m entries).1
      (PipelineManager.replay resolve m'
        (entries.filter fun e => (resolve e.key).any (·.key = key))).1 := by
  induction entries generalizing m m' with
  | nil => exact h
  | cons e es ih =>
    rw [PipelineManager.replay, List.filter_cons]
    cases hresolve : resolve e.key with
    | none => exact ih h
    | some shader =>
      by_cases hkey : shader.key = key
      · subst hkey
        have hkept : (some shader).any (fun shader' => shader'.key = shader.key) = true := by simp
        rw [if_pos hkept, PipelineManager.replay, hresolve]
        exact ih ((h.create shader).enter .prepare e.state).1
      · have hleft : ¬ (some shader).any (·.key = key) = true := by simpa using hkey
        rw [if_neg hleft]
        exact ih ((replayEntry_left hkey m e.state).trans h)

/-- A call about the object has the same effect on it, and the same answer. -/
theorem after_of_key? {call : Call} (h : AgreeOn key m m') (hcall : call.key? = some key) :
    AgreeOn key (m.after call) (m'.after call) ∧
      (m.answer call).unnumbered = (m'.answer call).unnumbered := by
  cases call with
  | create shader =>
    obtain rfl : shader.key = key := Option.some.inj hcall
    exact ⟨h.create shader, congrArg Answer.object (h.create shader).object?_eq⟩
  | get k s =>
    obtain rfl : k = key := Option.some.inj hcall
    obtain ⟨hagree, hentered⟩ := h.enter .use s
    refine ⟨(get_left k k m s).trans (hagree.trans (get_left k k m' s).symm), ?_⟩
    rw [answer, answer, Answer.unnumbered, Answer.unnumbered, snd_get, snd_get,
      ← Entered.handle?_unnumbered, ← Entered.handle?_unnumbered, hentered]
  | prepare k s =>
    obtain rfl : k = key := Option.some.inj hcall
    exact ⟨(h.enter .prepare s).1, rfl⟩
  | enter purpose k s =>
    obtain rfl : k = key := Option.some.inj hcall
    obtain ⟨hagree, hentered⟩ := h.enter purpose s
    exact ⟨hagree, congrArg Answer.entered hentered⟩
  | record k s =>
    exact ⟨(record_left key k m s).trans (h.trans (record_left key k m' s).symm), rfl⟩
  | replay resolve entries => cases hcall
  | setFailing failing => cases hcall

theorem after_left {call : Call} (hcall : call.key? = some k) (hne : k ≠ key)
    (m : PipelineManager) : AgreeOn key (m.after call) m := by
  cases call with
  | create shader =>
    obtain rfl : shader.key = k := Option.some.inj hcall
    exact create_left hne m
  | get k' s =>
    obtain rfl : k' = k := Option.some.inj hcall
    exact (get_left key k' m s).trans (enter_left hne m .use s)
  | prepare k' s =>
    obtain rfl : k' = k := Option.some.inj hcall
    exact enter_left hne m .prepare s
  | enter purpose k' s =>
    obtain rfl : k' = k := Option.some.inj hcall
    exact enter_left hne m purpose s
  | record k' s => exact record_left key k' m s
  | replay resolve entries => cases hcall
  | setFailing failing => cases hcall

end AgreeOn

theorem agreeOn_run {key : ShaderKey} {m m' : PipelineManager} (h : AgreeOn key m m')
    (calls : List Call) :
    answersAbout key m' (calls.filterMap (Call.onlyAbout key)) = answersAbout key m calls ∧
      AgreeOn key (m.run calls) (m'.run (calls.filterMap (Call.onlyAbout key))) := by
  induction calls generalizing m m' with
  | nil => exact ⟨rfl, h⟩
  | cons call calls ih =>
    cases hcall : call.key? with
    | some k =>
      by_cases hk : k = key
      · subst hk
        obtain ⟨hagree, hanswer⟩ := h.after_of_key? hcall
        obtain ⟨hanswers, hrun⟩ := ih hagree
        have hkept : call.onlyAbout k = some call := by
          rw [Call.onlyAbout_of_key? hcall, if_pos rfl]
        rw [List.filterMap_cons_some hkept]
        refine ⟨?_, hrun⟩
        rw [answersAbout, answersAbout, if_pos hcall, if_pos hcall, hanswer, hanswers]
      · obtain ⟨hanswers, hrun⟩ := ih ((AgreeOn.after_left hcall hk m).trans h)
        have hleft : call.onlyAbout key = none := by
          rw [Call.onlyAbout_of_key? hcall, if_neg hk]
        have hother : ¬ call.key? = some key := by
          rw [hcall, Option.some.injEq]
          exact hk
        rw [List.filterMap_cons_none hleft]
        refine ⟨?_, hrun⟩
        rw [answersAbout, if_neg hother, hanswers]
    | none =>
      cases call with
      | replay resolve entries => exact ih (h.replay resolve entries)
      | setFailing failing => exact ih (h.setFailing failing)
      | _ => cases hcall

/-- What becomes of the object of a key, and every answer to a call about it, is what it would be
without the calls about other objects, but for the numbers of pipelines. -/
theorem run_onlyAbout (m : PipelineManager) (calls : List Call) (key : ShaderKey) :
    answersAbout key m (calls.filterMap (Call.onlyAbout key)) = answersAbout key m calls ∧
      ((m.run (calls.filterMap (Call.onlyAbout key))).object? key).map PipelineObject.unnumbered =
        ((m.run calls).object? key).map PipelineObject.unnumbered := by
  obtain ⟨hanswers, hagree⟩ := agreeOn_run (AgreeOn.refl key m) calls
  exact ⟨hanswers, hagree.object?_eq.symm⟩

end PipelineManager

end ShaderKit

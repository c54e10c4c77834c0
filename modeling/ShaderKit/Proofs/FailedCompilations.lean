import ShaderKit.Proofs.LoneObjects
import ShaderKit.Proofs.PipelineInstances

/-!
# Failed compilations

A compilation that fails is counted, and its request has taken a number. Nothing else of it stays:
neither the objects and their pipelines nor the state cache know of it. After any number of failures
the manager gives the answers that it would have given without them, but for the numbers of the
pipelines that were compiled later. A state that was refused goes to the compiler again when it is
asked for again.
-/

namespace ShaderKit

/-- A handle as it would be numbered if `n` more requests had come before request number `first`. -/
def PipelineHandle.delayed (first n : Nat) (h : PipelineHandle) : PipelineHandle :=
  { h with serial := if h.serial < first then h.serial else n + h.serial }

def PipelineInstance.delayed (first n : Nat) (i : PipelineInstance) : PipelineInstance :=
  { i with handle := i.handle.delayed first n }

def Entered.delayed (first n : Nat) : Entered → Entered
  | found h => found (h.delayed first n)
  | compiled h => compiled (h.delayed first n)
  | failed => failed
  | noObject => noObject

namespace PipelineObject

def delayed (first n : Nat) (o : PipelineObject) : PipelineObject :=
  { o with instances := o.instances.map (·.delayed first n) }

theorem instance?_delayed (o : PipelineObject) (first n : Nat) (s : PipelineState) :
    (o.delayed first n).instance? s = (o.instance? s).map (·.delayed first n) := by
  rw [instance?, delayed, List.find?_map]
  rfl

theorem delayed_addInstance (o : PipelineObject) (first n : Nat) (s : PipelineState)
    (h : PipelineHandle) :
    (o.addInstance s h).delayed first n =
      (o.delayed first n).addInstance s (h.delayed first n) := by
  rw [addInstance, delayed, List.map_append]
  rfl

end PipelineObject

theorem PipelineCompiler.outcome_eq_error_iff {c : PipelineCompiler} {r : CompileRequest}
    {fault : CompileFault} :
    c.outcome r = .error fault ↔
      c.failing = true ∧ CompileFault.pipeline r.shader.name "injected failure" = fault := by
  rw [outcome]
  cases c.failing <;> simp

namespace PipelineManager

def Answer.delayed (first n : Nat) : Answer → Answer
  | object o? => object (o?.map (·.delayed first n))
  | pipeline h? => pipeline (h?.map (·.delayed first n))
  | entered e => entered (e.delayed first n)
  | done => done

/-- The answers to a list of calls. -/
def answers : PipelineManager → List Call → List Answer
  | _, [] => []
  | m, call :: calls => m.answer call :: answers (m.after call) calls

/-- The manager after a number of failed compilations. -/
def afterFailures (m : PipelineManager) (n : Nat) : PipelineManager :=
  { m with
      stats := { m.stats with
        instanceMisses := n + m.stats.instanceMisses
        compileFailures := n + m.stats.compileFailures }
      compiler := { m.compiler with requests := n + m.compiler.requests } }

/-- The manager as it would be if `n` requests had failed before request number `first`. -/
def delayed (first n : Nat) (m : PipelineManager) : PipelineManager :=
  { m.afterFailures n with objects := m.objects.map (·.delayed first n) }

/-- No pipeline of the object of a key serves a state. -/
def Lacks (m : PipelineManager) (key : ShaderKey) (s : PipelineState) : Prop :=
  ∀ i ∈ m.instances key, ¬ i.state.Compatible s

namespace Call

/-- The object and the state that a call asks a pipeline for. -/
def demand? : Call → Option (ShaderKey × PipelineState)
  | .get key s | .prepare key s | .enter _ key s => some (key, s)
  | .create _ | .replay _ _ | .setFailing _ | .record _ _ => none

/-- Whether a call, or an entry that it replays, asks an object for a pipeline that would serve a
state. -/
def AsksFor (key : ShaderKey) (s : PipelineState) : Call → Prop
  | .replay resolve entries => ∃ e ∈ entries, ∃ shader, resolve e.key = some shader ∧
      shader.key = key ∧ e.state.Compatible s
  | call => ∃ t, call.demand? = some (key, t) ∧ t.Compatible s

theorem asksFor_of_demand? {key : ShaderKey} {s t : PipelineState} (call : Call)
    (h : call.demand? = some (key, t)) (hserves : t.Compatible s) : call.AsksFor key s := by
  cases call with
  | replay resolve entries => cases h
  | _ => exact ⟨t, h, hserves⟩

end Call

/-- A state that is brought to an object goes to the compiler. The outcome is the answer to a use,
and a pipeline that is compiled is added to those of the object. -/
structure Compiles (m : PipelineManager) (o : PipelineObject) (key : ShaderKey)
    (s : PipelineState) : Prop where
  compiler_get : (m.get key s).1.compiler = m.compiler.advance
  compiler_prepare : (m.prepare key s).compiler = m.compiler.advance
  answer_get : (m.get key s).2 = (m.compiler.outcome (o.request m.device s)).toOption
  instances_of_ok : ∀ handle, m.compiler.outcome (o.request m.device s) = .ok handle →
    (m.get key s).1.instances key = m.instances key ++ [⟨s, handle⟩] ∧
      (m.prepare key s).instances key = m.instances key ++ [⟨s, handle⟩]

/-- A call asks for a pipeline that is not there and that the compiler does not deliver. -/
def Refuses (m : PipelineManager) (call : Call) : Prop :=
  ∃ key s o fault, call.demand? = some (key, s) ∧ m.object? key = some o ∧ m.Lacks key s ∧
    m.compiler.outcome (o.request m.device s) = .error fault

variable {m : PipelineManager} {key k : ShaderKey} {s t : PipelineState} {o : PipelineObject}
  {first n : Nat}

section Failures

theorem countFailed_eq (m : PipelineManager) : m.countFailed = m.afterFailures 1 := by
  simp only [countFailed, afterFailures, PipelineStats.countMiss, PipelineStats.countFailure,
    PipelineCompiler.advance, Nat.add_comm]

theorem afterFailures_zero (m : PipelineManager) : m.afterFailures 0 = m := by
  simp only [afterFailures, Nat.zero_add]

theorem afterFailures_add (m : PipelineManager) (n n' : Nat) :
    (m.afterFailures n).afterFailures n' = m.afterFailures (n' + n) := by
  simp only [afterFailures, Nat.add_assoc]

theorem lacks_iff (ho : m.object? key = some o) : m.Lacks key s ↔ o.instance? s = none := by
  rw [Lacks, instances_eq ho, PipelineObject.instance?_eq_none_iff]

/-- A state that no pipeline serves goes to the compiler. -/
theorem enter_of_lacks (ho : m.object? key = some o) (h : m.Lacks key s) (purpose : Purpose) :
    m.enter purpose key s =
      match m.compiler.outcome (o.request m.device s) with
      | .ok handle => (m.addCompiled key s handle, .compiled handle)
      | .error _ => (m.afterFailures 1, .failed) := by
  have hkey := key_of_object?_eq_some ho
  rw [← countFailed_eq]
  simp only [enter, ho, (lacks_iff ho).1 h, compileMissing, hkey]
  cases m.compiler.outcome (o.request m.device s) <;> rfl

theorem get_of_instance? {i : PipelineInstance} (ho : m.object? key = some o)
    (hi : o.instance? s = some i) :
    m.get key s = ({ m with stats := m.stats.countHit }, some i.handle) := by
  simp only [get, enter, ho, hi]
  rfl

theorem get_eq_none_iff (ho : m.object? key = some o) :
    (m.get key s).2 = none ↔
      m.Lacks key s ∧ ∃ fault, m.compiler.outcome (o.request m.device s) = .error fault := by
  rw [lacks_iff ho]
  cases hi : o.instance? s with
  | some i =>
    rw [get_of_instance? ho hi]
    simp
  | none =>
    rw [snd_get, enter_of_lacks ho ((lacks_iff ho).2 hi)]
    cases m.compiler.outcome (o.request m.device s) <;> simp [Entered.handle?]

/-- A refused call adds one failure. -/
theorem after_of_refuses {call : Call} (h : m.Refuses call) : m.after call = m.afterFailures 1 := by
  obtain ⟨key, s, o, fault, hdemand, ho, hlacks, hfault⟩ := h
  have henter : ∀ purpose, m.enter purpose key s = (m.afterFailures 1, .failed) := by
    intro purpose
    rw [enter_of_lacks ho hlacks, hfault]
  cases call with
  | get k t =>
    obtain ⟨rfl, rfl⟩ := Prod.mk.inj (Option.some.inj hdemand)
    rw [after, get, henter]
  | prepare k t =>
    obtain ⟨rfl, rfl⟩ := Prod.mk.inj (Option.some.inj hdemand)
    rw [after, prepare, henter]
  | enter purpose k t =>
    obtain ⟨rfl, rfl⟩ := Prod.mk.inj (Option.some.inj hdemand)
    rw [after, henter]
  | create | replay | setFailing | record => cases hdemand

/-- What was refused once is refused again. -/
theorem Refuses.afterFailures {call : Call} (h : m.Refuses call) (n : Nat) :
    (m.afterFailures n).Refuses call := by
  obtain ⟨key, s, o, fault, hdemand, ho, hlacks, hfault⟩ := h
  obtain ⟨hfails, hnamed⟩ := PipelineCompiler.outcome_eq_error_iff.1 hfault
  exact ⟨key, s, o, fault, hdemand, ho, hlacks,
    PipelineCompiler.outcome_eq_error_iff.2 ⟨hfails, hnamed⟩⟩

theorem run_of_refuses {attempts : List Call} (h : ∀ call ∈ attempts, m.Refuses call) :
    m.run attempts = m.afterFailures attempts.length := by
  induction attempts generalizing m with
  | nil => exact (afterFailures_zero m).symm
  | cons call attempts ih =>
    obtain ⟨hcall, hattempts⟩ := List.forall_mem_cons.1 h
    have hrest := ih fun call hmem => (hattempts call hmem).afterFailures 1
    rw [afterFailures_add] at hrest
    rw [run, List.foldl_cons, after_of_refuses hcall]
    exact hrest

end Failures

section Delays

theorem object?_delayed (m : PipelineManager) (first n : Nat) (key : ShaderKey) :
    (m.delayed first n).object? key = (m.object? key).map (·.delayed first n) := by
  rw [object?, delayed, List.find?_map]
  rfl

theorem lacks_delayed (first n : Nat) (ho : m.object? key = some o) (hi : o.instance? s = none) :
    (m.delayed first n).Lacks key s := by
  have hobject := object?_delayed m first n key
  rw [ho] at hobject
  rw [lacks_iff hobject, PipelineObject.instance?_delayed, hi]
  rfl

theorem delayed_modifyObject {f f' : PipelineObject → PipelineObject}
    (h : ∀ o, (f o).delayed first n = f' (o.delayed first n)) (m : PipelineManager)
    (key : ShaderKey) :
    (m.modifyObject key f).delayed first n = (m.delayed first n).modifyObject key f' := by
  have hobjects : (m.objects.map fun o => if o.shader.key = key then f o else o).map
      (·.delayed first n) = (m.objects.map (·.delayed first n)).map
        fun o => if o.shader.key = key then f' o else o := by
    rw [List.map_map, List.map_map]
    refine List.map_congr_left fun o _ => ?_
    change (if o.shader.key = key then f o else o).delayed first n =
      if o.shader.key = key then f' (o.delayed first n) else o.delayed first n
    rw [← h]
    split <;> rfl
  exact congrArg (fun objects => { m.afterFailures n with objects := objects }) hobjects

theorem delayed_create (m : PipelineManager) (shader : ComputeShader) :
    (m.create shader).delayed first n = (m.delayed first n).create shader := by
  rw [create, create, object?_delayed, Option.isSome_map]
  split
  · rfl
  · have hobjects : (m.objects ++ [PipelineObject.ofShader m.options shader]).map
        (·.delayed first n) =
          m.objects.map (·.delayed first n) ++ [PipelineObject.ofShader m.options shader] := by
      rw [List.map_append]
      rfl
    exact congrArg (fun objects => { m.afterFailures n with objects := objects }) hobjects

theorem delayed_record (m : PipelineManager) (key : ShaderKey) (s : PipelineState) :
    (m.record key s).delayed first n = (m.delayed first n).record key s := by
  have hoptions : (m.delayed first n).options = m.options := rfl
  have hcache : (m.delayed first n).cache = m.cache := rfl
  rw [record, record, hoptions, hcache]
  split <;> rfl

/-- The number of the next request is among the delayed ones, as those are that follow. -/
theorem requests_isInvariant (first : Nat) : IsInvariant fun m => first ≤ m.compiler.requests where
  create _ h := by
    rw [compiler_create]
    exact h
  enter purpose key s h := Nat.le_trans h (serial_of_enter _ purpose key s).1
  record _ _ h := by
    rw [compiler_record]
    exact h
  setFailing _ h := h

variable (h : first ≤ m.compiler.requests)

include h

theorem enter_delayed (purpose : Purpose) (key : ShaderKey) (s : PipelineState) :
    (m.delayed first n).enter purpose key s =
      ((m.enter purpose key s).1.delayed first n, (m.enter purpose key s).2.delayed first n) := by
  have hobject := object?_delayed m first n key
  have hstep := enterStep m purpose key s
  generalize m.enter purpose key s = result at hstep ⊢
  cases hstep with
  | noObject ho =>
    rw [ho] at hobject
    simp only [enter, hobject, Option.map_none]
    rfl
  | @found o i stats ho hi hstats =>
    rw [ho] at hobject
    simp only [enter, hobject, Option.map_some, PipelineObject.instance?_delayed, hi]
    subst hstats
    cases purpose <;> rfl
  | @compiled o handle ho hi hworks hh =>
    rw [ho] at hobject
    have hlacks := lacks_delayed first n ho hi
    have houtcome : (m.delayed first n).compiler.outcome
        ((o.delayed first n).request (m.delayed first n).device s) =
          .ok (handle.delayed first n) := by
      have hlate : ¬ m.compiler.requests < first := Nat.not_lt.2 h
      rw [hh, PipelineHandle.delayed, if_neg hlate]
      have hstill : ¬ (m.delayed first n).compiler.failing = true := by
        rw [Bool.not_eq_true]
        exact hworks
      exact if_neg hstill
    rw [enter_of_lacks hobject hlacks, houtcome]
    refine Prod.ext (Eq.symm ?_) rfl
    exact delayed_modifyObject (fun o => o.delayed_addInstance first n s handle) _ key
  | @failed o ho hi hfails =>
    rw [ho] at hobject
    have hlacks := lacks_delayed first n ho hi
    have hrefused : ∀ r, (m.delayed first n).compiler.outcome r =
        .error (.pipeline r.shader.name "injected failure") :=
      fun r => PipelineCompiler.outcome_eq_error_iff.2 ⟨hfails, rfl⟩
    rw [enter_of_lacks hobject hlacks, hrefused, ← countFailed_eq]
    rfl

theorem get_delayed (key : ShaderKey) (s : PipelineState) :
    (m.delayed first n).get key s =
      ((m.get key s).1.delayed first n, (m.get key s).2.map (·.delayed first n)) := by
  rw [get, get, enter_delayed h]
  rcases m.enter .use key s with ⟨m', _ | handle | _ | _⟩
  · rfl
  · exact Prod.ext (delayed_record m' key s).symm rfl
  · rfl
  · rfl

theorem replay_delayed (resolve : StateCacheKey → Option ComputeShader)
    (entries : List StateCacheEntry) :
    (replay resolve (m.delayed first n) entries).1 =
      (replay resolve m entries).1.delayed first n := by
  induction entries generalizing m with
  | nil => rfl
  | cons e es ih =>
    rw [replay, replay]
    cases resolve e.key with
    | none => exact ih h
    | some shader =>
      have hcreate := (requests_isInvariant first).create shader h
      have hentry : (m.delayed first n).replayEntry shader e.state =
          (m.replayEntry shader e.state).delayed first n := by
        rw [replayEntry, replayEntry, prepare, prepare, ← delayed_create, enter_delayed hcreate]
      simp only [hentry]
      exact ih ((requests_isInvariant first).enter .prepare shader.key e.state hcreate)

theorem after_delayed (call : Call) :
    (m.delayed first n).after call = (m.after call).delayed first n := by
  cases call with
  | create shader => exact (delayed_create m shader).symm
  | get key s => exact congrArg Prod.fst (get_delayed h key s)
  | prepare key s => exact congrArg Prod.fst (enter_delayed h .prepare key s)
  | replay resolve entries => exact replay_delayed h resolve entries
  | setFailing failing => rfl
  | enter purpose key s => exact congrArg Prod.fst (enter_delayed h purpose key s)
  | record key s => exact (delayed_record m key s).symm

theorem answer_delayed (call : Call) :
    (m.delayed first n).answer call = (m.answer call).delayed first n := by
  cases call with
  | create shader =>
    rw [answer, ← delayed_create, object?_delayed]
    rfl
  | get key s =>
    rw [answer, get_delayed h]
    rfl
  | enter purpose key s =>
    rw [answer, enter_delayed h]
    rfl
  | prepare | replay | setFailing | record => rfl

theorem run_delayed (calls : List Call) :
    (m.delayed first n).run calls = (m.run calls).delayed first n ∧
      (m.delayed first n).answers calls = (m.answers calls).map (·.delayed first n) := by
  induction calls generalizing m with
  | nil => exact ⟨rfl, rfl⟩
  | cons call calls ih =>
    obtain ⟨hrun, hanswers⟩ := ih ((requests_isInvariant first).after call h)
    rw [answers, answers, List.map_cons, answer_delayed h, after_delayed h, hanswers]
    refine ⟨?_, rfl⟩
    rw [run, List.foldl_cons, after_delayed h]
    exact hrun

end Delays

/-- Every pipeline has the number of a request that was made. -/
def Numbered (m : PipelineManager) : Prop :=
  ∀ o ∈ m.objects, ∀ i ∈ o.instances, i.handle.serial < m.compiler.requests

theorem numbered_isInvariant : IsInvariant Numbered where
  create := by
    intro m shader h
    rw [create]
    split
    · exact h
    · intro o ho i hi
      rcases List.mem_append.1 ho with ho | ho
      · exact h o ho i hi
      · rw [List.mem_singleton.1 ho] at hi
        cases hi
  enter := by
    intro m purpose key s h
    have hstep := enterStep m purpose key s
    generalize m.enter purpose key s = result at hstep ⊢
    cases hstep with
    | noObject ho => exact h
    | found ho hi hstats => exact h
    | failed ho hi hfails => exact fun o ho i hi => Nat.lt_succ_of_lt (h o ho i hi)
    | @compiled o handle ho hi hworks hh =>
      intro o' ho' i hi'
      obtain ⟨o'', ho'', rfl⟩ := List.mem_map.1 ho'
      have hold : ∀ i ∈ o''.instances, i.handle.serial < m.compiler.requests + 1 :=
        fun i hi => Nat.lt_succ_of_lt (h o'' ho'' i hi)
      dsimp only at hi'
      split at hi'
      · rcases List.mem_append.1 hi' with hi' | hi'
        · exact hold i hi'
        · rw [List.mem_singleton.1 hi', hh]
          exact Nat.lt_succ_self _
      · exact hold i hi'
  record := by
    intro m key s h
    rw [record]
    split <;> exact h
  setFailing _ h := h

theorem Numbered.afterFailures_eq_delayed (h : m.Numbered) (n : Nat) :
    m.afterFailures n = m.delayed m.compiler.requests n := by
  have hinstance : ∀ o ∈ m.objects, ∀ i ∈ o.instances,
      i.delayed m.compiler.requests n = i := by
    intro o ho i hi
    rw [PipelineInstance.delayed, PipelineHandle.delayed, if_pos (h o ho i hi)]
  have hobject : ∀ o ∈ m.objects, o.delayed m.compiler.requests n = o := by
    intro o ho
    rw [PipelineObject.delayed, List.map_congr_left (hinstance o ho), List.map_id']
  rw [delayed, List.map_congr_left hobject, List.map_id']
  rfl

section Retries

theorem Lacks.of_compatible (h : m.Lacks key s) (hcompatible : t.Compatible s) :
    m.Lacks key t :=
  fun i hi hserves => h i hi (hserves.trans hcompatible)

theorem compiles_of_lacks (ho : m.object? key = some o) (h : m.Lacks key s) :
    m.Compiles o key s := by
  have henter := enter_of_lacks ho h
  cases houtcome : m.compiler.outcome (o.request m.device s) with
  | error fault =>
    simp only [houtcome, ← countFailed_eq] at henter
    have hget : m.get key s = (m.countFailed, none) := by
      rw [get, henter]
      rfl
    have hprepare : m.prepare key s = m.countFailed := by rw [prepare, henter]
    constructor
    · rw [hget]
      rfl
    · rw [hprepare]
      rfl
    · rw [hget, houtcome]
      rfl
    · intro handle hok
      rw [houtcome] at hok
      cases hok
  | ok handle =>
    simp only [houtcome] at henter
    have hget : m.get key s = ((m.addCompiled key s handle).record key s, some handle) := by
      rw [get, henter]
    have hprepare : m.prepare key s = m.addCompiled key s handle := by rw [prepare, henter]
    constructor
    · rw [hget, compiler_record]
      rfl
    · rw [hprepare]
      rfl
    · rw [hget, houtcome]
      rfl
    · intro handle' hok
      obtain rfl : handle = handle' := Except.ok.inj (houtcome.symm.trans hok)
      rw [hget, hprepare, instances_record, instances_addCompiled ho, if_pos rfl]
      exact ⟨rfl, rfl⟩

theorem instances_get (m : PipelineManager) (key k : ShaderKey) (s : PipelineState) :
    (m.get key s).1.instances k = (m.enter .use key s).1.instances k := by
  rw [get]
  rcases m.enter .use key s with ⟨m', _ | handle | _ | _⟩
  · rfl
  · exact instances_record
  · rfl
  · rfl

theorem Lacks.create (h : m.Lacks key s) (shader : ComputeShader) :
    (m.create shader).Lacks key s := by
  rw [Lacks, instances_create]
  exact h

theorem Lacks.enter (h : m.Lacks key s) (purpose : Purpose)
    (hother : ¬ (k = key ∧ t.Compatible s)) : (m.enter purpose k t).1.Lacks key s := by
  have hadded : ∀ i ∈ compiledInstances t (m.enter purpose k t).2, i.state = t := by
    cases (m.enter purpose k t).2 with
    | compiled handle => exact fun i hi => congrArg (·.state) (List.mem_singleton.1 hi)
    | found | failed | noObject => exact fun i hi => absurd hi List.not_mem_nil
  rw [Lacks, instances_enter]
  intro i hi hserves
  rcases List.mem_append.1 hi with hi | hi
  · exact h i hi hserves
  · split at hi
    · next hk => exact hother ⟨hk, hadded i hi ▸ hserves⟩
    · cases hi

theorem Lacks.replay {resolve : StateCacheKey → Option ComputeShader}
    {entries : List StateCacheEntry} (h : m.Lacks key s)
    (hcall : ¬ (Call.replay resolve entries).AsksFor key s) :
    (PipelineManager.replay resolve m entries).1.Lacks key s := by
  induction entries generalizing m with
  | nil => exact h
  | cons e es ih =>
    have hrest : ¬ (Call.replay resolve es).AsksFor key s := by
      rintro ⟨e', he', hasks⟩
      exact hcall ⟨e', List.mem_cons_of_mem e he', hasks⟩
    rw [PipelineManager.replay]
    cases hresolve : resolve e.key with
    | none => exact ih h hrest
    | some shader =>
      have hother : ¬ (shader.key = key ∧ e.state.Compatible s) := by
        rintro ⟨hkey, hserves⟩
        exact hcall ⟨e, List.mem_cons_self, shader, hresolve, hkey, hserves⟩
      exact ih ((h.create shader).enter .prepare hother) hrest

/-- A state stays without a pipeline as long as no pipeline is asked for that would serve it. -/
theorem Lacks.after {call : Call} (h : m.Lacks key s) (hcall : ¬ call.AsksFor key s) :
    (m.after call).Lacks key s := by
  have hother : ∀ {k t}, call.demand? = some (k, t) → ¬ (k = key ∧ t.Compatible s) := by
    rintro k t hdemand ⟨rfl, hserves⟩
    exact hcall (call.asksFor_of_demand? hdemand hserves)
  cases call with
  | create shader => exact h.create shader
  | get k t =>
    rw [Lacks, PipelineManager.after, instances_get]
    exact h.enter .use (hother rfl)
  | prepare k t => exact h.enter .prepare (hother rfl)
  | enter purpose k t => exact h.enter purpose (hother rfl)
  | record k t =>
    rw [Lacks, PipelineManager.after, instances_record]
    exact h
  | setFailing failing => exact h
  | replay resolve entries => exact h.replay hcall

theorem Lacks.run {calls : List Call} (h : m.Lacks key s)
    (hcalls : ∀ call ∈ calls, ¬ call.AsksFor key s) : (m.run calls).Lacks key s := by
  induction calls generalizing m with
  | nil => exact h
  | cons call calls ih =>
    obtain ⟨hcall, hrest⟩ := List.forall_mem_cons.1 hcalls
    exact ih (h.after hcall) hrest

end Retries

/-- A state without a pipeline is refused exactly if the compiler refuses it. What is refused, once
or any number of times, leaves nothing but higher counts of misses, failures and requests. All that
comes later comes as it would without the failures, but for the numbers of later pipelines. A state
that was refused goes to the compiler when it is next asked for, and a state that has a pipeline
gets it whether or not the compiler works. -/
theorem failed_compilations_leave_no_trace (options : PipelineOptions) (device : Device)
    (cache : Option StateCache) (calls : List Call) (key : ShaderKey) (s : PipelineState)
    (o : PipelineObject) (ho : ((new options device cache).run calls).object? key = some o) :
    let m := (new options device cache).run calls
    ((m.get key s).2 = none ↔ (∀ i ∈ o.instances, ¬ i.state.Compatible s) ∧
      ∃ fault, m.compiler.outcome (o.request device s) = .error fault) ∧
    ((m.get key s).2 = none →
      (m.get key s).1 = m.afterFailures 1 ∧ m.prepare key s = m.afterFailures 1) ∧
    (∀ attempts : List Call, (∀ call ∈ attempts, m.Refuses call) →
      m.run attempts = m.afterFailures attempts.length) ∧
    (∀ n later, (m.afterFailures n).run later = (m.run later).delayed m.compiler.requests n ∧
      (m.afterFailures n).answers later =
        (m.answers later).map (·.delayed m.compiler.requests n)) ∧
    (∀ n later t, (m.get key s).2 = none → t.Compatible s →
      (∀ call ∈ later, ¬ call.AsksFor key s) →
      let m' := (m.afterFailures n).run later
      ∃ o', m'.object? key = some o' ∧ m'.Compiles o' key t) ∧
    ∀ failing, (∃ i ∈ o.instances, i.state.Compatible s) →
      ∃ i ∈ o.instances, i.state.Compatible s ∧ (m.setFailing failing).get key s =
        ({ m.setFailing failing with stats := m.stats.countHit }, some i.handle) := by
  have hdevice : ((new options device cache).run calls).device = device :=
    (device_isInvariant device).run calls rfl
  have hnumbered : ((new options device cache).run calls).Numbered :=
    numbered_isInvariant.run calls fun _ hnew => absurd hnew List.not_mem_nil
  generalize (new options device cache).run calls = m at ho hdevice hnumbered ⊢
  intro m
  subst hdevice
  have hlacks : m.Lacks key s ↔ ∀ i ∈ o.instances, ¬ i.state.Compatible s := by
    rw [Lacks, instances_eq ho]
  have hnone := get_eq_none_iff (s := s) ho
  refine ⟨hnone.trans (and_congr_left' hlacks), fun hget => ?_, fun attempts => run_of_refuses,
    fun n later => ?_, fun n later t hget hcompatible hlater => ?_, fun failing hserved => ?_⟩
  · obtain ⟨hmissing, fault, hfault⟩ := hnone.1 hget
    have hrefused : ∀ call : Call, call.demand? = some (key, s) →
        m.after call = m.afterFailures 1 :=
      fun call hdemand => after_of_refuses ⟨key, s, o, fault, hdemand, ho, hmissing, hfault⟩
    exact ⟨hrefused (.get key s) rfl, hrefused (.prepare key s) rfl⟩
  · rw [hnumbered.afterFailures_eq_delayed n]
    exact run_delayed (Nat.le_refl _) later
  · have hmissing : (m.afterFailures n).Lacks key s := (hnone.1 hget).1
    have ho' : (m.afterFailures n).object? key = some o := ho
    obtain ⟨o', hlast, -⟩ :=
      (extends_isInvariant _).run later (Extends.refl (m.afterFailures n)) key o ho'
    exact ⟨o', hlast, compiles_of_lacks hlast ((hmissing.run hlater).of_compatible hcompatible)⟩
  · cases hi : o.instance? s with
    | none =>
      obtain ⟨i, hmem, hserves⟩ := hserved
      exact absurd hserves (PipelineObject.instance?_eq_none_iff.1 hi i hmem)
    | some i =>
      obtain ⟨hmem, hserves⟩ := PipelineObject.mem_of_instance?_eq_some hi
      have ho' : (m.setFailing failing).object? key = some o := ho
      exact ⟨i, hmem, hserves, get_of_instance? ho' hi⟩

/-- A shader is refused three times for one state while it has a pipeline for another, and is then
compiled by the fifth request. -/
theorem refusals_of_tileShader :
    let device : Device := ⟨true, true, 8, 64, 4⟩
    let m := (new .standard device (some .empty)).run
      [.create tileShader, .prepare tileShader.key (boundState 0), .setFailing true]
    let s := PipelineState.zero
    let attempts : List Call :=
      [.get tileShader.key s, .prepare tileShader.key s, .get tileShader.key s]
    let m' := (m.run attempts).run [.setFailing false]
    (m.object? tileShader.key).isSome ∧ (m.get tileShader.key s).2 = none ∧
      m.prepare tileShader.key s = m.afterFailures 1 ∧ m.run attempts = m.afterFailures 3 ∧
      (∃ o', m'.object? tileShader.key = some o' ∧ m'.Compiles o' tileShader.key s) ∧
      (m'.get tileShader.key s).2.map (·.serial) = some 4 := by
  intro device m s attempts m'
  have hsome : (m.object? tileShader.key).isSome := by decide +kernel
  have hget : (m.get tileShader.key s).2 = none := by decide +kernel
  obtain ⟨o, ho⟩ := Option.isSome_iff_exists.1 hsome
  obtain ⟨hnone, honce, hrun, -, hagain, -⟩ := failed_compilations_leave_no_trace .standard device
    (some .empty) _ tileShader.key s o ho
  obtain ⟨hmissing, fault, hfault⟩ := hnone.1 hget
  have hdevice : m.device = device := (device_isInvariant device).run _ rfl
  have hrefused : m.compiler.outcome (o.request m.device s) = .error fault := by
    rw [hdevice]
    exact hfault
  have hlacks : m.Lacks tileShader.key s := by
    rw [Lacks, instances_eq ho]
    exact hmissing
  have hattempts : ∀ call ∈ attempts, m.Refuses call := by
    intro call hcall
    have hdemand : ∀ call ∈ attempts, call.demand? = some (tileShader.key, s) := by
      simp [attempts, Call.demand?]
    exact ⟨tileShader.key, s, o, fault, hdemand call hcall, ho, hlacks, hrefused⟩
  have hafter : m.run attempts = m.afterFailures 3 := hrun attempts hattempts
  have hidle : ∀ call ∈ [Call.setFailing false], ¬ call.AsksFor tileShader.key s := by
    simp [Call.AsksFor, Call.demand?]
  have hcompiles := hagain 3 [.setFailing false] s hget (PipelineState.Compatible.refl s) hidle
  rw [← hafter] at hcompiles
  exact ⟨hsome, hget, (honce hget).2, hafter, hcompiles, by decide +kernel⟩

end PipelineManager

end ShaderKit

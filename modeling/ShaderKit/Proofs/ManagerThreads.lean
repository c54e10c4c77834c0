import Mathlib.Logic.Function.Basic
import ShaderKit.Proofs.PipelineInstances

/-!
# Threads that share a pipeline manager

Any number of threads make calls on one manager, and a schedule says who moves next. Looking a
pipeline up and compiling it is one move, because the object stays locked in between; the record
in the state cache is a later move of the same thread, and the compiler may start or stop failing
between any two moves. A log notes the successful compilations and what the uses return.

Under every schedule an object compiles at most once for each class of compatible states, its
list of pipelines only grows at the end, and uses with compatible states get the same pipeline.
-/

namespace ShaderKit

/-- What a thread is in the middle of: nothing, or a use that has compiled a pipeline and has
still to record it. -/
inductive Activity where
  | idle
  | recording (key : ShaderKey) (s : PipelineState) (handle : PipelineHandle)
  deriving DecidableEq, Repr

inductive Observation (τ : Type) where
  | compiled (key : ShaderKey) (s : PipelineState) (handle : PipelineHandle)
  | returned (thread : τ) (key : ShaderKey) (s : PipelineState) (result : Option PipelineHandle)
  deriving DecidableEq, Repr

/-- A move of a schedule: a thread makes an object, a thread enters a call, a thread finishes
its use, or the compiler starts or stops failing. -/
inductive Move (τ : Type) where
  | create (shader : ComputeShader)
  | call (thread : τ) (purpose : Purpose) (key : ShaderKey) (s : PipelineState)
  | finish (thread : τ)
  | setFailing (failing : Bool)
  deriving DecidableEq, Repr

/-- A manager, what its threads are in the middle of, and the log. -/
structure SharedManager (τ : Type) where
  manager : PipelineManager
  activity : τ → Activity
  log : List (Observation τ)

namespace Observation

variable {τ : Type}

def instanceFor? (key : ShaderKey) : Observation τ → Option PipelineInstance
  | compiled k s h => if k = key then some ⟨s, h⟩ else none
  | returned .. => none

/-- Whether an entry is a compilation for the object of a key and a state of the given class. -/
def compilesFor (key : ShaderKey) (s : PipelineState) : Observation τ → Bool
  | compiled k s' _ => k = key && s'.Compatible s
  | returned .. => false

def serial? : Observation τ → Option Nat
  | compiled _ _ h => some h.serial
  | returned .. => none

/-- What a thread's call enters in the log at once. A use that compiled returns later. -/
def ofCall (thread : τ) (purpose : Purpose) (key : ShaderKey) (s : PipelineState) :
    Entered → List (Observation τ)
  | .compiled h => [compiled key s h]
  | e =>
    match purpose with
    | .use => [returned thread key s e.handle?]
    | .prepare => []

end Observation

namespace Observation

variable {τ : Type} {thread : τ} {purpose : Purpose} {key : ShaderKey} {s : PipelineState}
  {e : Entered}

theorem filterMap_instanceFor?_ofCall (k : ShaderKey) :
    (ofCall thread purpose key s e).filterMap (instanceFor? k) =
      if key = k then PipelineManager.compiledInstances s e else [] := by
  cases e with
  | compiled h => by_cases hk : key = k <;> simp [ofCall, instanceFor?, hk,
      PipelineManager.compiledInstances]
  | _ => cases purpose <;> simp [ofCall, instanceFor?, PipelineManager.compiledInstances]

theorem countP_compilesFor (key : ShaderKey) (s : PipelineState) (log : List (Observation τ)) :
    log.countP (compilesFor key s) =
      (log.filterMap (instanceFor? key)).countP (·.state.Compatible s) := by
  rw [List.countP_filterMap]
  congr 1
  funext entry
  cases entry with
  | compiled k s' h => by_cases hk : k = key <;> simp [compilesFor, instanceFor?, hk]
  | returned => rfl

theorem filterMap_serial?_ofCall :
    (ofCall thread purpose key s e).filterMap serial? =
      (PipelineManager.compiledInstances s e).map (·.handle.serial) := by
  cases e with
  | compiled h => rfl
  | _ => cases purpose <;> rfl

theorem handle?_of_returned_mem_ofCall {thread' : τ} {k : ShaderKey} {s' : PipelineState}
    {h : PipelineHandle} (hmem : returned thread' k s' (some h) ∈ ofCall thread purpose key s e) :
    k = key ∧ s' = s ∧ e.handle? = some h := by
  cases e with
  | compiled => simp [ofCall] at hmem
  | _ =>
    cases purpose with
    | use =>
      simp only [ofCall, List.mem_singleton, returned.injEq] at hmem
      exact ⟨hmem.2.1, hmem.2.2.1, hmem.2.2.2.symm⟩
    | prepare => cases hmem

end Observation

/-- What a thread is in the middle of once its call has left the locked section. -/
def Activity.ofCall (purpose : Purpose) (key : ShaderKey) (s : PipelineState) :
    Entered → Activity
  | .compiled h =>
    match purpose with
    | .use => recording key s h
    | .prepare => idle
  | .found _ | .failed | .noObject => idle

theorem Activity.handle?_of_ofCall_eq {purpose : Purpose} {key k : ShaderKey}
    {s s' : PipelineState} {e : Entered} {h : PipelineHandle}
    (ha : Activity.ofCall purpose key s e = .recording k s' h) :
    k = key ∧ s' = s ∧ e.handle? = some h := by
  cases e with
  | compiled h' =>
    cases purpose with
    | use =>
      simp only [ofCall, recording.injEq] at ha
      exact ⟨ha.1.symm, ha.2.1.symm, congrArg some ha.2.2⟩
    | prepare => cases ha
  | _ => cases ha

namespace SharedManager

variable {τ : Type} [DecidableEq τ]

def start (m : PipelineManager) : SharedManager τ := ⟨m, fun _ => .idle, []⟩

/-- A thread's call: the locked section, in one piece. -/
def enter (c : SharedManager τ) (thread : τ) (purpose : Purpose) (key : ShaderKey)
    (s : PipelineState) : SharedManager τ :=
  let result := c.manager.enter purpose key s
  { manager := result.1
    activity := Function.update c.activity thread (.ofCall purpose key s result.2)
    log := c.log ++ Observation.ofCall thread purpose key s result.2 }

/-- The next move. A thread that is in the middle of a use cannot make another call, and only
such a thread can finish. -/
def step (c : SharedManager τ) : Move τ → SharedManager τ
  | .create shader => { c with manager := c.manager.create shader }
  | .setFailing failing => { c with manager := c.manager.setFailing failing }
  | .call thread purpose key s =>
    match c.activity thread with
    | .idle => c.enter thread purpose key s
    | .recording .. => c
  | .finish thread =>
    match c.activity thread with
    | .idle => c
    | .recording key s h =>
      { manager := c.manager.record key s
        activity := Function.update c.activity thread .idle
        log := c.log ++ [.returned thread key s (some h)] }

def run (c : SharedManager τ) (moves : List (Move τ)) : SharedManager τ := moves.foldl step c

theorem exists_run_step (c : SharedManager τ) (move : Move τ) :
    ∃ calls, (c.step move).manager = c.manager.run calls := by
  cases move with
  | create shader => exact ⟨[.create shader], rfl⟩
  | setFailing failing => exact ⟨[.setFailing failing], rfl⟩
  | call thread purpose key s =>
    cases ha : c.activity thread with
    | idle => exact ⟨[.enter purpose key s], by simp only [step, ha]; rfl⟩
    | recording => exact ⟨[], by simp only [step, ha]; rfl⟩
  | finish thread =>
    cases ha : c.activity thread with
    | idle => exact ⟨[], by simp only [step, ha]; rfl⟩
    | recording key s h => exact ⟨[.record key s], by simp only [step, ha]; rfl⟩

theorem exists_run_run (c : SharedManager τ) (moves : List (Move τ)) :
    ∃ calls, (c.run moves).manager = c.manager.run calls := by
  induction moves generalizing c with
  | nil => exact ⟨[], rfl⟩
  | cons move moves ih =>
    obtain ⟨calls, hcalls⟩ := exists_run_step c move
    obtain ⟨calls', hcalls'⟩ := ih (c.step move)
    refine ⟨calls ++ calls', ?_⟩
    simp only [run, List.foldl_cons] at hcalls' ⊢
    rw [hcalls', hcalls, PipelineManager.run, PipelineManager.run, PipelineManager.run,
      List.foldl_append]

/-- The log is true to the objects: the compilations in it are the pipelines of the objects, in
order and with ascending numbers, and what was or will be returned serves the state in question. -/
structure Sound (c : SharedManager τ) : Prop where
  compiled_eq : ∀ key, c.log.filterMap (Observation.instanceFor? key) = c.manager.instances key
  ascending : (c.log.filterMap Observation.serial?).Pairwise (· < ·)
  serial_lt : ∀ n ∈ c.log.filterMap Observation.serial?, n < c.manager.compiler.requests
  returned : ∀ thread key s h, Observation.returned thread key s (some h) ∈ c.log →
    c.manager.Serves key s h
  recording : ∀ thread key s h, c.activity thread = .recording key s h →
    c.manager.Serves key s h

omit [DecidableEq τ] in
theorem sound_start (options : PipelineOptions) (device : Device) (cache : Option StateCache) :
    (start (.new options device cache) : SharedManager τ).Sound where
  compiled_eq _ := rfl
  ascending := List.Pairwise.nil
  serial_lt _ h := absurd h List.not_mem_nil
  returned _ _ _ _ h := absurd h List.not_mem_nil
  recording _ _ _ _ h := by cases h

omit [DecidableEq τ] in
theorem Sound.of_instances_eq {c : SharedManager τ} (h : c.Sound) {m : PipelineManager}
    (hinstances : ∀ key, m.instances key = c.manager.instances key)
    (hrequests : m.compiler.requests = c.manager.compiler.requests) :
    ({ c with manager := m } : SharedManager τ).Sound where
  compiled_eq key := (h.compiled_eq key).trans (hinstances key).symm
  ascending := h.ascending
  serial_lt n hn := hrequests.symm ▸ h.serial_lt n hn
  returned thread key s handle hmem :=
    (h.returned thread key s handle hmem).mono (hinstances key ▸ List.prefix_rfl)
  recording thread key s handle ha :=
    (h.recording thread key s handle ha).mono (hinstances key ▸ List.prefix_rfl)

theorem Sound.enter {c : SharedManager τ} (h : c.Sound) (thread : τ) (purpose : Purpose)
    (key : ShaderKey) (s : PipelineState) : (c.enter thread purpose key s).Sound := by
  have hinstances := fun k => c.manager.instances_enter purpose key k s
  have hgrows : ∀ k, c.manager.instances k <+: (c.manager.enter purpose key s).1.instances k := by
    intro k
    rw [hinstances k]
    exact List.prefix_append _ _
  have hserves : ∀ handle, (c.manager.enter purpose key s).2.handle? = some handle →
      (c.manager.enter purpose key s).1.Serves key s handle :=
    fun _ => PipelineManager.serves_of_enter
  obtain ⟨hle, hserial⟩ := c.manager.serial_of_enter purpose key s
  simp only [SharedManager.enter]
  generalize c.manager.enter purpose key s = result at hinstances hgrows hserves hle hserial ⊢
  obtain ⟨m, e⟩ := result
  constructor
  · intro k
    rw [List.filterMap_append, h.compiled_eq k, Observation.filterMap_instanceFor?_ofCall,
      hinstances k]
  · rw [List.filterMap_append, Observation.filterMap_serial?_ofCall]
    refine List.pairwise_append.2 ⟨h.ascending, ?_, ?_⟩
    · cases e <;> simp [PipelineManager.compiledInstances]
    · intro n hn n' hn'
      obtain ⟨i, hi, rfl⟩ := List.mem_map.1 hn'
      have hlt := h.serial_lt n hn
      have heq := (hserial i hi).1
      omega
  · intro n hn
    rw [List.filterMap_append, Observation.filterMap_serial?_ofCall] at hn
    rcases List.mem_append.1 hn with hn | hn
    · exact Nat.lt_of_lt_of_le (h.serial_lt n hn) hle
    · obtain ⟨i, hi, rfl⟩ := List.mem_map.1 hn
      obtain ⟨heq, hlt⟩ := hserial i hi
      exact heq ▸ hlt
  · intro thread' k s' handle hmem
    rcases List.mem_append.1 hmem with hmem | hmem
    · exact (h.returned thread' k s' handle hmem).mono (hgrows k)
    · obtain ⟨rfl, rfl, he⟩ := Observation.handle?_of_returned_mem_ofCall hmem
      exact hserves handle he
  · intro thread' k s' handle ha
    by_cases ht : thread' = thread
    · subst ht
      simp only [Function.update_self] at ha
      obtain ⟨rfl, rfl, he⟩ := Activity.handle?_of_ofCall_eq ha
      exact hserves handle he
    · simp only [Function.update_of_ne ht] at ha
      exact (h.recording thread' k s' handle ha).mono (hgrows k)

theorem Sound.finish {c : SharedManager τ} (h : c.Sound) {thread : τ} {key : ShaderKey}
    {s : PipelineState} {handle : PipelineHandle}
    (ha : c.activity thread = .recording key s handle) :
    ({ manager := c.manager.record key s
       activity := Function.update c.activity thread .idle
       log := c.log ++ [.returned thread key s (some handle)] } : SharedManager τ).Sound := by
  have hrecorded := h.of_instances_eq (m := c.manager.record key s)
    (fun _ => PipelineManager.instances_record)
    (congrArg PipelineCompiler.requests PipelineManager.compiler_record)
  have hserials : (c.log ++ [Observation.returned thread key s (some handle)]).filterMap
      Observation.serial? = c.log.filterMap Observation.serial? := by
    rw [List.filterMap_append]
    exact List.append_nil _
  constructor
  · intro k
    rw [List.filterMap_append, hrecorded.compiled_eq k]
    exact List.append_nil _
  · rw [hserials]
    exact hrecorded.ascending
  · intro n hn
    rw [hserials] at hn
    exact hrecorded.serial_lt n hn
  · intro thread' k s' handle' hmem
    rcases List.mem_append.1 hmem with hmem | hmem
    · exact hrecorded.returned thread' k s' handle' hmem
    · obtain ⟨rfl, rfl, rfl, hresult⟩ := Observation.returned.inj (List.mem_singleton.1 hmem)
      obtain rfl := Option.some.inj hresult
      exact hrecorded.recording thread' k s' handle' ha
  · intro thread' k s' handle' ha'
    by_cases ht : thread' = thread
    · subst ht
      simp only [Function.update_self] at ha'
      cases ha'
    · simp only [Function.update_of_ne ht] at ha'
      exact hrecorded.recording thread' k s' handle' ha'

theorem Sound.step {c : SharedManager τ} (h : c.Sound) (move : Move τ) : (c.step move).Sound := by
  cases move with
  | create shader =>
    exact h.of_instances_eq (fun _ => PipelineManager.instances_create shader)
      (congrArg PipelineCompiler.requests (PipelineManager.compiler_create shader))
  | setFailing failing => exact h.of_instances_eq (fun _ => rfl) rfl
  | call thread purpose key s =>
    simp only [SharedManager.step]
    split
    · exact h.enter thread purpose key s
    · exact h
  | finish thread =>
    simp only [SharedManager.step]
    split
    · exact h
    · next key s handle ha => exact h.finish ha

theorem Sound.run {c : SharedManager τ} (h : c.Sound) (moves : List (Move τ)) :
    (c.run moves).Sound := by
  induction moves generalizing c with
  | nil => exact h
  | cons move moves ih => exact ih (h.step move)

/-- Under every schedule of any number of threads: the pipelines of an object serve pairwise
incompatible states; objects keep what they have, and new pipelines are added at the end; an
object compiles at most once for a class of compatible states; no two compiled pipelines have the
same number; and uses with compatible states return the same pipeline. -/
theorem compiles_once_under_every_schedule (options : PipelineOptions) (device : Device)
    (cache : Option StateCache) (moves : List (Move τ)) :
    let c := (start (.new options device cache)).run moves
    (∀ o ∈ c.manager.objects,
      o.instances.Pairwise fun i j => ¬ i.state.Compatible j.state) ∧
    (∀ (later : List (Move τ)), ∀ o ∈ c.manager.objects, ∃ o' ∈ (c.run later).manager.objects,
      o'.shader = o.shader ∧ o'.mapping = o.mapping ∧ o'.layout = o.layout ∧
        o.instances <+: o'.instances) ∧
    (∀ key s, c.log.countP (Observation.compilesFor key s) ≤ 1) ∧
    (c.log.filterMap Observation.serial?).Nodup ∧
    ∀ (thread thread' : τ) (key : ShaderKey) (s s' : PipelineState) (h h' : PipelineHandle),
      Observation.returned thread key s (some h) ∈ c.log →
      Observation.returned thread' key s' (some h') ∈ c.log → s.Compatible s' → h = h' := by
  intro c
  have hsound : c.Sound := (sound_start options device cache).run moves
  obtain ⟨calls, hcalls⟩ := exists_run_run (start (.new options device cache)) moves
  have hconsistent : c.manager.Consistent := by
    rw [hcalls]
    exact PipelineManager.consistent_isInvariant.run calls
      (PipelineManager.consistent_new options device cache)
  have hkeys : c.manager.KeysDistinct := by
    rw [hcalls]
    exact PipelineManager.keysDistinct_isInvariant.run calls List.nodup_nil
  refine ⟨?_, ?_, ?_, ?_, ?_⟩
  · intro o ho
    exact (hconsistent _ o (hkeys.object?_eq_some ho)).exclusive
  · intro later o ho
    obtain ⟨calls', hcalls'⟩ := exists_run_run c later
    have hextends : c.manager.Extends (c.run later).manager := by
      rw [hcalls']
      exact (PipelineManager.extends_isInvariant c.manager).run calls'
        (PipelineManager.Extends.refl c.manager)
    obtain ⟨o', ho', hle⟩ := hextends _ o (hkeys.object?_eq_some ho)
    exact ⟨o', PipelineManager.mem_of_object?_eq_some ho', hle.shader_eq, hle.mapping_eq,
      hle.layout_eq, hle.instances_le⟩
  · intro key s
    rw [Observation.countP_compilesFor, hsound.compiled_eq key]
    exact hconsistent.countP_compatible_le_one key s
  · exact hsound.ascending.imp Nat.ne_of_lt
  · intro thread thread' key s s' h h' hmem hmem' hcompatible
    exact hconsistent.serves_unique (hsound.returned thread key s h hmem)
      (hsound.returned thread' key s' h' hmem') hcompatible

theorem same_pipeline_for_two_threads :
    let device : Device := ⟨true, true, 8, 64, 4⟩
    let o := PipelineObject.ofShader .standard PipelineManager.tileShader
    let s := PipelineManager.boundState 0
    let s' := PipelineManager.boundState 7
    let moves : List (Move Bool) := [.create o.shader, .setFailing true,
      .call true .use o.shader.key s, .setFailing false, .call true .use o.shader.key s,
      .call false .use o.shader.key s', .finish true]
    let log := ((start (.new .standard device none)).run moves).log
    Observation.returned true o.shader.key s (some ⟨1, o.request device s⟩) ∈ log ∧
      Observation.returned false o.shader.key s' (some ⟨1, o.request device s'⟩) ∈ log ∧
      s.Compatible s' ∧
      (⟨1, o.request device s⟩ : PipelineHandle) = ⟨1, o.request device s'⟩ := by
  intro device o s s' moves log
  have hfirst : Observation.returned true o.shader.key s (some ⟨1, o.request device s⟩) ∈ log := by
    decide +kernel
  have hsecond :
      Observation.returned false o.shader.key s' (some ⟨1, o.request device s'⟩) ∈ log := by
    decide +kernel
  have hcompatible : s.Compatible s' := ⟨rfl, rfl⟩
  have hall := compiles_once_under_every_schedule .standard device none moves
  exact ⟨hfirst, hsecond, hcompatible, hall.2.2.2.2 true false o.shader.key s s' _ _ hfirst hsecond
    hcompatible⟩

end SharedManager

end ShaderKit

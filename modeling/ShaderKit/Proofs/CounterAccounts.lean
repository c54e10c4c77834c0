import Mathlib.Algebra.Ring.Nat
import ShaderKit.Proofs.CallStages

/-!
# What the counters say

A call on an object is counted in several places, and while it is under way some of its effects
are counted and others are not. What a call has brought about so far can be read off its stage, and
what it has brought about in the end off its result. At any time the counters, the compiler's
requests and the pipelines of the objects are what the calls that have returned have brought about,
and what those under way have brought about so far.
-/

namespace ShaderKit

/-- What is counted: misses, requests to the compiler, pipelines that it delivered, refusals,
pipelines that were added to an object, hits, and records that were written. -/
inductive CountedEvent where
  | miss
  | request
  | delivery
  | refusal
  | addition
  | hit
  | write
  deriving DecidableEq, Repr

/-- What a call has brought about before it makes its next move. -/
def CallStage.events : CallStage → List CountedEvent
  | look => []
  | ask _ => [.miss]
  | countFailure | countPipeline _ => [.miss, .request]
  | add _ => [.miss, .request, .delivery]
  | write _ | countWrite _ => [.miss, .request, .delivery, .addition]

namespace PipelineCall

/-- What a call has brought about when it returns, depending on whether records are kept. -/
def events (q : PipelineCall) (recording : Bool) : Entered → List CountedEvent
  | .noObject => []
  | .found _ => if q.purpose = .use then [.hit] else []
  | .failed => [.miss, .request, .refusal]
  | .compiled _ =>
    [.miss, .request, .delivery, .addition] ++
      if q.purpose = .use ∧ recording = true then [.write] else []

def eventsSoFar (q : PipelineCall) (recording : Bool) : CallProgress → List CountedEvent
  | .running stage => stage.events
  | .returned result => q.events recording result

end PipelineCall

namespace PipelineManager

variable {m m' : PipelineManager} {key k : ShaderKey} {s : PipelineState}

def instanceCount (m : PipelineManager) : Nat := (m.objects.map (·.instances.length)).sum

/-- How often something has happened, as far as the manager can tell. -/
def tally (m : PipelineManager) : CountedEvent → Nat
  | .miss => m.stats.instanceMisses
  | .request => m.compiler.requests
  | .delivery => m.stats.computePipelines
  | .refusal => m.stats.compileFailures
  | .addition => m.instanceCount
  | .hit => m.stats.instanceHits
  | .write => m.stats.stateCacheWrites

theorem keys_modifyObject {f : PipelineObject → PipelineObject}
    (hf : ∀ o, (f o).shader = o.shader) :
    (m.modifyObject key f).objects.map (·.shader.key) = m.objects.map (·.shader.key) := by
  rw [modifyObject, List.map_map]
  refine List.map_congr_left fun o _ => ?_
  rw [Function.comp_apply]
  split
  · rw [hf]
  · rfl

/-- Of objects with distinct keys, one gains a pipeline. -/
theorem instanceCount_addInstance (hkeys : m.KeysDistinct) (ho : (m.object? key).isSome)
    (handle : PipelineHandle) :
    (m.modifyObject key (·.addInstance s handle)).instanceCount = m.instanceCount + 1 := by
  have hone : (m.objects.map (·.shader.key)).count key = 1 := by
    have hmem : key ∈ m.objects.map (·.shader.key) := isSome_object?_iff.1 ho
    exact List.count_eq_one_of_mem hkeys hmem
  rw [instanceCount, instanceCount, modifyObject, ← hone]
  generalize m.objects = objects
  induction objects with
  | nil => rfl
  | cons o os ih =>
    rw [List.map_cons, List.map_cons, List.map_cons, List.map_cons, List.sum_cons, List.sum_cons,
      ih, List.count_cons]
    by_cases hkey : o.shader.key = key
    · simp [hkey, PipelineObject.addInstance]
      omega
    · simp [hkey]
      omega

theorem tally_create (shader : ComputeShader) (e : CountedEvent) :
    (m.create shader).tally e = m.tally e := by
  rw [create]
  split
  · rfl
  · cases e with
    | addition => simp [tally, instanceCount, PipelineObject.ofShader]
    | _ => rfl

/-- What the moves of others leave as it is: the objects, and whether records are kept. -/
structure Keeps (m m' : PipelineManager) : Prop where
  keysDistinct : m.KeysDistinct → m'.KeysDistinct
  object : ∀ key, (m.object? key).isSome → (m'.object? key).isSome
  recording_eq : m'.recording = m.recording

theorem keeps_of_objects_eq (hobjects : m'.objects = m.objects)
    (hrecording : m'.recording = m.recording) : m.Keeps m' where
  keysDistinct h := by rwa [KeysDistinct, hobjects]
  object key h := by rwa [object?, hobjects]
  recording_eq := hrecording

theorem keeps_create (m : PipelineManager) (shader : ComputeShader) :
    m.Keeps (m.create shader) where
  keysDistinct := keysDistinct_isInvariant.create shader
  object key h := by
    rw [object?_create]
    simp [h]
  recording_eq := by rw [recording, options_create, cache_create, recording]

theorem keeps_modifyObject {f : PipelineObject → PipelineObject}
    (hf : ∀ o, (f o).shader = o.shader) : m.Keeps (m.modifyObject key f) where
  keysDistinct h := by rwa [KeysDistinct, keys_modifyObject hf]
  object k h := by rwa [object?_modifyObject hf, Option.isSome_map]
  recording_eq := rfl

end PipelineManager

/-- What a call relies on at its stage. -/
def CallStage.Fits (m : PipelineManager) (q : PipelineCall) : CallStage → Prop
  | look => True
  | ask _ | countFailure | countPipeline _ | add _ => (m.object? q.key).isSome
  | write _ => q.purpose = .use
  | countWrite _ => q.purpose = .use ∧ m.recording = true

theorem CallStage.Fits.mono {m m' : PipelineManager} {q : PipelineCall} {stage : CallStage}
    (h : stage.Fits m q) (hkeeps : m.Keeps m') : stage.Fits m' q := by
  cases stage with
  | look => trivial
  | write => exact h
  | countWrite => exact ⟨h.1, hkeeps.recording_eq.trans h.2⟩
  | _ => exact hkeeps.object q.key h

namespace PipelineCall

variable {q : PipelineCall} {m : PipelineManager} {stage stage' : CallStage}

theorem keeps_advance (q : PipelineCall) (m : PipelineManager) (stage : CallStage) :
    m.Keeps (q.advance m stage).1 := by
  have hadvance := q.advance_cases m stage
  generalize q.advance m stage = result at hadvance ⊢
  cases hadvance with
  | addForUse | addAhead => exact PipelineManager.keeps_modifyObject fun _ => rfl
  | write hrecording hcache =>
    exact PipelineManager.keeps_of_objects_eq rfl (by simp [PipelineManager.recording, hcache])
  | _ => exact PipelineManager.keeps_of_objects_eq rfl rfl

theorem fits_advance (h : stage.Fits m q) (hrunning : (q.advance m stage).2 = .running stage') :
    stage'.Fits (q.advance m stage).1 q := by
  have hkeeps := q.keeps_advance m stage
  have hadvance := q.advance_cases m stage
  generalize q.advance m stage = result at hadvance hkeeps hrunning ⊢
  cases hadvance with
  | miss ho hi =>
    cases hrunning
    exact hkeeps.object q.key (Option.isSome_iff_exists.2 ⟨_, ho⟩)
  | refuse | deliver | countPipeline =>
    cases hrunning
    exact hkeeps.object q.key h
  | addForUse hpurpose =>
    cases hrunning
    exact hpurpose
  | write hrecording hcache =>
    cases hrunning
    exact ⟨h, hkeeps.recording_eq.trans hrecording⟩
  | _ => cases hrunning

/-- A move is counted as what it brings about. -/
theorem tally_advance (hkeys : m.KeysDistinct) (hfits : stage.Fits m q) (e : CountedEvent) :
    (q.advance m stage).1.tally e + stage.events.count e =
      m.tally e + (q.eventsSoFar m.recording (q.advance m stage).2).count e := by
  have hadvance := q.advance_cases m stage
  generalize q.advance m stage = result at hadvance ⊢
  cases hadvance with
  | noObject ho => rfl
  | found ho hi hstats =>
    subst hstats
    by_cases huse : q.purpose = .use <;> cases e <;>
      simp [PipelineManager.tally, PipelineStats.countHit, CallStage.events, eventsSoFar, events,
        huse, PipelineManager.instanceCount]
  | @addForUse h hpurpose =>
    have hcount := PipelineManager.instanceCount_addInstance (s := q.state) hkeys hfits h
    cases e with
    | addition => exact hcount
    | _ => rfl
  | @addAhead h hpurpose =>
    have hcount := PipelineManager.instanceCount_addInstance (s := q.state) hkeys hfits h
    rw [eventsSoFar, events, hpurpose]
    cases e with
    | addition => exact hcount
    | _ => rfl
  | leave hrecording =>
    rw [eventsSoFar, events, hrecording]
    cases e <;> simp [CallStage.events]
  | countWrite =>
    have huse : q.purpose = .use ∧ m.recording = true := hfits
    rw [eventsSoFar, events, if_pos huse]
    cases e <;> rfl
  | _ => cases e <;> rfl

end PipelineCall

def CallMove.thread? {τ : Type} : CallMove τ → Option τ
  | call thread _ | advance thread => some thread
  | create _ | setFailing _ => none

def eventsUnderWay : Option (PipelineCall × CallStage) → List CountedEvent
  | none => []
  | some (_, stage) => stage.events

/-- What calls that have returned have brought about. -/
def eventsOfReturned (recording : Bool) (returned : List (PipelineCall × Entered)) :
    List CountedEvent := returned.flatMap fun r => r.1.events recording r.2

/-- What a call has brought about is booked either with the calls under way or with those that
have returned. -/
theorem PipelineCall.count_eventsSoFar (q : PipelineCall) (recording : Bool)
    (progress : CallProgress) (e : CountedEvent) :
    (q.eventsSoFar recording progress).count e =
      (eventsOfReturned recording (progress.result?.map (q, ·)).toList).count e +
        (eventsUnderWay (progress.stage?.map (q, ·))).count e := by
  cases progress <;> simp [eventsSoFar, eventsOfReturned, eventsUnderWay]

namespace OverlappingCalls

variable {τ : Type} [DecidableEq τ] {c : OverlappingCalls τ} {threads : Finset τ}
  {recording : Bool}

/-- All that is counted is what the calls of the threads have brought about. -/
structure Accounted (threads : Finset τ) (recording : Bool) (c : OverlappingCalls τ) : Prop where
  recording_eq : c.manager.recording = recording
  keysDistinct : c.manager.KeysDistinct
  fits : ∀ thread q stage, c.calls thread = some (q, stage) → stage.Fits c.manager q
  tally_eq : ∀ e, c.manager.tally e = (eventsOfReturned recording c.returned).count e +
    ∑ thread ∈ threads, (eventsUnderWay (c.calls thread)).count e

def threadsOf (moves : List (CallMove τ)) : Finset τ :=
  (moves.filterMap CallMove.thread?).toFinset

theorem mem_threadsOf {moves : List (CallMove τ)} {move : CallMove τ} (hmove : move ∈ moves)
    {thread : τ} (h : move.thread? = some thread) : thread ∈ threadsOf moves :=
  List.mem_toFinset.2 (List.mem_filterMap.2 ⟨move, hmove, h⟩)

namespace Accounted

omit [DecidableEq τ] in
theorem start (options : PipelineOptions) (device : Device) (cache : Option StateCache) :
    Accounted threads (options.stateCache && cache.isSome)
      (start (.new options device cache)) where
  recording_eq := rfl
  keysDistinct := List.nodup_nil
  fits _ _ _ h := by cases h
  tally_eq e := by
    rw [Finset.sum_eq_zero fun thread _ => by rw [OverlappingCalls.start]; rfl]
    cases e <;> rfl

omit [DecidableEq τ] in
theorem of_keeps (h : Accounted threads recording c) {m : PipelineManager}
    (hkeeps : c.manager.Keeps m) (htally : ∀ e, m.tally e = c.manager.tally e) :
    Accounted threads recording { c with manager := m } where
  recording_eq := hkeeps.recording_eq.trans h.recording_eq
  keysDistinct := hkeeps.keysDistinct h.keysDistinct
  fits thread q stage hcall := (h.fits thread q stage hcall).mono hkeeps
  tally_eq e := by
    rw [htally e, h.tally_eq e]

theorem call (h : Accounted threads recording c) {thread : τ} (hmem : thread ∈ threads)
    (hidle : c.calls thread = none) (q : PipelineCall) :
    Accounted threads recording (c.call thread q) where
  recording_eq := h.recording_eq
  keysDistinct := h.keysDistinct
  fits thread' q' stage hcall := by
    by_cases ht : thread' = thread
    · subst ht
      cases (Function.update_self ..).symm.trans hcall
      trivial
    · exact h.fits thread' q' stage ((Function.update_of_ne ht ..).symm.trans hcall)
  tally_eq e := by
    have hsum := sum_update_add hmem c.calls (some (q, .look)) fun call =>
      (eventsUnderWay call).count e
    rw [hidle] at hsum
    exact (h.tally_eq e).trans (congrArg _ hsum.symm)

theorem advance (h : Accounted threads recording c) {thread : τ} (hmem : thread ∈ threads)
    {q : PipelineCall} {stage : CallStage} (hcall : c.calls thread = some (q, stage)) :
    Accounted threads recording (c.advance thread q stage) where
  recording_eq := (q.keeps_advance c.manager stage).recording_eq.trans h.recording_eq
  keysDistinct := (q.keeps_advance c.manager stage).keysDistinct h.keysDistinct
  fits thread' q' stage' hcall' := by
    have hfits := h.fits thread q stage hcall
    simp only [OverlappingCalls.advance] at hcall' ⊢
    by_cases ht : thread' = thread
    · rw [ht, Function.update_self] at hcall'
      cases hresult : (q.advance c.manager stage).2 with
      | running next =>
        rw [hresult] at hcall'
        cases hcall'
        exact PipelineCall.fits_advance hfits hresult
      | returned result => simp [hresult] at hcall'
    · rw [Function.update_of_ne ht] at hcall'
      exact (h.fits thread' q' stage' hcall').mono (q.keeps_advance c.manager stage)
  tally_eq e := by
    have hfits := h.fits thread q stage hcall
    have htally := h.tally_eq e
    have hmoved := PipelineCall.tally_advance h.keysDistinct hfits e
    have hsum := sum_update_add hmem c.calls ((q.advance c.manager stage).2.stage?.map (q, ·))
      fun call => (eventsUnderWay call).count e
    rw [h.recording_eq, PipelineCall.count_eventsSoFar] at hmoved
    rw [hcall, eventsUnderWay] at hsum
    simp only [OverlappingCalls.advance]
    rw [eventsOfReturned, List.flatMap_append, List.count_append, ← eventsOfReturned,
      ← eventsOfReturned]
    omega

theorem step (h : Accounted threads recording c) {move : CallMove τ}
    (hmem : ∀ thread, move.thread? = some thread → thread ∈ threads) :
    Accounted threads recording (c.step move) := by
  cases move with
  | create shader =>
    exact h.of_keeps (c.manager.keeps_create shader) (PipelineManager.tally_create shader)
  | setFailing failing =>
    refine h.of_keeps (PipelineManager.keeps_of_objects_eq rfl rfl) fun e => ?_
    cases e <;> rfl
  | call thread q =>
    simp only [OverlappingCalls.step]
    split
    · next hidle hfree => exact h.call (hmem thread rfl) hidle q
    · exact h
  | advance thread =>
    simp only [OverlappingCalls.step]
    split
    · exact h
    · next hcall => exact h.advance (hmem thread rfl) hcall

theorem run (h : Accounted threads recording c) {moves : List (CallMove τ)}
    (hmem : ∀ move ∈ moves, ∀ thread, move.thread? = some thread → thread ∈ threads) :
    Accounted threads recording (c.run moves) := by
  induction moves generalizing c with
  | nil => exact h
  | cons move moves ih =>
    exact ih (h.step (hmem move List.mem_cons_self)) fun m hm => hmem m (List.mem_cons_of_mem _ hm)

end Accounted

theorem tally_run_of_idle (options : PipelineOptions) (device : Device)
    (cache : Option StateCache) {moves : List (CallMove τ)}
    (hidle : ∀ thread, ((start (.new options device cache)).run moves).calls thread = none)
    (e : CountedEvent) :
    ((start (.new options device cache)).run moves).manager.tally e =
      (eventsOfReturned (options.stateCache && cache.isSome)
        ((start (.new options device cache)).run moves).returned).count e := by
  have hmem : ∀ move ∈ moves, ∀ thread, move.thread? = some thread → thread ∈ threadsOf moves :=
    fun _ hmove _ h => mem_threadsOf hmove h
  have haccounted := (Accounted.start options device cache).run hmem
  rw [haccounted.tally_eq e, Finset.sum_eq_zero fun thread _ => by rw [hidle thread]; rfl,
    Nat.add_zero]

end OverlappingCalls

namespace Entered

def isFound : Entered → Bool
  | found _ => true
  | compiled _ | failed | noObject => false

def isCompiled : Entered → Bool
  | compiled _ => true
  | found _ | failed | noObject => false

end Entered

section Balances

variable {recording : Bool} {returned : List (PipelineCall × Entered)}

/-- What calls can bring about. -/
def outcomes : List (List CountedEvent) :=
  [[], [.hit], [.miss, .request, .refusal], [.miss, .request, .delivery, .addition],
    [.miss, .request, .delivery, .addition, .write]]

theorem PipelineCall.events_mem_outcomes (q : PipelineCall) (recording : Bool)
    (result : Entered) : q.events recording result ∈ outcomes := by
  cases result with
  | noObject => exact List.mem_cons_self
  | found =>
    rw [events]
    split <;> decide
  | failed =>
    rw [events]
    decide
  | compiled =>
    rw [events]
    split <;> decide

theorem count_eventsOfReturned (recording : Bool) (returned : List (PipelineCall × Entered))
    (e : CountedEvent) : (eventsOfReturned recording returned).count e =
      (returned.map fun r => (r.1.events recording r.2).count e).sum :=
  List.count_flatMap

theorem count_eq_of_outcomes {e e' : CountedEvent}
    (h : ∀ events ∈ outcomes, events.count e = events.count e') :
    (eventsOfReturned recording returned).count e =
      (eventsOfReturned recording returned).count e' := by
  rw [count_eventsOfReturned, count_eventsOfReturned]
  exact congrArg List.sum (List.map_congr_left fun r _ => h _ (r.1.events_mem_outcomes _ _))

theorem count_le_of_outcomes {e e' : CountedEvent}
    (h : ∀ events ∈ outcomes, events.count e ≤ events.count e') :
    (eventsOfReturned recording returned).count e ≤
      (eventsOfReturned recording returned).count e' := by
  rw [count_eventsOfReturned, count_eventsOfReturned]
  exact List.sum_le_sum fun r _ => h _ (r.1.events_mem_outcomes _ _)

theorem count_request : (eventsOfReturned recording returned).count .request =
    (eventsOfReturned recording returned).count .delivery +
      (eventsOfReturned recording returned).count .refusal := by
  have hall : ∀ events ∈ outcomes,
      events.count .request = events.count .delivery + events.count .refusal := by decide
  rw [count_eventsOfReturned, count_eventsOfReturned, count_eventsOfReturned, ← List.sum_map_add]
  exact congrArg List.sum (List.map_congr_left fun r _ => hall _ (r.1.events_mem_outcomes _ _))

/-- Nothing is counted twice for one call. -/
theorem count_le_length (e : CountedEvent) :
    (eventsOfReturned recording returned).count e ≤ returned.length := by
  have hall : ∀ events ∈ outcomes, events.Nodup := by decide
  induction returned with
  | nil => exact Nat.le_refl 0
  | cons r returned ih =>
    have hone := List.nodup_iff_count_le_one.1 (hall _ (r.1.events_mem_outcomes recording r.2)) e
    rw [eventsOfReturned, List.flatMap_cons, List.count_append, ← eventsOfReturned,
      List.length_cons]
    omega

theorem count_eq_countP {e : CountedEvent} {p : PipelineCall × Entered → Bool}
    (h : ∀ r, (r.1.events recording r.2).count e = if p r then 1 else 0) :
    (eventsOfReturned recording returned).count e = returned.countP p := by
  induction returned with
  | nil => rfl
  | cons r returned ih =>
    rw [eventsOfReturned, List.flatMap_cons, List.count_append, ← eventsOfReturned, ih, h,
      List.countP_cons, Nat.add_comm]

theorem count_hit : (eventsOfReturned recording returned).count .hit =
    returned.countP fun r => r.1.purpose = .use && r.2.isFound := by
  refine count_eq_countP fun r => ?_
  obtain ⟨⟨purpose, key, s⟩, result⟩ := r
  cases result <;> cases purpose <;> cases recording <;> rfl

theorem count_write : (eventsOfReturned recording returned).count .write =
    if recording then returned.countP fun r => r.1.purpose = .use && r.2.isCompiled else 0 := by
  have hcount : (eventsOfReturned recording returned).count .write =
      returned.countP fun r => r.1.purpose = .use && r.2.isCompiled && recording := by
    refine count_eq_countP fun r => ?_
    obtain ⟨⟨purpose, key, s⟩, result⟩ := r
    cases result <;> cases purpose <;> cases recording <;> rfl
  rw [hcount]
  cases recording <;> simp

end Balances

namespace OverlappingReplays

variable {τ ρ ω : Type} [DecidableEq τ] [DecidableEq ρ] [DecidableEq ω]

/-- Under every schedule of threads and workers of replays, whenever no call is under way: there
was a request to the compiler for each miss, and a pipeline or a failure for each request; the
pipelines are those of the objects; the hits are the uses that found a pipeline, and the records
those that compiled one, if records are kept. No counter is greater than the number of calls. -/
theorem counters_account_for_calls (options : PipelineOptions) (device : Device)
    (cache : Option StateCache) (pools : ρ → ReplayPool ω)
    (schedule : List (ReplayMove τ ρ ω)) :
    let c := ((⟨.start (.new options device cache), pools⟩ : OverlappingReplays τ ρ ω).run
      schedule).shared
    let stats := c.manager.stats
    (∀ thread, c.calls thread = none) →
      stats.instanceMisses = c.manager.compiler.requests ∧
      c.manager.compiler.requests = stats.computePipelines + stats.compileFailures ∧
      stats.computePipelines = (c.manager.objects.map (·.instances.length)).sum ∧
      stats.instanceHits = c.returned.countP (fun r => r.1.purpose = .use && r.2.isFound) ∧
      stats.stateCacheWrites = (if options.stateCache && cache.isSome then
        c.returned.countP fun r => r.1.purpose = .use && r.2.isCompiled else 0) ∧
      stats.stateCacheWrites ≤ stats.computePipelines ∧
      ∀ n ∈ stats.fields.map Prod.snd, n ≤ c.returned.length := by
  intro c stats hidle
  obtain ⟨moves, hmoves⟩ := exists_moves_run
    (⟨.start (.new options device cache), pools⟩ : OverlappingReplays τ ρ ω) schedule
  have htally : ∀ e, c.manager.tally e =
      (eventsOfReturned (options.stateCache && cache.isSome) c.returned).count e := by
    intro e
    simp only [c, hmoves] at hidle ⊢
    exact OverlappingCalls.tally_run_of_idle options device cache hidle e
  have hmisses : c.manager.tally .miss = c.manager.tally .request := by
    rw [htally, htally]
    exact count_eq_of_outcomes (by decide)
  have hrequests : c.manager.tally .request =
      c.manager.tally .delivery + c.manager.tally .refusal := by
    rw [htally, htally, htally, count_request]
  have hpipelines : c.manager.tally .delivery = c.manager.tally .addition := by
    rw [htally, htally]
    exact count_eq_of_outcomes (by decide)
  have hwrites : c.manager.tally .write ≤ c.manager.tally .delivery := by
    rw [htally, htally]
    exact count_le_of_outcomes (by decide)
  have hbound : ∀ e, c.manager.tally e ≤ c.returned.length := by
    intro e
    rw [htally]
    exact count_le_length e
  refine ⟨hmisses, hrequests, hpipelines, (htally .hit).trans count_hit,
    (htally .write).trans count_write, hwrites, ?_⟩
  intro n hn
  simp only [PipelineStats.fields, List.map_cons, List.map_nil, List.mem_cons, List.not_mem_nil,
    or_false] at hn
  rcases hn with rfl | rfl | rfl | rfl | rfl
  · exact hbound .delivery
  · exact hbound .refusal
  · exact hbound .hit
  · exact hbound .miss
  · exact hbound .write

/-- One thread's call fails. While another one compiles, the worker of a replay waits for the
object; both it and the first thread find the pipeline before the record of it is written. -/
def overlappingSchedule : List (ReplayMove Bool Unit Unit) :=
  let use (thread : Bool) (pushConstant : UInt32) : ReplayMove Bool Unit Unit :=
    .thread (.call thread ⟨.use, PipelineManager.tileShader.key,
      PipelineManager.boundState pushConstant⟩)
  let advance (thread : Bool) : ReplayMove Bool Unit Unit := .thread (.advance thread)
  [.thread (.create PipelineManager.tileShader), .thread (.setFailing true),
    use true 0, advance true, advance true, advance true, .thread (.setFailing false),
    use false 7, advance false, .worker () (), .worker () (), .worker () (), .worker () (),
    advance false, advance false, advance false, .worker () (), .worker () (), .worker () (),
    use true 0, advance true, advance false, advance false]

def overlapping : OverlappingCalls (Bool ⊕ Unit × Unit) :=
  ((⟨.start (.new .standard ⟨true, true, 8, 64, 4⟩ (some .empty)),
    fun _ => SharedManager.tileReplay⟩ : OverlappingReplays Bool Unit Unit).run
      overlappingSchedule).shared

theorem counters_of_overlapping :
    overlapping.returned.length = 4 ∧ overlapping.manager.stats.instanceHits = 1 ∧
      overlapping.manager.stats.stateCacheWrites = 1 := by
  have hidle : ∀ thread, overlapping.calls thread = none := by
    rintro (thread | ⟨⟨⟩, ⟨⟩⟩)
    · cases thread <;> decide +kernel
    · decide +kernel
  have hfound : overlapping.returned.countP
      (fun r => r.1.purpose = .use && r.2.isFound) = 1 := by decide +kernel
  have hcompiled : overlapping.returned.countP
      (fun r => r.1.purpose = .use && r.2.isCompiled) = 1 := by decide +kernel
  refine ⟨by decide +kernel, ?_⟩
  rw [overlapping] at hidle hfound hcompiled ⊢
  obtain ⟨-, -, -, hhits, hwrites, -, -⟩ := counters_account_for_calls .standard
    ⟨true, true, 8, 64, 4⟩ (some .empty) (fun _ => SharedManager.tileReplay) overlappingSchedule
    hidle
  exact ⟨hhits.trans hfound, hwrites.trans ((if_pos rfl).trans hcompiled)⟩

end OverlappingReplays

end ShaderKit

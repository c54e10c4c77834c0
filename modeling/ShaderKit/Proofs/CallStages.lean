import ShaderKit.Proofs.CacheRecords

/-!
# Calls that overlap

A call on an object has several effects: it counts a miss, asks the compiler, counts the outcome,
adds the pipeline and, after it has given the object's lock back, writes a record and counts that.
Calls on other objects, and the end of a use whose object is free again, fall between any two of
them. Here every move of a schedule is one such effect, and a thread that wants a lock which
another one holds does not move.

A call that nobody interrupts does what the calls of `PipelineManager` do in one piece.
-/

namespace ShaderKit

structure PipelineCall where
  purpose : Purpose
  key : ShaderKey
  state : PipelineState
  deriving DecidableEq, Repr

/-- What a call does next: it looks a pipeline up, asks the compiler for one, counts that there is
none or that there is one, adds it, writes a record of it, and counts the record. -/
inductive CallStage where
  | look
  | ask (request : CompileRequest)
  | countFailure
  | countPipeline (handle : PipelineHandle)
  | add (handle : PipelineHandle)
  | write (handle : PipelineHandle)
  | countWrite (handle : PipelineHandle)
  deriving DecidableEq, Repr

/-- Whether a call holds the lock of its object. -/
def CallStage.locked : CallStage → Bool
  | look | ask _ | countFailure | countPipeline _ | add _ => true
  | write _ | countWrite _ => false

inductive CallProgress where
  | running (stage : CallStage)
  | returned (result : Entered)
  deriving DecidableEq, Repr

namespace CallProgress

def stage? : CallProgress → Option CallStage
  | running stage => some stage
  | returned _ => none

def result? : CallProgress → Option Entered
  | running _ => none
  | returned result => some result

def locked : CallProgress → Bool
  | running stage => stage.locked
  | returned _ => false

@[simp] theorem stage?_running (stage : CallStage) : (running stage).stage? = some stage := rfl

@[simp] theorem stage?_returned (result : Entered) : (returned result).stage? = none := rfl

@[simp] theorem result?_running (stage : CallStage) : (running stage).result? = none := rfl

@[simp] theorem result?_returned (result : Entered) :
    (returned result).result? = some result := rfl

@[simp] theorem locked_running (stage : CallStage) : (running stage).locked = stage.locked := rfl

@[simp] theorem locked_returned (result : Entered) : (returned result).locked = false := rfl

end CallProgress

namespace PipelineManager

def recording (m : PipelineManager) : Bool := m.options.stateCache && m.cache.isSome

end PipelineManager

namespace PipelineCall

/-- A call's next move. -/
def advance (q : PipelineCall) (m : PipelineManager) : CallStage → PipelineManager × CallProgress
  | .look =>
    match m.object? q.key with
    | none => (m, .returned .noObject)
    | some o =>
      match o.instance? q.state with
      | some i =>
        (match q.purpose with
          | .use => { m with stats := m.stats.countHit }
          | .prepare => m, .returned (.found i.handle))
      | none =>
        ({ m with stats := m.stats.countMiss }, .running (.ask (o.request m.device q.state)))
  | .ask request =>
    ({ m with compiler := m.compiler.advance },
      match m.compiler.outcome request with
      | .ok h => .running (.countPipeline h)
      | .error _ => .running .countFailure)
  | .countFailure => ({ m with stats := m.stats.countFailure }, .returned .failed)
  | .countPipeline h => ({ m with stats := m.stats.countPipeline }, .running (.add h))
  | .add h =>
    (m.modifyObject q.key (·.addInstance q.state h),
      match q.purpose with
      | .use => .running (.write h)
      | .prepare => .returned (.compiled h))
  | .write h =>
    match m.options.stateCache, m.cache with
    | true, some cache =>
      ({ m with cache := some (cache.add (.ofPipeline q.key q.state)) }, .running (.countWrite h))
    | _, _ => (m, .returned (.compiled h))
  | .countWrite h => ({ m with stats := m.stats.countWrite }, .returned (.compiled h))

inductive Advance (q : PipelineCall) (m : PipelineManager) :
    CallStage → PipelineManager × CallProgress → Prop
  | noObject (ho : m.object? q.key = none) : Advance q m .look (m, .returned .noObject)
  | found {o : PipelineObject} {i : PipelineInstance} {stats : PipelineStats}
      (ho : m.object? q.key = some o) (hi : o.instance? q.state = some i)
      (hstats : stats = if q.purpose = .use then m.stats.countHit else m.stats) :
      Advance q m .look ({ m with stats := stats }, .returned (.found i.handle))
  | miss {o : PipelineObject} (ho : m.object? q.key = some o) (hi : o.instance? q.state = none) :
      Advance q m .look ({ m with stats := m.stats.countMiss },
        .running (.ask (o.request m.device q.state)))
  | refuse {request : CompileRequest} (hfails : m.compiler.failing = true) :
      Advance q m (.ask request) ({ m with compiler := m.compiler.advance },
        .running .countFailure)
  | deliver {request : CompileRequest} (hworks : m.compiler.failing = false) :
      Advance q m (.ask request) ({ m with compiler := m.compiler.advance },
        .running (.countPipeline ⟨m.compiler.requests, request⟩))
  | countFailure :
      Advance q m .countFailure ({ m with stats := m.stats.countFailure }, .returned .failed)
  | countPipeline {h : PipelineHandle} :
      Advance q m (.countPipeline h) ({ m with stats := m.stats.countPipeline },
        .running (.add h))
  | addForUse {h : PipelineHandle} (hpurpose : q.purpose = .use) :
      Advance q m (.add h) (m.modifyObject q.key (·.addInstance q.state h), .running (.write h))
  | addAhead {h : PipelineHandle} (hpurpose : q.purpose = .prepare) :
      Advance q m (.add h) (m.modifyObject q.key (·.addInstance q.state h),
        .returned (.compiled h))
  | write {h : PipelineHandle} {cache : StateCache} (hrecording : m.recording = true)
      (hcache : m.cache = some cache) :
      Advance q m (.write h) ({ m with cache := some (cache.add (.ofPipeline q.key q.state)) },
        .running (.countWrite h))
  | leave {h : PipelineHandle} (hrecording : m.recording = false) :
      Advance q m (.write h) (m, .returned (.compiled h))
  | countWrite {h : PipelineHandle} :
      Advance q m (.countWrite h) ({ m with stats := m.stats.countWrite },
        .returned (.compiled h))

theorem advance_cases (q : PipelineCall) (m : PipelineManager) (stage : CallStage) :
    Advance q m stage (q.advance m stage) := by
  cases stage with
  | look =>
    rw [advance]
    cases ho : m.object? q.key with
    | none => exact .noObject ho
    | some o =>
      dsimp only
      cases hi : o.instance? q.state with
      | none => exact .miss ho hi
      | some i => cases hpurpose : q.purpose <;> exact .found ho hi (by rw [hpurpose]; rfl)
  | ask request =>
    rw [advance, PipelineCompiler.outcome]
    cases hfailing : m.compiler.failing with
    | true => exact .refuse hfailing
    | false => exact .deliver hfailing
  | countFailure => exact .countFailure
  | countPipeline h => exact .countPipeline
  | add h =>
    rw [advance]
    cases hpurpose : q.purpose with
    | use => exact .addForUse hpurpose
    | prepare => exact .addAhead hpurpose
  | write h =>
    rw [advance]
    cases hon : m.options.stateCache with
    | false => exact .leave (by rw [PipelineManager.recording, hon, Bool.false_and])
    | true =>
      cases hcache : m.cache with
      | none =>
        exact .leave (by rw [PipelineManager.recording, hcache, Option.isSome_none, Bool.and_false])
      | some cache =>
        exact .write (by rw [PipelineManager.recording, hon, hcache]; rfl) hcache
  | countWrite h => exact .countWrite

/-- A lock that was given back is not taken again. -/
theorem locked_advance {q : PipelineCall} {m : PipelineManager} {stage : CallStage}
    (h : stage.locked = false) : (q.advance m stage).2.locked = false := by
  have hadvance := q.advance_cases m stage
  generalize q.advance m stage = result at hadvance ⊢
  cases hadvance <;> first | rfl | cases h

/-- A number of moves of a call without a break. -/
def proceed (q : PipelineCall) : Nat → PipelineManager × CallProgress →
    PipelineManager × CallProgress
  | n + 1, (m, .running stage) => q.proceed n (q.advance m stage)
  | _, result => result

/-- The manager after a call in one piece. -/
def onManager (q : PipelineCall) (m : PipelineManager) : PipelineManager :=
  match q.purpose with
  | .use => (m.get q.key q.state).1
  | .prepare => m.prepare q.key q.state

/-- Six moves are enough for a call, and without a break they do what the call does in one
piece. -/
theorem proceed_look (q : PipelineCall) (m : PipelineManager) :
    q.proceed 6 (m, .running .look) =
      (q.onManager m, .returned (m.enter q.purpose q.key q.state).2) := by
  obtain ⟨purpose, key, s⟩ := q
  rw [proceed, advance]
  cases ho : m.object? key with
  | none => cases purpose <;> simp [proceed, onManager, PipelineManager.get,
      PipelineManager.prepare, PipelineManager.enter, ho]
  | some o =>
    cases hi : o.instance? s with
    | some i => cases purpose <;> simp [proceed, onManager, PipelineManager.get,
        PipelineManager.prepare, PipelineManager.enter, ho, hi]
    | none =>
      have hkey := PipelineManager.key_of_object?_eq_some ho
      cases hfailing : m.compiler.failing with
      | true => cases purpose <;> simp [proceed, advance, onManager, PipelineManager.get,
          PipelineManager.prepare, PipelineManager.enter, PipelineManager.compileMissing,
          PipelineCompiler.outcome, ho, hi, hfailing]
      | false =>
        cases purpose with
        | prepare => simp [proceed, advance, onManager, PipelineManager.prepare,
            PipelineManager.enter, PipelineManager.compileMissing, PipelineCompiler.outcome,
            ho, hi, hfailing, hkey]
        | use =>
          cases hon : m.options.stateCache <;> cases hcache : m.cache <;>
            simp [proceed, advance, onManager, PipelineManager.get, PipelineManager.record,
              PipelineManager.enter, PipelineManager.compileMissing, PipelineCompiler.outcome,
              PipelineManager.modifyObject, StateCacheEntry.ofPipeline, ho, hi, hfailing, hkey,
              hon, hcache]

end PipelineCall

/-- A move of a schedule: an object is made, the compiler starts or stops failing, a thread makes
a call, or a thread's call moves on. -/
inductive CallMove (τ : Type) where
  | create (shader : ComputeShader)
  | setFailing (failing : Bool)
  | call (thread : τ) (q : PipelineCall)
  | advance (thread : τ)
  deriving DecidableEq, Repr

/-- A manager, the calls that its threads are in the middle of, the holders of the objects' locks,
and the calls that have returned. -/
structure OverlappingCalls (τ : Type) where
  manager : PipelineManager
  calls : τ → Option (PipelineCall × CallStage)
  lock : ShaderKey → Option τ
  returned : List (PipelineCall × Entered)

namespace OverlappingCalls

variable {τ : Type} [DecidableEq τ]

def start (m : PipelineManager) : OverlappingCalls τ := ⟨m, fun _ => none, fun _ => none, []⟩

/-- A thread's call moves on. It gives the lock back with the move that it needs it for last. -/
def advance (c : OverlappingCalls τ) (thread : τ) (q : PipelineCall) (stage : CallStage) :
    OverlappingCalls τ :=
  let result := q.advance c.manager stage
  { manager := result.1
    calls := Function.update c.calls thread (result.2.stage?.map (q, ·))
    lock :=
      if stage.locked && !result.2.locked then Function.update c.lock q.key none else c.lock
    returned := c.returned ++ (result.2.result?.map (q, ·)).toList }

/-- A thread's call begins: the thread takes the lock of the object. -/
def call (c : OverlappingCalls τ) (thread : τ) (q : PipelineCall) : OverlappingCalls τ :=
  { c with
    calls := Function.update c.calls thread (some (q, .look))
    lock := Function.update c.lock q.key (some thread) }

/-- The next move. A call cannot begin before the lock of its object is free. -/
def step (c : OverlappingCalls τ) : CallMove τ → OverlappingCalls τ
  | .create shader => { c with manager := c.manager.create shader }
  | .setFailing failing => { c with manager := c.manager.setFailing failing }
  | .call thread q =>
    match c.calls thread, c.lock q.key with
    | none, none => c.call thread q
    | _, _ => c
  | .advance thread =>
    match c.calls thread with
    | none => c
    | some (q, stage) => c.advance thread q stage

def run (c : OverlappingCalls τ) (moves : List (CallMove τ)) : OverlappingCalls τ :=
  moves.foldl step c

section Alone

/-- A thread in the middle of a call while no other thread moves. -/
def inCall (c : OverlappingCalls τ) (thread : τ) (q : PipelineCall)
    (result : PipelineManager × CallProgress) : OverlappingCalls τ where
  manager := result.1
  calls := Function.update c.calls thread (result.2.stage?.map (q, ·))
  lock := Function.update c.lock q.key (if result.2.locked then some thread else none)
  returned := c.returned ++ (result.2.result?.map (q, ·)).toList

theorem run_advance_inCall (c : OverlappingCalls τ) (thread : τ) (q : PipelineCall) (n : Nat)
    (result : PipelineManager × CallProgress) :
    (c.inCall thread q result).run (List.replicate n (.advance thread)) =
      c.inCall thread q (q.proceed n result) := by
  induction n generalizing result with
  | zero => rfl
  | succ n ih =>
    obtain ⟨m, progress⟩ := result
    cases progress with
    | returned e =>
      have hstep : (c.inCall thread q (m, .returned e)).step (.advance thread) =
          c.inCall thread q (m, .returned e) := by
        simp [step, inCall]
      rw [List.replicate_succ, run, List.foldl_cons, hstep, ← run, ih]
      cases n <;> rfl
    | running stage =>
      have hstep : (c.inCall thread q (m, .running stage)).step (.advance thread) =
          c.inCall thread q (q.advance m stage) := by
        have hcalls : (c.inCall thread q (m, .running stage)).calls thread = some (q, stage) :=
          Function.update_self ..
        simp only [step, hcalls]
        cases hlocked : stage.locked with
        | true => cases hnext : (q.advance m stage).2.locked <;>
            simp [advance, inCall, hlocked, hnext]
        | false => simp [advance, inCall, hlocked, PipelineCall.locked_advance hlocked]
      rw [List.replicate_succ, run, List.foldl_cons, hstep, ← run, ih, PipelineCall.proceed]

/-- A call that nobody interrupts is the call on the manager in one piece. -/
theorem run_uninterrupted {c : OverlappingCalls τ} {thread : τ} {q : PipelineCall}
    (hidle : c.calls thread = none) (hfree : c.lock q.key = none) :
    c.run (.call thread q :: List.replicate 6 (.advance thread)) =
      { c with
        manager := q.onManager c.manager
        returned := c.returned ++ [(q, (c.manager.enter q.purpose q.key q.state).2)] } := by
  have hcall : c.step (.call thread q) = c.inCall thread q (c.manager, .running .look) := by
    simp [step, call, inCall, hidle, hfree, CallStage.locked]
  rw [run, List.foldl_cons, hcall, ← run, run_advance_inCall, PipelineCall.proceed_look]
  have hcalls : Function.update c.calls thread none = c.calls := by
    rw [← hidle, Function.update_eq_self]
  have hlock : Function.update c.lock q.key none = c.lock := by
    rw [← hfree, Function.update_eq_self]
  simp [inCall, hcalls, hlock]

end Alone

section Locks

/-- A call that needs the lock of its object holds it. -/
def Locked (c : OverlappingCalls τ) : Prop :=
  ∀ thread q stage, c.calls thread = some (q, stage) → stage.locked = true →
    c.lock q.key = some thread

omit [DecidableEq τ] in
theorem Locked.exclusive {c : OverlappingCalls τ} (h : c.Locked) {thread thread' : τ}
    {q q' : PipelineCall} {stage stage' : CallStage} (hcall : c.calls thread = some (q, stage))
    (hcall' : c.calls thread' = some (q', stage')) (hstage : stage.locked = true)
    (hstage' : stage'.locked = true) (hkey : q.key = q'.key) : thread = thread' := by
  have hlock := h thread q stage hcall hstage
  rw [hkey, h thread' q' stage' hcall' hstage'] at hlock
  exact (Option.some.inj hlock).symm

theorem Locked.call {c : OverlappingCalls τ} (h : c.Locked) {thread : τ} {q : PipelineCall}
    (hfree : c.lock q.key = none) : (c.call thread q).Locked := by
  intro thread' q' stage' hcall hstage
  simp only [OverlappingCalls.call] at hcall ⊢
  by_cases ht : thread' = thread
  · subst ht
    rw [Function.update_self, Option.some.injEq, Prod.mk.injEq] at hcall
    rw [← hcall.1, Function.update_self]
  · rw [Function.update_of_ne ht] at hcall
    have hlock := h thread' q' stage' hcall hstage
    have hkey : q'.key ≠ q.key := by
      rintro hkey
      rw [hkey, hfree] at hlock
      cases hlock
    rw [Function.update_of_ne hkey, hlock]

theorem Locked.advance {c : OverlappingCalls τ} (h : c.Locked) {thread : τ} {q : PipelineCall}
    {stage : CallStage} (hcall : c.calls thread = some (q, stage)) :
    (c.advance thread q stage).Locked := by
  intro thread' q' stage' hcall' hstage'
  simp only [OverlappingCalls.advance] at hcall' ⊢
  by_cases ht : thread' = thread
  · subst ht
    rw [Function.update_self] at hcall'
    obtain ⟨next, hnext, hpair⟩ := Option.map_eq_some_iff.1 hcall'
    obtain ⟨rfl, rfl⟩ := Prod.mk.inj hpair
    have hkept : (q.advance c.manager stage).2.locked = true := by
      cases hresult : (q.advance c.manager stage).2 with
      | running next' =>
        rw [hresult, CallProgress.stage?_running, Option.some.injEq] at hnext
        rw [CallProgress.locked_running, hnext, hstage']
      | returned e => simp [hresult] at hnext
    have hstage : stage.locked = true := by
      by_contra hgiven
      simp [PipelineCall.locked_advance (Bool.eq_false_iff.2 hgiven)] at hkept
    rw [hkept, Bool.not_true, Bool.and_false, if_neg Bool.false_ne_true]
    exact h thread' q stage hcall hstage
  · rw [Function.update_of_ne ht] at hcall'
    have hlock := h thread' q' stage' hcall' hstage'
    split
    · next hgiven =>
      have hkey : q'.key ≠ q.key := fun hkey =>
        ht (h.exclusive hcall' hcall hstage' (Bool.and_eq_true_iff.1 hgiven).1 hkey)
      rw [Function.update_of_ne hkey, hlock]
    · exact hlock

theorem Locked.step {c : OverlappingCalls τ} (h : c.Locked) (move : CallMove τ) :
    (c.step move).Locked := by
  cases move with
  | create shader => exact h
  | setFailing failing => exact h
  | call thread q =>
    simp only [OverlappingCalls.step]
    split
    · next hfree => exact h.call hfree
    · exact h
  | advance thread =>
    simp only [OverlappingCalls.step]
    split
    · exact h
    · next hcall => exact h.advance hcall

theorem Locked.run {c : OverlappingCalls τ} (h : c.Locked) (moves : List (CallMove τ)) :
    (c.run moves).Locked := by
  induction moves generalizing c with
  | nil => exact h
  | cons move moves ih => exact ih (h.step move)

/-- Under every schedule, no two calls are in the locked section of one object. -/
theorem exclusive_run (m : PipelineManager) (moves : List (CallMove τ)) {thread thread' : τ}
    {q q' : PipelineCall} {stage stage' : CallStage}
    (hcall : ((start m).run moves).calls thread = some (q, stage))
    (hcall' : ((start m).run moves).calls thread' = some (q', stage'))
    (hstage : stage.locked = true) (hstage' : stage'.locked = true) (hkey : q.key = q'.key) :
    thread = thread' := by
  have hstart : (start m : OverlappingCalls τ).Locked := fun _ _ _ h => by cases h
  exact (hstart.run moves).exclusive hcall hcall' hstage hstage' hkey

end Locks

end OverlappingCalls

def CallMove.map {τ σ : Type} (f : τ → σ) : CallMove τ → CallMove σ
  | create shader => .create shader
  | setFailing failing => .setFailing failing
  | call thread q => .call (f thread) q
  | advance thread => .advance (f thread)

inductive ReplayMove (τ ρ ω : Type) where
  | thread (move : CallMove τ)
  | worker (replay : ρ) (worker : ω)
  deriving DecidableEq, Repr

/-- Replays on a manager that other threads call at the same time. The workers are threads of their
own. -/
structure OverlappingReplays (τ ρ ω : Type) where
  shared : OverlappingCalls (τ ⊕ ρ × ω)
  pools : ρ → ReplayPool ω

namespace OverlappingReplays

variable {τ ρ ω : Type} [DecidableEq τ] [DecidableEq ρ] [DecidableEq ω]

/-- A worker's next move. To prepare a pipeline takes a call, and the entry is handled when that
has returned. -/
def turn (c : OverlappingReplays τ ρ ω) (r : ρ) (w : ω) : OverlappingReplays τ ρ ω :=
  let result := (c.pools r).turn w
  let moved := Function.update c.pools r result.2
  match result.1 with
  | none => { c with pools := moved }
  | some (.create shader) => ⟨c.shared.step (.create shader), moved⟩
  | some (.prepare key s) =>
    match c.shared.calls (.inr (r, w)) with
    | none => { c with shared := c.shared.step (.call (.inr (r, w)) ⟨.prepare, key, s⟩) }
    | some _ =>
      let shared := c.shared.step (.advance (.inr (r, w)))
      ⟨shared, if (shared.calls (.inr (r, w))).isSome then c.pools else moved⟩

def step (c : OverlappingReplays τ ρ ω) : ReplayMove τ ρ ω → OverlappingReplays τ ρ ω
  | .thread move => { c with shared := c.shared.step (move.map .inl) }
  | .worker r w => c.turn r w

def run (c : OverlappingReplays τ ρ ω) (schedule : List (ReplayMove τ ρ ω)) :
    OverlappingReplays τ ρ ω := schedule.foldl step c

theorem exists_moves_step (c : OverlappingReplays τ ρ ω) (move : ReplayMove τ ρ ω) :
    ∃ moves, (c.step move).shared = c.shared.run moves := by
  cases move with
  | thread move => exact ⟨[move.map .inl], rfl⟩
  | worker r w =>
    rw [step, turn]
    cases ((c.pools r).turn w).1 with
    | none => exact ⟨[], rfl⟩
    | some action =>
      cases action with
      | create shader => exact ⟨[.create shader], rfl⟩
      | prepare key s =>
        cases c.shared.calls (.inr (r, w)) with
        | none => exact ⟨[.call (.inr (r, w)) ⟨.prepare, key, s⟩], rfl⟩
        | some call => exact ⟨[.advance (.inr (r, w))], rfl⟩

/-- Workers of replays do nothing to a manager that threads could not do. -/
theorem exists_moves_run (c : OverlappingReplays τ ρ ω) (schedule : List (ReplayMove τ ρ ω)) :
    ∃ moves, (c.run schedule).shared = c.shared.run moves := by
  induction schedule generalizing c with
  | nil => exact ⟨[], rfl⟩
  | cons move schedule ih =>
    obtain ⟨moves, hmoves⟩ := exists_moves_step c move
    obtain ⟨rest, hrest⟩ := ih (c.step move)
    refine ⟨moves ++ rest, ?_⟩
    rw [run, List.foldl_cons, ← run, hrest, hmoves, OverlappingCalls.run, OverlappingCalls.run,
      OverlappingCalls.run, List.foldl_append]

end OverlappingReplays

end ShaderKit

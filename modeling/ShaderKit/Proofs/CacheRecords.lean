import ShaderKit.Proofs.ReplayPools

/-!
# What the state cache holds

A use that compiles a pipeline owes the state cache a record until its thread finishes, and other
threads may move in between. Over a whole run the records are the compilations of uses, in the
order in which the threads finish; nothing else is recorded, and what is compiled ahead is not.

The cache tells entries apart by the whole state, push constants included, while pipelines are
told apart by the compatible part of it. As a use compiles only where no pipeline serves its
state, the records of a run are finer than either: under one key no two are compatible.
-/

namespace ShaderKit

def StateCacheEntry.ofPipeline (key : ShaderKey) (s : PipelineState) : StateCacheEntry :=
  ⟨⟨some key⟩, s⟩

def StateCacheEntry.tile (s : PipelineState) : StateCacheEntry :=
  .ofPipeline PipelineManager.tileShader.key s

def StateCacheEntry.stateFor? (key : ShaderKey) (e : StateCacheEntry) : Option PipelineState :=
  if e.key = ⟨some key⟩ then some e.state else none

/-- Entries for the same shaders are not compatible. -/
def StateCacheEntry.Apart (a b : StateCacheEntry) : Prop :=
  a.key = b.key → ¬ a.state.Compatible b.state

namespace StateCacheEntry

variable {a b e : StateCacheEntry} {key k : ShaderKey} {s : PipelineState}

theorem stateFor?_eq_some_iff : e.stateFor? key = some s ↔ e.key = ⟨some key⟩ ∧ e.state = s := by
  simp [stateFor?]

theorem stateFor?_ofPipeline :
    (ofPipeline key s).stateFor? k = if key = k then some s else none := by
  by_cases hk : key = k <;> simp [ofPipeline, stateFor?, hk]

theorem Apart.symm (h : a.Apart b) : b.Apart a := fun hkey hc => h hkey.symm hc.symm

theorem Apart.ne (h : a.Apart b) : a ≠ b := by
  rintro rfl
  exact h rfl (PipelineState.Compatible.refl _)

/-- Entries whose states under each key are pairwise incompatible are apart. -/
theorem pairwise_apart {es : List StateCacheEntry} (hkeys : ∀ e ∈ es, ∃ key, e.key = ⟨some key⟩)
    (hstates : ∀ key, (es.filterMap (stateFor? key)).Pairwise fun s t => ¬ s.Compatible t) :
    es.Pairwise Apart := by
  induction es with
  | nil => exact List.Pairwise.nil
  | cons e es ih =>
    obtain ⟨key, hkey⟩ := hkeys e List.mem_cons_self
    refine List.pairwise_cons.2 ⟨fun e' he' hsame => ?_, ih
      (fun e' he' => hkeys e' (List.mem_cons_of_mem e he')) fun k => ?_⟩
    · have hhead := hstates key
      rw [List.filterMap_cons_some (b := e.state) (by simp [stateFor?, hkey])] at hhead
      refine (List.pairwise_cons.1 hhead).1 e'.state (List.mem_filterMap.2 ⟨e', he', ?_⟩)
      simp [stateFor?, ← hsame, hkey]
    · exact (hstates k).sublist ((List.sublist_cons_self e es).filterMap _)

end StateCacheEntry

theorem StateCache.addAll_append (c : StateCache) (es ds : List StateCacheEntry) :
    c.addAll (es ++ ds) = (c.addAll es).addAll ds := List.foldl_append

/-- Entries that are apart are all kept. -/
theorem StateCache.entries_addAll_empty {es : List StateCacheEntry}
    (h : es.Pairwise StateCacheEntry.Apart) : (empty.addAll es).entries = es := by
  suffices hall : ∀ c : StateCache, (∀ d ∈ c.entries, ∀ e ∈ es, d ≠ e) →
      (c.addAll es).entries = c.entries ++ es from
    hall empty fun d hd => absurd hd List.not_mem_nil
  induction es with
  | nil => exact fun c _ => (List.append_nil _).symm
  | cons e es ih =>
    obtain ⟨hhead, htail⟩ := List.pairwise_cons.1 h
    intro c hc
    have hadd : (c.add e).entries = c.entries ++ [e] := by
      rw [add, if_neg fun he => hc e he e List.mem_cons_self rfl]
    have hrest := ih htail (c.add e) ?_
    · rw [addAll, List.foldl_cons, ← addAll, hrest, hadd, List.append_assoc, List.singleton_append]
    · intro d hd e' he'
      rw [hadd] at hd
      rcases List.mem_append.1 hd with hd | hd
      · exact hc d hd e' (List.mem_cons_of_mem e he')
      · obtain rfl := List.mem_singleton.1 hd
        exact (hhead e' he').ne

/-- The record that a thread owes. -/
def Activity.owed : Activity → Multiset StateCacheEntry
  | idle => 0
  | recording key s _ => {.ofPipeline key s}

def Move.thread? {τ : Type} : Move τ → Option τ
  | call thread _ _ _ | finish thread => some thread
  | create _ | setFailing _ => none

namespace SharedManager

variable {τ : Type} [DecidableEq τ] {c : SharedManager τ}

/-- The record of a use that compiles a pipeline with this move. -/
def compiledUse (c : SharedManager τ) : Move τ → List StateCacheEntry
  | .call thread .use key s =>
    match c.activity thread, (c.manager.enter .use key s).2 with
    | .idle, .compiled _ => [.ofPipeline key s]
    | _, _ => []
  | .call _ .prepare _ _ | .create _ | .finish _ | .setFailing _ => []

/-- What is written to the state cache with this move, if it is in use. -/
def written (c : SharedManager τ) : Move τ → List StateCacheEntry
  | .finish thread =>
    match c.activity thread with
    | .recording key s _ => [.ofPipeline key s]
    | .idle => []
  | .call .. | .create _ | .setFailing _ => []

def trace {α : Type} (f : SharedManager τ → Move τ → List α) :
    SharedManager τ → List (Move τ) → List α
  | _, [] => []
  | c, move :: moves => f c move ++ trace f (c.step move) moves

theorem run_cons (c : SharedManager τ) (move : Move τ) (moves : List (Move τ)) :
    c.run (move :: moves) = (c.step move).run moves := rfl

section Records

variable {cache : StateCache}

theorem options_step (c : SharedManager τ) (move : Move τ) :
    (c.step move).manager.options = c.manager.options := by
  cases move with
  | create shader => exact PipelineManager.options_create shader
  | setFailing failing => rfl
  | call thread purpose key s => cases ha : c.activity thread <;> simp [step, ha, enter]
  | finish thread => cases ha : c.activity thread <;> simp [step, ha]

theorem record_step (hon : c.manager.options.stateCache = true)
    (hcache : c.manager.cache = some cache) (move : Move τ) :
    (c.step move).manager.cache = some (cache.addAll (c.written move)) ∧
      (c.step move).manager.stats.stateCacheWrites =
        c.manager.stats.stateCacheWrites + (c.written move).length := by
  cases move with
  | create shader => simp [step, written, StateCache.addAll, hcache]
  | setFailing failing =>
    simp [step, written, StateCache.addAll, PipelineManager.setFailing, hcache]
  | call thread purpose key s =>
    cases ha : c.activity thread <;> simp [step, ha, enter, written, StateCache.addAll, hcache]
  | finish thread =>
    cases ha : c.activity thread with
    | idle => simp [step, ha, written, StateCache.addAll, hcache]
    | recording key s h =>
      simp [step, ha, written, StateCache.addAll, PipelineManager.record_of_used hon hcache,
        PipelineStats.countWrite, StateCacheEntry.ofPipeline]

theorem record_run (hon : c.manager.options.stateCache = true)
    (hcache : c.manager.cache = some cache) (moves : List (Move τ)) :
    (c.run moves).manager.cache = some (cache.addAll (c.trace written moves)) ∧
      (c.run moves).manager.stats.stateCacheWrites =
        c.manager.stats.stateCacheWrites + (c.trace written moves).length := by
  induction moves generalizing c cache with
  | nil => exact ⟨hcache, rfl⟩
  | cons move moves ih =>
    obtain ⟨hcache', hwrites'⟩ := record_step hon hcache move
    obtain ⟨hrest, hcount⟩ := ih (by rw [options_step, hon]) hcache'
    rw [run_cons, trace, StateCache.addAll_append, List.length_append, ← Nat.add_assoc, ← hwrites']
    exact ⟨hrest, hcount⟩

theorem keep_step (hoff : c.manager.options.stateCache = false) (move : Move τ) :
    (c.step move).manager.cache = c.manager.cache ∧
      (c.step move).manager.stats.stateCacheWrites = c.manager.stats.stateCacheWrites := by
  cases move with
  | create shader => simp [step]
  | setFailing failing => exact ⟨rfl, rfl⟩
  | call thread purpose key s => cases ha : c.activity thread <;> simp [step, ha, enter]
  | finish thread =>
    cases ha : c.activity thread <;> simp [step, ha, PipelineManager.record_of_unused hoff]

theorem keep_run (hoff : c.manager.options.stateCache = false) (moves : List (Move τ)) :
    (c.run moves).manager.cache = c.manager.cache ∧
      (c.run moves).manager.stats.stateCacheWrites = c.manager.stats.stateCacheWrites := by
  induction moves generalizing c with
  | nil => exact ⟨rfl, rfl⟩
  | cons move moves ih =>
    obtain ⟨hcache, hwrites⟩ := keep_step hoff move
    obtain ⟨hcache', hwrites'⟩ := ih (c := c.step move) (by rw [options_step, hoff])
    exact ⟨hcache'.trans hcache, hwrites'.trans hwrites⟩

end Records

section Balance

def owed (c : SharedManager τ) (threads : Finset τ) : Multiset StateCacheEntry :=
  ∑ thread ∈ threads, (c.activity thread).owed

omit [DecidableEq τ] in
theorem owed_of_idle (h : ∀ thread, c.activity thread = .idle) (threads : Finset τ) :
    c.owed threads = 0 :=
  Finset.sum_eq_zero fun thread _ => by rw [h thread, Activity.owed]

omit [DecidableEq τ] in
theorem compiledUse_of_idle {thread : τ} {purpose : Purpose} {key : ShaderKey}
    {s : PipelineState} (ha : c.activity thread = .idle) :
    (c.compiledUse (.call thread purpose key s) : Multiset StateCacheEntry) =
      (Activity.ofCall purpose key s (c.manager.enter purpose key s).2).owed := by
  cases purpose with
  | prepare =>
    cases he : (c.manager.enter .prepare key s).2 <;>
      simp [compiledUse, Activity.ofCall, Activity.owed]
  | use =>
    cases he : (c.manager.enter .use key s).2 <;>
      simp [compiledUse, ha, he, Activity.ofCall, Activity.owed]

/-- A move takes on a record for what it compiles for a use, and pays what it writes. -/
theorem balance_step {threads : Finset τ} {move : Move τ}
    (hmem : ∀ thread, move.thread? = some thread → thread ∈ threads) :
    (c.compiledUse move : Multiset StateCacheEntry) + c.owed threads =
      c.written move + (c.step move).owed threads := by
  cases move with
  | create shader => rfl
  | setFailing failing => rfl
  | call thread purpose key s =>
    cases ha : c.activity thread with
    | recording key' s' h =>
      have hnone : c.compiledUse (.call thread purpose key s) = [] := by
        cases purpose <;> simp [compiledUse, ha]
      simp [hnone, step, ha, written]
    | idle =>
      have hsum := sum_update_add (hmem thread rfl) c.activity
        (Activity.ofCall purpose key s (c.manager.enter purpose key s).2) Activity.owed
      rw [ha, Activity.owed, add_zero] at hsum
      rw [compiledUse_of_idle ha, owed, owed, add_comm, ← hsum]
      simp [step, ha, enter, written]
  | finish thread =>
    cases ha : c.activity thread with
    | idle => simp [compiledUse, step, ha, written]
    | recording key s h =>
      have hsum := sum_update_add (hmem thread rfl) c.activity .idle Activity.owed
      rw [ha, Activity.owed, Activity.owed, add_zero] at hsum
      simp only [compiledUse, written, step, ha, owed, Multiset.coe_nil, zero_add, ← hsum,
        Multiset.coe_singleton]
      exact add_comm _ _

theorem balance_run {threads : Finset τ} {moves : List (Move τ)}
    (hmem : ∀ move ∈ moves, ∀ thread, move.thread? = some thread → thread ∈ threads) :
    (c.trace compiledUse moves : Multiset StateCacheEntry) + c.owed threads =
      c.trace written moves + (c.run moves).owed threads := by
  induction moves generalizing c with
  | nil => rfl
  | cons move moves ih =>
    have hstep := balance_step (c := c) (hmem move List.mem_cons_self)
    have hrest := ih (c := c.step move) fun m hm => hmem m (List.mem_cons_of_mem move hm)
    rw [trace, trace, run_cons, ← Multiset.coe_add, ← Multiset.coe_add]
    calc ((c.compiledUse move : Multiset StateCacheEntry) +
          (c.step move).trace compiledUse moves) + c.owed threads
        = (c.step move).trace compiledUse moves +
          ((c.compiledUse move : Multiset StateCacheEntry) + c.owed threads) := by ac_rfl
      _ = c.written move + (((c.step move).trace compiledUse moves : Multiset StateCacheEntry) +
          (c.step move).owed threads) := by rw [hstep]; ac_rfl
      _ = _ := by rw [hrest, add_assoc]

def threadsOf (moves : List (Move τ)) : Finset τ := (moves.filterMap Move.thread?).toFinset

theorem mem_threadsOf {moves : List (Move τ)} {move : Move τ} (hmove : move ∈ moves) {thread : τ}
    (h : move.thread? = some thread) : thread ∈ threadsOf moves :=
  List.mem_toFinset.2 (List.mem_filterMap.2 ⟨move, hmove, h⟩)

theorem balance_run_start {m : PipelineManager} (moves : List (Move τ)) :
    ((start m).trace compiledUse moves : Multiset StateCacheEntry) =
      (start m).trace written moves + ((start m).run moves).owed (threadsOf moves) := by
  have hmem : ∀ move ∈ moves, ∀ thread, move.thread? = some thread → thread ∈ threadsOf moves :=
    fun _ hmove _ h => mem_threadsOf hmove h
  have hbalance := balance_run (c := start m) hmem
  rw [owed_of_idle fun _ => rfl, add_zero] at hbalance
  exact hbalance

end Balance

section Apart

/-- What is compiled with a move for a use of a key is among the pipelines that the move adds. -/
theorem instances_step (c : SharedManager τ) (move : Move τ) (key : ShaderKey) :
    ∃ new, (c.step move).manager.instances key = c.manager.instances key ++ new ∧
      ((c.compiledUse move).filterMap (StateCacheEntry.stateFor? key)).Sublist
        (new.map (·.state)) := by
  cases move with
  | create shader => exact ⟨[], by simp [step], List.Sublist.refl _⟩
  | setFailing failing => exact ⟨[], by simp [step, PipelineManager.setFailing,
      PipelineManager.instances, PipelineManager.object?], List.Sublist.refl _⟩
  | finish thread =>
    refine ⟨[], ?_, List.Sublist.refl _⟩
    cases ha : c.activity thread <;> simp [step, ha]
  | call thread purpose k s =>
    cases ha : c.activity thread with
    | recording key' s' h =>
      refine ⟨[], by simp [step, ha], ?_⟩
      cases purpose <;> simp [compiledUse, ha]
    | idle =>
      refine ⟨_, by simp only [step, ha]; exact c.manager.instances_enter purpose k key s, ?_⟩
      cases purpose with
      | prepare => exact List.nil_sublist _
      | use =>
        cases he : (c.manager.enter .use k s).2 with
        | compiled h =>
          have huse : c.compiledUse (.call thread .use k s) = [.ofPipeline k s] := by
            simp only [compiledUse, ha, he]
          rw [huse]
          by_cases hk : k = key <;>
            simp [hk, StateCacheEntry.stateFor?_ofPipeline, PipelineManager.compiledInstances]
        | _ => simp [compiledUse, ha, he]

theorem instances_run (c : SharedManager τ) (moves : List (Move τ)) (key : ShaderKey) :
    ∃ new, (c.run moves).manager.instances key = c.manager.instances key ++ new ∧
      ((c.trace compiledUse moves).filterMap (StateCacheEntry.stateFor? key)).Sublist
        (new.map (·.state)) := by
  induction moves generalizing c with
  | nil => exact ⟨[], (List.append_nil _).symm, List.Sublist.refl _⟩
  | cons move moves ih =>
    obtain ⟨new, hnew, hsub⟩ := instances_step c move key
    obtain ⟨new', hnew', hsub'⟩ := ih (c.step move)
    refine ⟨new ++ new', by rw [run_cons, hnew', hnew, List.append_assoc], ?_⟩
    rw [trace, List.filterMap_append, List.map_append]
    exact hsub.append hsub'

theorem mem_trace {α : Type} {P : α → Prop} {f : SharedManager τ → Move τ → List α}
    (hf : ∀ c move, ∀ a ∈ f c move, P a) (c : SharedManager τ) (moves : List (Move τ)) :
    ∀ a ∈ c.trace f moves, P a := by
  induction moves generalizing c with
  | nil => exact fun a ha => absurd ha List.not_mem_nil
  | cons move moves ih =>
    intro a ha
    rcases List.mem_append.1 ha with ha | ha
    · exact hf c move a ha
    · exact ih _ a ha

omit [DecidableEq τ] in
theorem key_of_mem_compiledUse (c : SharedManager τ) (move : Move τ) :
    ∀ e ∈ c.compiledUse move, ∃ key, e.key = ⟨some key⟩ := by
  intro e he
  cases move with
  | call thread purpose key s =>
    cases purpose with
    | prepare => exact absurd he List.not_mem_nil
    | use =>
      simp only [compiledUse] at he
      split at he
      · exact ⟨key, by rw [List.mem_singleton.1 he]; rfl⟩
      · exact absurd he List.not_mem_nil
  | _ => exact absurd he List.not_mem_nil

variable (options : PipelineOptions) (device : Device) (cache : Option StateCache)
  (moves : List (Move τ))

theorem apart_compiledUse :
    ((start (.new options device cache)).trace compiledUse moves).Pairwise
      StateCacheEntry.Apart := by
  obtain ⟨calls, hcalls⟩ := exists_run_run (start (.new options device cache)) moves
  have hconsistent : ((start (.new options device cache)).run moves).manager.Consistent := by
    rw [hcalls]
    exact PipelineManager.consistent_isInvariant.run calls
      (PipelineManager.consistent_new options device cache)
  refine StateCacheEntry.pairwise_apart (mem_trace key_of_mem_compiledUse _ moves) fun key => ?_
  obtain ⟨new, hnew, hsub⟩ := instances_run (start (.new options device cache)) moves key
  have hexclusive := hconsistent.exclusive_instances key
  rw [hnew] at hexclusive
  exact ((List.pairwise_map).2 (List.pairwise_append.1 hexclusive).2.1).sublist hsub

/-- What is written was compiled by uses, so that it is apart as well. -/
theorem apart_written :
    ((start (.new options device cache)).trace written moves).Pairwise StateCacheEntry.Apart := by
  have hbalance := balance_run_start (m := .new options device cache) moves
  have hle := Multiset.le_iff_exists_add.2 ⟨_, hbalance⟩
  obtain ⟨es, hperm, hsub⟩ := Multiset.coe_le.1 hle
  exact ((apart_compiledUse options device cache moves).sublist hsub).perm hperm
    fun h => h.symm

theorem cache_run_of_empty (hon : options.stateCache = true) :
    ((start (.new options device (some .empty))).run moves).manager.cache =
      some ⟨(start (.new options device (some .empty))).trace written moves⟩ := by
  have hrecord := (record_run (c := start (.new options device (some .empty))) hon rfl moves).1
  have hentries := StateCache.entries_addAll_empty
    (apart_written options device (some .empty) moves)
  exact hrecord.trans (congrArg (some ∘ StateCache.mk) hentries)

end Apart

end SharedManager

def WorkerAction.move {τ : Type} (thread : τ) : WorkerAction → Move τ
  | create shader => .create shader
  | prepare key s => .call thread .prepare key s

def Move.map {τ σ : Type} (f : τ → σ) : Move τ → Move σ
  | create shader => .create shader
  | call thread purpose key s => .call (f thread) purpose key s
  | finish thread => .finish (f thread)
  | setFailing failing => .setFailing failing

inductive JointMove (τ ρ ω : Type) where
  | thread (move : Move τ)
  | worker (replay : ρ) (worker : ω)
  deriving DecidableEq, Repr

namespace JointMove

variable {τ ρ ω : Type} [DecidableEq ρ] [DecidableEq ω]

/-- The moves on the manager. The workers are threads of their own. -/
def moves (pools : ρ → ReplayPool ω) : List (JointMove τ ρ ω) → List (Move (τ ⊕ ρ × ω))
  | [] => []
  | thread move :: rest => move.map .inl :: moves pools rest
  | worker r w :: rest =>
    ((pools r).turn w).1.toList.map (·.move (.inr (r, w))) ++
      moves (Function.update pools r ((pools r).turn w).2) rest

end JointMove

namespace SharedManager

variable {τ ρ ω : Type} [DecidableEq τ] [DecidableEq ρ] [DecidableEq ω]

theorem step_action {c : SharedManager τ} {thread : τ} (ha : c.activity thread = .idle)
    (action : WorkerAction) :
    (c.step (action.move thread)).manager = c.manager.perform action ∧
      (c.step (action.move thread)).activity = c.activity := by
  cases action with
  | create shader => exact ⟨rfl, rfl⟩
  | prepare key s =>
    simp only [WorkerAction.move, step, ha]
    refine ⟨rfl, ?_⟩
    have hidle : Activity.ofCall .prepare key s (c.manager.enter .prepare key s).2 = .idle := by
      cases (c.manager.enter .prepare key s).2 <;> rfl
    rw [enter, hidle, ← ha]
    exact Function.update_eq_self thread c.activity

/-- A replay does to a manager that threads share what it does to a manager alone. -/
theorem manager_run_replay {c : SharedManager (τ ⊕ ρ × ω)} {r : ρ}
    (ha : ∀ w, c.activity (.inr (r, w)) = .idle) (pools : ρ → ReplayPool ω)
    (schedule : List ω) :
    (c.run (JointMove.moves pools (schedule.map (.worker r)))).manager =
      (PooledReplay.run ⟨c.manager, pools r⟩ schedule).manager := by
  induction schedule generalizing c pools with
  | nil => rfl
  | cons w schedule ih =>
    rw [List.map_cons, JointMove.moves, run, List.foldl_append, ← run, ← run]
    cases haction : ((pools r).turn w).1 with
    | none =>
      have hrest := ih ha (Function.update pools r ((pools r).turn w).2)
      rw [Function.update_self] at hrest
      simp only [PooledReplay.run, List.foldl_cons, PooledReplay.turn, haction] at hrest ⊢
      exact hrest
    | some action =>
      obtain ⟨hmanager, hactivity⟩ := step_action (ha w) action
      have hrest := ih (c := c.step (action.move (.inr (r, w)))) (by rw [hactivity]; exact ha)
        (Function.update pools r ((pools r).turn w).2)
      rw [Function.update_self, hmanager] at hrest
      simp only [PooledReplay.run, List.foldl_cons, PooledReplay.turn, haction] at hrest ⊢
      exact hrest

/-- Under every schedule of threads and workers of replays, the cache holds what it held at the
start and behind it, in the order in which it was written and each once, what was written; where
it is not in use, it stays as it is. Once no thread has still to record, what was written is what
uses compiled. Out of an empty cache there come no two compatible entries for one key, and as many
entries as were counted. -/
theorem cache_holds_compiled_uses (options : PipelineOptions) (device : Device)
    (cache₀ : StateCache) (pools : ρ → ReplayPool ω) (schedule : List (JointMove τ ρ ω)) :
    let c₀ := start (.new options device (some cache₀))
    let moves := JointMove.moves pools schedule
    let c := c₀.run moves
    let writes := c₀.trace written moves
    ∃ cache, c.manager.cache = some cache ∧
      (options.stateCache = true → cache.entries =
        cache₀.entries ++ (writes.filter fun e => e ∉ cache₀.entries).eraseDups) ∧
      (options.stateCache = false → cache.entries = cache₀.entries) ∧
      ((∀ thread, c.activity thread = .idle) → writes.Perm (c₀.trace compiledUse moves)) ∧
      (cache₀ = .empty →
        (cache.entries.Pairwise fun a b => a.key = b.key → ¬ a.state.Compatible b.state) ∧
          cache.entries.length = c.manager.stats.stateCacheWrites) := by
  intro c₀ moves c writes
  have hperm : (∀ thread, c.activity thread = .idle) →
      writes.Perm (c₀.trace compiledUse moves) := by
    intro hidle
    have hbalance := balance_run_start (m := .new options device (some cache₀)) moves
    rw [owed_of_idle hidle, add_zero] at hbalance
    exact (Multiset.coe_eq_coe.1 hbalance).symm
  cases hon : options.stateCache with
  | false =>
    obtain ⟨hcache, hcount⟩ := keep_run (c := c₀) hon moves
    refine ⟨cache₀, hcache, by simp, fun _ => rfl, hperm, ?_⟩
    rintro rfl
    exact ⟨List.Pairwise.nil, hcount.symm⟩
  | true =>
    have hcache₀ : c₀.manager.cache = some cache₀ := rfl
    obtain ⟨hcache, hcount⟩ := record_run hon hcache₀ moves
    refine ⟨cache₀.addAll writes, hcache, fun _ => cache₀.entries_addAll writes, by simp, hperm, ?_⟩
    rintro rfl
    have hapart := apart_written options device (some .empty) moves
    rw [StateCache.entries_addAll_empty hapart, hcount]
    exact ⟨hapart, (Nat.zero_add _).symm⟩

def tileReplay : ReplayPool Unit :=
  .start (fun _ => some PipelineManager.tileShader) [.tile (PipelineManager.boundState 0)]

/-- The replay, then a use that differs in a push constant, and a use under the zero state. -/
def replayThenUses : List (JointMove Bool Unit Unit) :=
  [.worker () (), .worker () (), .worker () (), .worker () (),
    .thread (.call true .use PipelineManager.tileShader.key (PipelineManager.boundState 7)),
    .thread (.call false .use PipelineManager.tileShader.key .zero), .thread (.finish false)]

theorem cache_of_replayThenUses :
    ((start (.new .standard ⟨true, true, 8, 64, 4⟩
        (some (.ofEntries [.tile (PipelineManager.boundState 0)])))).trace written
      (JointMove.moves (fun _ => tileReplay) replayThenUses)).Perm [.tile .zero] ∧
    ∃ cache, ((start (.new .standard ⟨true, true, 8, 64, 4⟩
        (some (.ofEntries [.tile (PipelineManager.boundState 0)])))).run
      (JointMove.moves (fun _ => tileReplay) replayThenUses)).manager.cache = some cache ∧
      cache.entries = [.tile (PipelineManager.boundState 0), .tile .zero] := by
  have huses : (start (.new .standard ⟨true, true, 8, 64, 4⟩
      (some (.ofEntries [.tile (PipelineManager.boundState 0)])))).trace compiledUse
        (JointMove.moves (fun _ => tileReplay) replayThenUses) = [.tile .zero] := by
    decide +kernel
  obtain ⟨cache, hcache, hentries, -, hperm, -⟩ := cache_holds_compiled_uses .standard
    ⟨true, true, 8, 64, 4⟩ (.ofEntries [.tile (PipelineManager.boundState 0)])
    (fun _ => tileReplay) replayThenUses
  refine ⟨huses ▸ hperm ?_, cache, hcache, (hentries rfl).trans (by decide +kernel)⟩
  rintro (thread | ⟨⟨⟩, ⟨⟩⟩)
  · cases thread <;> decide +kernel
  · decide +kernel

end SharedManager

end ShaderKit

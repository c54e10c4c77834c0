import Mathlib.Data.Finset.Card
import ShaderKit.Proofs.RecordedReplay

/-!
# Replays do not depend on the schedule

Which worker makes an object and which compiles a pipeline depends on who moves when, and so do
the order of objects and pipelines and the numbers that requests take. All else does not: an entry
whose shaders are known demands the pipelines of one key and one class of compatible states, and
what a replay compiles, counts and leaves behind is read off the demands of its entries and the
manager at its start, in whatever order the entries are handled.

While the compiler works, a demand is compiled once and served from then on; while it fails, every
entry whose demand is not served tries again.
-/

namespace ShaderKit

/-- The part of a state on which compiled code depends. -/
abbrev PipelineVariant := BindingMask × Vector UInt32 specConstantCount

def PipelineState.variant (s : PipelineState) : PipelineVariant := (s.bindings, s.specConstants)

theorem PipelineState.compatible_iff {a b : PipelineState} :
    a.Compatible b ↔ a.variant = b.variant := by
  rw [Compatible, variant, variant, Prod.mk.injEq]

/-- What an entry asks for if its shaders are known: a key and a class of states. -/
def StateCacheEntry.demand? (resolve : StateCacheKey → Option ComputeShader)
    (e : StateCacheEntry) : Option (ShaderKey × PipelineVariant) :=
  (resolve e.key).map fun shader => (shader.key, e.state.variant)

/-- What the entries of a list ask for, in order and with repetitions. -/
def demands (resolve : StateCacheKey → Option ComputeShader) (es : List StateCacheEntry) :
    List (ShaderKey × PipelineVariant) := es.filterMap (StateCacheEntry.demand? resolve)

namespace PipelineManager

variable {m : PipelineManager} {key k : ShaderKey} {s : PipelineState} {o : PipelineObject}
  {d : ShaderKey × PipelineVariant} {ds : List (ShaderKey × PipelineVariant)}
  {v : PipelineVariant}

/-- The classes of states that the pipelines of a key's object serve. -/
def variants (m : PipelineManager) (key : ShaderKey) : Finset PipelineVariant :=
  ((m.instances key).map (·.state.variant)).toFinset

/-- The demands that no pipeline serves. -/
def unserved (m : PipelineManager) (ds : List (ShaderKey × PipelineVariant)) :
    List (ShaderKey × PipelineVariant) := ds.filter fun d => d.2 ∉ m.variants d.1

/-- How many requests a replay of demands makes: one for each that is not served if the compiler
works, repetitions not counted, and one for each repetition as well if it fails. -/
def replayRequests (m : PipelineManager) (ds : List (ShaderKey × PipelineVariant)) : Nat :=
  if m.compiler.failing then (m.unserved ds).length else (m.unserved ds).toFinset.card

/-- The counters after a replay of demands. -/
def replayStats (m : PipelineManager) (ds : List (ShaderKey × PipelineVariant)) : PipelineStats :=
  { m.stats with
    instanceMisses := m.stats.instanceMisses + m.replayRequests ds
    computePipelines := m.stats.computePipelines +
      if m.compiler.failing then 0 else m.replayRequests ds
    compileFailures := m.stats.compileFailures +
      if m.compiler.failing then m.replayRequests ds else 0 }

/-- Whether a demand is served once others have been replayed. -/
def ServedAfter (m : PipelineManager) (ds : List (ShaderKey × PipelineVariant))
    (d : ShaderKey × PipelineVariant) : Prop :=
  d.2 ∈ m.variants d.1 ∨ m.compiler.failing = false ∧ d ∈ ds

section Requests

theorem unserved_append_of_served (h : d.2 ∈ m.variants d.1) :
    m.unserved (ds ++ [d]) = m.unserved ds := by
  simp [unserved, List.filter_append, h]

theorem unserved_append_of_unserved (h : d.2 ∉ m.variants d.1) :
    m.unserved (ds ++ [d]) = m.unserved ds ++ [d] := by
  simp [unserved, List.filter_append, h]

theorem toFinset_append_singleton (ds : List (ShaderKey × PipelineVariant))
    (d : ShaderKey × PipelineVariant) : (ds ++ [d]).toFinset = insert d ds.toFinset := by
  ext d'
  simp

theorem replayRequests_append_of_served (h : m.ServedAfter ds d) :
    m.replayRequests (ds ++ [d]) = m.replayRequests ds := by
  by_cases hserved : d.2 ∈ m.variants d.1
  · rw [replayRequests, replayRequests, unserved_append_of_served hserved]
  · obtain ⟨hworks, hmem⟩ := h.resolve_left hserved
    have hunserved : d ∈ (m.unserved ds).toFinset :=
      List.mem_toFinset.2 (List.mem_filter.2 ⟨hmem, by simpa using hserved⟩)
    rw [replayRequests, replayRequests, unserved_append_of_unserved hserved,
      toFinset_append_singleton, Finset.insert_eq_of_mem hunserved, hworks]
    rfl

theorem replayRequests_append_of_unserved (h : ¬ m.ServedAfter ds d) :
    m.replayRequests (ds ++ [d]) = m.replayRequests ds + 1 := by
  have hunserved : d.2 ∉ m.variants d.1 := fun hserved => h (.inl hserved)
  rw [replayRequests, replayRequests, unserved_append_of_unserved hunserved]
  cases hfailing : m.compiler.failing with
  | true => exact List.length_append
  | false =>
    have hnew : d ∉ (m.unserved ds).toFinset := fun hmem =>
      h (.inr ⟨hfailing, List.mem_of_mem_filter (List.mem_toFinset.1 hmem)⟩)
    rw [toFinset_append_singleton]
    exact Finset.card_insert_of_notMem hnew

theorem replayRequests_perm {es : List (ShaderKey × PipelineVariant)} (h : ds.Perm es) :
    m.replayRequests ds = m.replayRequests es := by
  have hunserved : (m.unserved ds).Perm (m.unserved es) := h.filter _
  rw [replayRequests, replayRequests, hunserved.length_eq, List.toFinset_eq_of_perm _ _ hunserved]

end Requests

section Variants

theorem mem_variants_iff : v ∈ m.variants key ↔ ∃ i ∈ m.instances key, i.state.variant = v := by
  simp [variants]

theorem mem_variants_addCompiled (ho : m.object? key = some o) (handle : PipelineHandle) :
    v ∈ (m.addCompiled key s handle).variants k ↔
      v ∈ m.variants k ∨ k = key ∧ v = s.variant := by
  rw [variants, variants, instances_addCompiled ho]
  by_cases hk : key = k
  · subst hk
    simp [eq_comm, or_comm]
  · have hne : ¬ k = key := fun h => hk h.symm
    simp [hk, hne]

theorem instance?_eq_none_iff_variants (ho : m.object? key = some o) :
    o.instance? s = none ↔ s.variant ∉ m.variants key := by
  rw [PipelineObject.instance?_eq_none_iff, mem_variants_iff, instances_eq ho]
  simp [PipelineState.compatible_iff]

theorem prepare_of_served (ho : m.object? key = some o) (h : s.variant ∈ m.variants key) :
    m.prepare key s = m := by
  have hstep := enterStep m .prepare key s
  rw [prepare]
  generalize m.enter .prepare key s = result at hstep ⊢
  have hserved : ∀ {o'}, m.object? key = some o' → o'.instance? s ≠ none := fun ho' hi =>
    (instance?_eq_none_iff_variants ho').1 hi h
  cases hstep with
  | noObject ho' => cases ho.symm.trans ho'
  | found ho' hi hstats =>
    subst hstats
    rfl
  | compiled ho' hi hworks hh => exact absurd hi (hserved ho')
  | failed ho' hi hfails => exact absurd hi (hserved ho')

theorem prepare_of_unserved (ho : m.object? key = some o) (h : s.variant ∉ m.variants key) :
    m.prepare key s =
      if m.compiler.failing then m.countFailed
      else m.addCompiled key s ⟨m.compiler.requests, o.request m.device s⟩ := by
  have hstep := enterStep m .prepare key s
  rw [prepare]
  generalize m.enter .prepare key s = result at hstep ⊢
  cases hstep with
  | noObject ho' => cases ho.symm.trans ho'
  | found ho' hi hstats =>
    rw [(instance?_eq_none_iff_variants ho').2 h] at hi
    cases hi
  | compiled ho' hi hworks hh =>
    obtain rfl := Option.some.inj (ho.symm.trans ho')
    rw [hh, hworks]
    rfl
  | failed ho' hi hfails =>
    rw [hfails]
    rfl

section Unserved

variable (ho : m.object? key = some o) (h : s.variant ∉ m.variants key)

include ho h

theorem failing_prepare_of_unserved :
    (m.prepare key s).compiler.failing = m.compiler.failing := by
  rw [prepare_of_unserved ho h]
  split <;> rfl

theorem requests_prepare_of_unserved :
    (m.prepare key s).compiler.requests = m.compiler.requests + 1 := by
  rw [prepare_of_unserved ho h]
  split <;> rfl

theorem stats_prepare_of_unserved :
    (m.prepare key s).stats =
      if m.compiler.failing then m.stats.countMiss.countFailure
      else m.stats.countMiss.countPipeline := by
  rw [prepare_of_unserved ho h]
  split <;> rfl

theorem mem_variants_prepare_of_unserved :
    v ∈ (m.prepare key s).variants k ↔
      v ∈ m.variants k ∨ m.compiler.failing = false ∧ (k, v) = (key, s.variant) := by
  rw [prepare_of_unserved ho h, Prod.mk.injEq]
  cases hfailing : m.compiler.failing with
  | true => simp [variants, instances, object?, countFailed]
  | false => simpa using mem_variants_addCompiled ho _

end Unserved

end Variants

section Stats

theorem replayStats_append_of_served (h : m.ServedAfter ds d) :
    m.replayStats (ds ++ [d]) = m.replayStats ds := by
  rw [replayStats, replayStats, replayRequests_append_of_served h]

theorem replayStats_append_of_unserved (h : ¬ m.ServedAfter ds d) :
    m.replayStats (ds ++ [d]) =
      if m.compiler.failing then (m.replayStats ds).countMiss.countFailure
      else (m.replayStats ds).countMiss.countPipeline := by
  rw [replayStats, replayStats, replayRequests_append_of_unserved h]
  cases m.compiler.failing <;> rfl

end Stats

theorem isSome_object?_prepare :
    ((m.prepare key s).object? k).isSome = (m.object? k).isSome := by
  have hstep := enterStep m .prepare key s
  rw [prepare]
  generalize m.enter .prepare key s = result at hstep ⊢
  cases hstep with
  | compiled ho hi hworks hh => rw [object?_addCompiled, Option.isSome_map]
  | _ => rfl

theorem servedAfter_append (d' : ShaderKey × PipelineVariant) :
    m.ServedAfter (ds ++ [d]) d' ↔
      m.ServedAfter ds d' ∨ m.compiler.failing = false ∧ d' = d := by
  rw [ServedAfter, ServedAfter, List.mem_append, List.mem_singleton]
  tauto

/-- How a manager in the middle of a replay differs from what it was at the start: by what the
demands that were handled call for. -/
structure Replayed (m : PipelineManager) (ds : List (ShaderKey × PipelineVariant))
    (m' : PipelineManager) : Prop where
  failing_eq : m'.compiler.failing = m.compiler.failing
  requests_eq : m'.compiler.requests = m.compiler.requests + m.replayRequests ds
  stats_eq : m'.stats = m.replayStats ds
  variants_iff : ∀ key v, v ∈ m'.variants key ↔ m.ServedAfter ds (key, v)

namespace Replayed

variable {m' : PipelineManager}

theorem refl (m : PipelineManager) : m.Replayed [] m where
  failing_eq := rfl
  requests_eq := by simp [replayRequests, unserved]
  stats_eq := by simp [replayStats, replayRequests, unserved]
  variants_iff key v := by simp [ServedAfter]

theorem create (h : m.Replayed ds m') (shader : ComputeShader) :
    m.Replayed ds (m'.create shader) where
  failing_eq := by rw [compiler_create, h.failing_eq]
  requests_eq := by rw [compiler_create, h.requests_eq]
  stats_eq := by
    have hstats : (m'.create shader).stats = m'.stats := by
      rw [PipelineManager.create]
      split <;> rfl
    rw [hstats, h.stats_eq]
  variants_iff key v := by
    rw [variants, instances_create, ← variants, h.variants_iff key v]

theorem prepare (h : m.Replayed ds m') (ho : m'.object? key = some o) (s : PipelineState) :
    m.Replayed (ds ++ [(key, s.variant)]) (m'.prepare key s) := by
  have hserved := h.variants_iff key s.variant
  by_cases hnow : s.variant ∈ m'.variants key
  · have hafter := hserved.1 hnow
    rw [prepare_of_served ho hnow]
    refine ⟨h.failing_eq, ?_, ?_, fun k v => ?_⟩
    · rw [replayRequests_append_of_served hafter, h.requests_eq]
    · rw [replayStats_append_of_served hafter, h.stats_eq]
    · rw [servedAfter_append, h.variants_iff k v, or_iff_left_of_imp]
      rintro ⟨-, heq⟩
      exact heq ▸ hafter
  · have hmissing : ¬ m.ServedAfter ds (key, s.variant) := fun hafter => hnow (hserved.2 hafter)
    refine ⟨?_, ?_, ?_, fun k v => ?_⟩
    · rw [failing_prepare_of_unserved ho hnow, h.failing_eq]
    · rw [requests_prepare_of_unserved ho hnow, replayRequests_append_of_unserved hmissing,
        h.requests_eq, Nat.add_assoc]
    · rw [stats_prepare_of_unserved ho hnow, replayStats_append_of_unserved hmissing,
        h.failing_eq, h.stats_eq]
    · rw [mem_variants_prepare_of_unserved ho hnow, servedAfter_append, h.variants_iff k v,
        h.failing_eq]

theorem perm (h : m.Replayed ds m') {es : List (ShaderKey × PipelineVariant)} (hds : ds.Perm es) :
    m.Replayed es m' where
  failing_eq := h.failing_eq
  requests_eq := by rw [h.requests_eq, replayRequests_perm hds]
  stats_eq := by rw [h.stats_eq, replayStats, replayStats, replayRequests_perm hds]
  variants_iff key v := by rw [h.variants_iff key v, ServedAfter, ServedAfter, hds.mem_iff]

end Replayed

/-- What a replay of demands leaves behind. -/
structure ReplayOutcome (m : PipelineManager) (ds : List (ShaderKey × PipelineVariant))
    (m' : PipelineManager) : Prop where
  replayed : m.Replayed ds m'
  object_iff : ∀ key, (m'.object? key).isSome ↔ (m.object? key).isSome ∨ key ∈ ds.map Prod.fst
  length_objects :
    m'.objects.length = (m.objects.map (·.shader.key) ++ ds.map Prod.fst).toFinset.card
  cache_eq : m'.cache = m.cache

/-- What two managers have in common that differ only in who did what first: in the order of their
objects and pipelines, in the numbers of requests and, where shaders have the same key, in the
shader of which an object was made. -/
structure SameUpToOrder (m m' : PipelineManager) : Prop where
  requests_eq : m.compiler.requests = m'.compiler.requests
  stats_eq : m.stats = m'.stats
  length_objects : m.objects.length = m'.objects.length
  object_iff : ∀ key, (m.object? key).isSome ↔ (m'.object? key).isSome
  variants_eq : ∀ key, m.variants key = m'.variants key
  cache_eq : m.cache = m'.cache

theorem ReplayOutcome.sameUpToOrder {m' m'' : PipelineManager} (h : m.ReplayOutcome ds m')
    (h' : m.ReplayOutcome ds m'') : m'.SameUpToOrder m'' where
  requests_eq := by rw [h.replayed.requests_eq, h'.replayed.requests_eq]
  stats_eq := by rw [h.replayed.stats_eq, h'.replayed.stats_eq]
  length_objects := by rw [h.length_objects, h'.length_objects]
  object_iff key := by rw [h.object_iff key, h'.object_iff key]
  variants_eq key := by
    ext v
    rw [h.replayed.variants_iff key v, h'.replayed.variants_iff key v]
  cache_eq := by rw [h.cache_eq, h'.cache_eq]

end PipelineManager

/-- The key under which a worker is about to compile. -/
def WorkerStage.key? : WorkerStage → Option ShaderKey
  | prepare _ key => some key
  | claim | resolve _ | create .. | done => none

namespace ReplayPool

variable {ω : Type} [DecidableEq ω] {p : ReplayPool ω} {w : ω} {key : ShaderKey}

/-- A worker is about to compile under a key. -/
def Preparing (p : ReplayPool ω) (key : ShaderKey) : Prop := ∃ w, (p.stage w).key? = some key

theorem preparing_moveTo (p : ReplayPool ω) (w : ω) (stage : WorkerStage) (key : ShaderKey) :
    (p.moveTo w stage).Preparing key ∨ (p.stage w).key? = some key ↔
      p.Preparing key ∨ stage.key? = some key := by
  have hself : (p.moveTo w stage).stage w = stage := Function.update_self ..
  have hother : ∀ v, v ≠ w → (p.moveTo w stage).stage v = p.stage v :=
    fun v hv => Function.update_of_ne hv ..
  constructor
  · rintro (⟨v, hv⟩ | hw)
    · by_cases hvw : v = w
      · subst hvw
        exact .inr (hself ▸ hv)
      · exact .inl ⟨v, hother v hvw ▸ hv⟩
    · exact .inl ⟨w, hw⟩
  · rintro (⟨v, hv⟩ | hstage)
    · by_cases hvw : v = w
      · exact .inr (hvw ▸ hv)
      · exact .inl ⟨v, (hother v hvw).symm ▸ hv⟩
    · exact .inl ⟨w, hself.symm ▸ hstage⟩

/-- What the entries that were handled ask for. -/
def handledDemands (p : ReplayPool ω) : List (ShaderKey × PipelineVariant) :=
  demands p.resolve p.handled

theorem handledDemands_skip {e : StateCacheEntry} (h : p.resolve e.key = none) (b : Bool) :
    (p.settle w e b).handledDemands = p.handledDemands := by
  simp [handledDemands, settle, moveTo, demands, List.filterMap_append, StateCacheEntry.demand?, h]

theorem handledDemands_settle {e : StateCacheEntry} {shader : ComputeShader}
    (h : p.resolve e.key = some shader) (b : Bool) :
    (p.settle w e b).handledDemands = p.handledDemands ++ [(shader.key, e.state.variant)] := by
  simp [handledDemands, settle, moveTo, demands, List.filterMap_append, StateCacheEntry.demand?, h]

end ReplayPool

namespace PooledReplay

variable {ω : Type} [DecidableEq ω] {m : PipelineManager} {r : PooledReplay ω} {w : ω}

/-- What the workers of a replay have done to a manager. The objects are those of the keys that
were asked for, and those that are made and not used yet. -/
structure Accounts (m : PipelineManager) (r : PooledReplay ω) : Prop where
  replayed : m.Replayed r.pool.handledDemands r.manager
  object_iff : ∀ key, (r.manager.object? key).isSome ↔ (m.object? key).isSome ∨
    key ∈ r.pool.handledDemands.map Prod.fst ∨ r.pool.Preparing key

namespace Accounts

omit [DecidableEq ω] in
theorem of_eq (h : Accounts m r) {p : ReplayPool ω}
    (hdemands : p.handledDemands = r.pool.handledDemands)
    (hpreparing : ∀ key, p.Preparing key ↔ r.pool.Preparing key) :
    Accounts m ⟨r.manager, p⟩ where
  replayed := by
    rw [hdemands]
    exact h.replayed
  object_iff key := by rw [hdemands, hpreparing key, h.object_iff key]

theorem create (h : Accounts m r) {e : StateCacheEntry} {shader : ComputeShader}
    (hstage : r.pool.stage w = .create e shader) :
    Accounts m ⟨r.manager.create shader, r.pool.moveTo w (.prepare e shader.key)⟩ where
  replayed := h.replayed.create shader
  object_iff key := by
    have hpreparing := r.pool.preparing_moveTo w (.prepare e shader.key) key
    simp only [hstage, WorkerStage.key?, reduceCtorEq, or_false, Option.some.injEq] at hpreparing
    have hdemands : (r.pool.moveTo w (.prepare e shader.key)).handledDemands =
      r.pool.handledDemands := rfl
    have hobject : ((r.manager.create shader).object? key).isSome ↔
        (r.manager.object? key).isSome ∨ shader.key = key := by
      rw [PipelineManager.object?_create]
      by_cases hkey : shader.key = key <;> simp [hkey]
    rw [hobject, h.object_iff key, hpreparing, hdemands]
    tauto

theorem prepare (h : Accounts m r) (hsound : r.pool.Sound) {e : StateCacheEntry}
    {key : ShaderKey} (hstage : r.pool.stage w = .prepare e key) :
    Accounts m ⟨r.manager.prepare key e.state, r.pool.settle w e true⟩ := by
  obtain ⟨shader, hresolve, rfl⟩ := hsound.prepare w e key hstage
  have hdemands := ReplayPool.handledDemands_settle (w := w) hresolve true
  have hprepares : r.pool.Preparing shader.key := ⟨w, by rw [hstage]; rfl⟩
  obtain ⟨o, ho⟩ := Option.isSome_iff_exists.1 ((h.object_iff _).2 (.inr (.inr hprepares)))
  refine ⟨?_, fun k => ?_⟩
  · rw [hdemands]
    exact h.replayed.prepare ho e.state
  · have hpreparing := r.pool.preparing_moveTo w .claim k
    have hsettle : (r.pool.settle w e true).Preparing k ↔ (r.pool.moveTo w .claim).Preparing k :=
      Iff.rfl
    simp only [hstage, WorkerStage.key?, reduceCtorEq, or_false, Option.some.injEq] at hpreparing
    rw [PipelineManager.isSome_object?_prepare, h.object_iff k, hdemands, List.map_append,
      List.mem_append, List.map_singleton, List.mem_singleton, ← hpreparing, hsettle]
    tauto

theorem turn (h : Accounts m r) (hsound : r.pool.Sound) (w : ω) : Accounts m (r.turn w) := by
  have hmoved : ∀ stage, (r.pool.stage w).key? = none → stage.key? = none → ∀ key,
      (r.pool.moveTo w stage).Preparing key ↔ r.pool.Preparing key := by
    intro stage hold hnew key
    simpa [hold, hnew] using r.pool.preparing_moveTo w stage key
  have hturn := r.pool.turn_cases w
  rw [PooledReplay.turn]
  generalize r.pool.turn w = result at hturn ⊢
  cases hturn with
  | claim hstage hwaiting => exact h.of_eq rfl (hmoved (.resolve _) (by rw [hstage]; rfl) rfl)
  | finish hstage hwaiting => exact h.of_eq rfl (hmoved .done (by rw [hstage]; rfl) rfl)
  | resolve hstage hresolve => exact h.of_eq rfl (hmoved (.create _ _) (by rw [hstage]; rfl) rfl)
  | skip hstage hresolve =>
    exact h.of_eq (ReplayPool.handledDemands_skip hresolve false)
      (hmoved .claim (by rw [hstage]; rfl) rfl)
  | create hstage => exact h.create hstage
  | prepare hstage => exact h.prepare hsound hstage
  | rest hstage => exact h

theorem run (h : Accounts m r) (hsound : r.pool.Sound) (schedule : List ω) :
    Accounts m (r.run schedule) := by
  induction schedule generalizing r with
  | nil => exact h
  | cons w schedule ih => exact ih (h.turn hsound w) (hsound.turn w)

end Accounts

section Outcome

variable [Fintype ω] [Nonempty ω] {options : PipelineOptions} {device : Device}
  {cache : Option StateCache} {calls : List PipelineManager.Call}
  {resolve : StateCacheKey → Option ComputeShader} {es : List StateCacheEntry}
  {schedule : List ω}

omit [Nonempty ω] in
theorem finished_of_count (h : ∀ w, Fintype.card ω + 4 * es.length ≤ schedule.count w) :
    ((start m resolve es).run schedule).pool.Finished := by
  have hmeasure : (.start resolve es : ReplayPool ω).measure = Fintype.card ω + 4 * es.length :=
    ReplayPool.measure_start resolve es
  rw [pool_run]
  exact ReplayPool.finished_run fun w => hmeasure ▸ h w

theorem handled_perm (hfinished : ((start m resolve es).run schedule).pool.Finished) :
    ((start m resolve es).run schedule).pool.handled.Perm es := by
  rw [pool_run] at hfinished ⊢
  have hhandled := ReplayPool.handled_of_finished
    ((ReplayPool.sound_start resolve es).run schedule) hfinished
  rw [ReplayPool.entries_run, ReplayPool.entries_start] at hhandled
  exact Multiset.coe_eq_coe.1 hhandled

theorem replayOutcome (hm : m = (PipelineManager.new options device cache).run calls)
    (hfinished : ((start m resolve es).run schedule).pool.Finished) :
    m.ReplayOutcome (demands resolve es) ((start m resolve es).run schedule).manager := by
  have hstart : Accounts m (start m resolve es : PooledReplay ω) := by
    refine ⟨PipelineManager.Replayed.refl m, fun key => ?_⟩
    have hdemands : (start m resolve es : PooledReplay ω).pool.handledDemands = [] := rfl
    have hnone : ¬ (start m resolve es : PooledReplay ω).pool.Preparing key := by
      rintro ⟨w, hw⟩
      cases hw
    rw [hdemands, List.map_nil, or_iff_left (not_or.2 ⟨List.not_mem_nil, hnone⟩)]
    rfl
  have haccounts := hstart.run (ReplayPool.sound_start resolve es) schedule
  have hperm : ((start m resolve es).run schedule).pool.handledDemands.Perm
      (demands resolve es) := by
    have hresolve : ((start m resolve es).run schedule).pool.resolve = resolve := by
      rw [pool_run, ReplayPool.resolve_run]
      rfl
    rw [ReplayPool.handledDemands, hresolve]
    exact (handled_perm hfinished).filterMap _
  have hobject : ∀ key, (((start m resolve es).run schedule).manager.object? key).isSome ↔
      (m.object? key).isSome ∨ key ∈ (demands resolve es).map Prod.fst := by
    intro key
    have hdone : ¬ ((start m resolve es).run schedule).pool.Preparing key := by
      rintro ⟨w, hw⟩
      rw [hfinished w] at hw
      cases hw
    rw [haccounts.object_iff key, or_iff_left hdone, (hperm.map Prod.fst).mem_iff]
  have hkeys : ((start m resolve es).run schedule).manager.KeysDistinct := by
    obtain ⟨more, hmore⟩ := exists_run_run (start m resolve es) schedule
    rw [hmore]
    refine PipelineManager.keysDistinct_isInvariant.run more ?_
    exact hm ▸ PipelineManager.keysDistinct_isInvariant.run calls List.nodup_nil
  refine ⟨haccounts.replayed.perm hperm, hobject, ?_, cache_run _ _⟩
  rw [← List.length_map, ← List.toFinset_card_of_nodup hkeys]
  congr 1
  ext key
  rw [List.mem_toFinset, List.mem_toFinset, List.mem_append,
    ← PipelineManager.isSome_object?_iff, ← PipelineManager.isSome_object?_iff]
  exact hobject key

end Outcome

/-- A replay returns under every schedule that gives its workers enough turns. It has then handled
every entry once, skipped those whose key is not resolved, and compiled what
`PipelineManager.replayRequests` says. Replays with any two numbers of workers and under any two
schedules differ in the order of what they leave behind only, and one of them is the replay of the
entries in order. -/
theorem replay_independent_of_schedule {ω₁ ω₂ : Type} [DecidableEq ω₁] [Fintype ω₁] [Nonempty ω₁]
    [DecidableEq ω₂] [Fintype ω₂] [Nonempty ω₂] {options : PipelineOptions} {device : Device}
    {cache : Option StateCache} {calls : List PipelineManager.Call}
    (hm : m = (PipelineManager.new options device cache).run calls)
    (resolve : StateCacheKey → Option ComputeShader) (entries : List StateCacheEntry)
    (schedule₁ : List ω₁) (schedule₂ : List ω₂) :
    let r₁ := (start m resolve entries).run schedule₁
    let r₂ := (start m resolve entries).run schedule₂
    ((∀ w, Fintype.card ω₁ + 4 * entries.length ≤ schedule₁.count w) → r₁.pool.Finished) ∧
    (r₁.pool.Finished →
      r₁.pool.handled.Perm entries ∧
      r₁.pool.summary.skipped = entries.countP (fun e => (resolve e.key).isNone) ∧
      r₁.pool.summary.replayed + r₁.pool.summary.skipped = entries.length ∧
      (m.compiler.failing = false → r₁.manager.compiler.requests =
        m.compiler.requests + (m.unserved (demands resolve entries)).toFinset.card) ∧
      (m.compiler.failing = true → r₁.manager.compiler.requests =
        m.compiler.requests + (m.unserved (demands resolve entries)).length) ∧
      m.ReplayOutcome (demands resolve entries) r₁.manager) ∧
    (r₁.pool.Finished → r₂.pool.Finished →
      r₁.pool.summary = r₂.pool.summary ∧ r₁.manager.SameUpToOrder r₂.manager) ∧
    (r₁.pool.Finished →
      r₁.pool.summary = (PipelineManager.replay resolve m entries).2 ∧
        r₁.manager.SameUpToOrder (PipelineManager.replay resolve m entries).1) := by
  intro r₁ r₂
  have hsummary {ω : Type} [DecidableEq ω] [Fintype ω] [Nonempty ω] {schedule : List ω}
      (hfinished : ((start m resolve entries).run schedule).pool.Finished) :
      ((start m resolve entries).run schedule).pool.summary =
        ⟨entries.countP fun e => (resolve e.key).isSome,
          entries.countP fun e => (resolve e.key).isNone⟩ := by
    rw [pool_run] at hfinished ⊢
    exact ReplayPool.summary_of_finished hfinished
  have hagree {ω : Type} [DecidableEq ω] [Fintype ω] [Nonempty ω] {schedule : List ω}
      (hfinished₁ : r₁.pool.Finished)
      (hfinished : ((start m resolve entries).run schedule).pool.Finished) :
      r₁.pool.summary = ((start m resolve entries).run schedule).pool.summary ∧
        r₁.manager.SameUpToOrder ((start m resolve entries).run schedule).manager :=
    ⟨(hsummary hfinished₁).trans (hsummary hfinished).symm,
      (replayOutcome hm hfinished₁).sameUpToOrder (replayOutcome hm hfinished)⟩
  refine ⟨finished_of_count, fun hfinished => ?_, hagree, fun hfinished => ?_⟩
  · have houtcome : m.ReplayOutcome (demands resolve entries) r₁.manager :=
      replayOutcome hm hfinished
    have hrequests := houtcome.replayed.requests_eq
    rw [PipelineManager.replayRequests] at hrequests
    refine ⟨handled_perm hfinished, ?_, ?_, fun hworks => ?_, fun hfails => ?_, houtcome⟩
    · rw [hsummary hfinished]
    · rw [hsummary hfinished]
      have hlength := entries.length_eq_countP_add_countP (fun e => (resolve e.key).isSome)
      simpa only [Bool.not_eq_true, Option.isSome_eq_false_iff, Bool.decide_eq_true]
        using hlength.symm
    · simpa [hworks] using hrequests
    · simpa [hfails] using hrequests
  · -- One worker that is given enough turns replays the entries in order.
    have hone : ((start m resolve entries : PooledReplay Unit).run
        (List.replicate (1 + 4 * entries.length) ())).pool.Finished :=
      finished_of_count fun _ => by simp
    rw [← eq_replay_of_finished hone]
    exact hagree hfinished hone

/-- The tile shader's object has been used under the zero state. -/
def usedTile : PipelineManager :=
  (PipelineManager.new .standard ⟨true, true, 8, 64, 4⟩ none).run
    [.create PipelineManager.tileShader, .get PipelineManager.tileShader.key .zero]

def resolveTile (key : StateCacheKey) : Option ComputeShader :=
  if key = ⟨some PipelineManager.tileShader.key⟩ then some PipelineManager.tileShader else none

/-- Entries that differ in a push constant, one that is served, and one without a shader. -/
def mixedEntries : List StateCacheEntry :=
  [.tile (PipelineManager.boundState 0), .tile (PipelineManager.boundState 7), .tile .zero,
    ⟨⟨none⟩, .zero⟩]

def mixedByTwo : PooledReplay Bool :=
  (start usedTile resolveTile mixedEntries).run (List.replicate 18 [true, false]).flatten

def mixedByOne : PooledReplay Unit :=
  (start usedTile resolveTile mixedEntries).run (List.replicate 17 ())

theorem replay_of_mixedEntries :
    mixedByTwo.pool.summary.skipped = 1 ∧ mixedByTwo.manager.compiler.requests = 2 ∧
      mixedByTwo.pool.summary = mixedByOne.pool.summary ∧
      mixedByTwo.manager.SameUpToOrder mixedByOne.manager := by
  have hused : usedTile = (PipelineManager.new .standard ⟨true, true, 8, 64, 4⟩ none).run
      [.create PipelineManager.tileShader, .get PipelineManager.tileShader.key .zero] := rfl
  obtain ⟨hreturns, houtcome, hagree, -⟩ := replay_independent_of_schedule hused resolveTile
    mixedEntries (List.replicate 18 [true, false]).flatten (List.replicate 17 ())
  rw [mixedByTwo, mixedByOne]
  have hfinished := hreturns (by decide)
  obtain ⟨-, hskipped, -, hrequests, -, -⟩ := houtcome hfinished
  have hone : mixedEntries.countP (fun e => (resolveTile e.key).isNone) = 1 := by
    decide +kernel
  have htwo : usedTile.compiler.requests +
      (usedTile.unserved (demands resolveTile mixedEntries)).toFinset.card = 2 := by
    decide +kernel
  have hworks : usedTile.compiler.failing = false := by decide +kernel
  exact ⟨hskipped.trans hone, (hrequests hworks).trans htwo,
    hagree hfinished (finished_of_count (by decide))⟩

end PooledReplay

end ShaderKit

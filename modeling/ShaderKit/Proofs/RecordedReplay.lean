import ShaderKit.Proofs.CacheRecords

/-!
# Replaying what was recorded

The records of a run are the work list of a later process. As no two of them are compatible
under one key, a replay by any number of workers compiles once for each, and afterwards every
state that the first process had a recorded pipeline for is served without compiling. What is
handed out is what the first process had, except for the number and the shader's name: two
shaders of one key have the same interface, from which objects and requests are made.
-/

namespace ShaderKit

/-- The request without the shader's name, which nothing but diagnostic output depends on. -/
def CompileRequest.anonymous (r : CompileRequest) : CompileRequest :=
  { r with shader := { r.shader with name := "" } }

theorem PipelineObject.anonymous_request_eq {options : PipelineOptions} {a b : ComputeShader}
    {o o' : PipelineObject} (ho : (ofShader options a).Extends o)
    (ho' : (ofShader options b).Extends o') (hkey : a.key = b.key)
    (hinterface : a.interface = b.interface) (d : Device) (s : PipelineState) :
    (o.request d s).anonymous = (o'.request d s).anonymous := by
  have hslots : a.defineSlots = b.defineSlots := by
    funext m
    rw [ComputeShader.defineSlots, ComputeShader.defineSlots, hinterface]
  have hlayout : o.layout = o'.layout := by
    rw [ho.layout_eq, ho'.layout_eq, ofShader, ofShader, hslots]
  have hkey' : o.shader.key = o'.shader.key := by
    rw [ho.shader_eq, ho'.shader_eq]
    exact hkey
  have hinterface' : o.shader.interface = o'.shader.interface := by
    rw [ho.shader_eq, ho'.shader_eq]
    exact hinterface
  simp only [request, CompileRequest.anonymous, hlayout, hkey', hinterface']

namespace PipelineManager

variable {m m' : PipelineManager} {S : Set ComputeShader} {key : ShaderKey} {s : PipelineState}
  {o : PipelineObject} {i : PipelineInstance}

theorem exists_object_of_mem_instances (hi : i ∈ m.instances key) :
    ∃ o, m.object? key = some o ∧ i ∈ o.instances := by
  rw [instances] at hi
  cases ho : m.object? key with
  | none =>
    rw [ho] at hi
    exact absurd hi List.not_mem_nil
  | some o =>
    rw [ho] at hi
    exact ⟨o, rfl, hi⟩

theorem Consistent.get_of_mem (h : m.Consistent) (ho : m.object? key = some o)
    (hi : i ∈ o.instances) (hc : i.state.Compatible s) :
    ∃ handle, m.get key s = ({ m with stats := m.stats.countHit }, some handle) ∧
      handle.request = o.request m.device s := by
  cases hj : o.instance? s with
  | none => exact absurd hc (PipelineObject.instance?_eq_none_iff.1 hj i hi)
  | some j =>
    obtain ⟨hmem, hcompatible⟩ := PipelineObject.mem_of_instance?_eq_some hj
    refine ⟨j.handle, by simp [get, enter, ho, hj, Entered.handle?], ?_⟩
    rw [(h key o ho).request_eq j hmem, PipelineObject.request_eq_of_compatible hcompatible]

theorem prepare_of_missing (ho : m.object? key = some o)
    (hmissing : ∀ i ∈ m.instances key, ¬ i.state.Compatible s)
    (hworks : m.compiler.failing = false) :
    m.prepare key s = m.addCompiled key s ⟨m.compiler.requests, o.request m.device s⟩ := by
  rw [instances_eq ho] at hmissing
  have hstep := enterStep m .prepare key s
  rw [prepare]
  generalize m.enter .prepare key s = result at hstep ⊢
  cases hstep with
  | noObject ho' => cases ho.symm.trans ho'
  | found ho' hi hstats =>
    obtain rfl := Option.some.inj (ho.symm.trans ho')
    obtain ⟨hmem, hcompatible⟩ := PipelineObject.mem_of_instance?_eq_some hi
    exact absurd hcompatible (hmissing _ hmem)
  | compiled ho' hi hworks hh =>
    obtain rfl := Option.some.inj (ho.symm.trans ho')
    rw [hh]
  | failed ho' hi hfails => cases hworks.symm.trans hfails

/-- Every object was made of one of the shaders. -/
def MadeOf (m : PipelineManager) (S : Set ComputeShader) : Prop :=
  ∀ key o, m.object? key = some o →
    ∃ shader ∈ S, (PipelineObject.ofShader m.options shader).Extends o

theorem madeOf_new (options : PipelineOptions) (device : Device) (cache : Option StateCache) :
    (new options device cache).MadeOf S := by
  intro key o ho
  cases ho

theorem MadeOf.create (h : m.MadeOf S) {shader : ComputeShader} (hshader : shader ∈ S) :
    (m.create shader).MadeOf S := by
  intro key o ho
  rw [options_create]
  rw [object?_create] at ho
  rcases Option.or_eq_some_iff.1 ho with ho | ⟨-, ho⟩
  · exact h key o ho
  · rw [Option.ite_none_right_eq_some, Option.some.injEq] at ho
    exact ⟨shader, hshader, ho.2 ▸ PipelineObject.Extends.refl _⟩

theorem MadeOf.enter (h : m.MadeOf S) (purpose : Purpose) (key : ShaderKey) (s : PipelineState) :
    (m.enter purpose key s).1.MadeOf S := by
  have hstep := enterStep m purpose key s
  generalize m.enter purpose key s = result at hstep ⊢
  cases hstep with
  | noObject ho => exact h
  | found ho hi hstats => exact h
  | failed ho hi hfails => exact h
  | @compiled o handle ho hi hworks hh =>
    intro k o' ho'
    rw [object?_addCompiled] at ho'
    obtain ⟨o'', ho'', rfl⟩ := Option.map_eq_some_iff.1 ho'
    obtain ⟨shader, hshader, hextends⟩ := h k o'' ho''
    refine ⟨shader, hshader, hextends.trans ?_⟩
    split
    · exact PipelineObject.extends_addInstance o'' s handle
    · exact PipelineObject.Extends.refl o''

theorem MadeOf.record (h : m.MadeOf S) (key : ShaderKey) (s : PipelineState) :
    (m.record key s).MadeOf S := by
  intro k o ho
  rw [object?_record] at ho
  rw [options_record]
  exact h k o ho

/-- A state that a pipeline served is still a hit after any calls, and what is handed out is what
would be compiled for an object of a shader from which the objects were made. -/
theorem MadeOf.exists_hit {options : PipelineOptions} {device : Device}
    {cache : Option StateCache} {calls : List Call} (h : m.MadeOf S)
    (hm : m = (new options device cache).run calls) (hi : i ∈ m.instances key)
    (hc : i.state.Compatible s) (more : List Call) :
    ∃ shader ∈ S, shader.key = key ∧ ∃ o, (PipelineObject.ofShader options shader).Extends o ∧
      ∃ handle, (m.run more).get key s =
          ({ m.run more with stats := (m.run more).stats.countHit }, some handle) ∧
        handle.request = o.request device s := by
  have hrun : m.run more = (new options device cache).run (calls ++ more) := by
    rw [hm, run_append]
  have hconsistent : (m.run more).Consistent :=
    hrun ▸ consistent_isInvariant.run _ (consistent_new options device cache)
  have hoptions : m.options = options := hm ▸ (options_isInvariant options).run calls rfl
  have hdevice : (m.run more).device = device := hrun ▸ (device_isInvariant device).run _ rfl
  obtain ⟨o, ho, hio⟩ := exists_object_of_mem_instances hi
  obtain ⟨shader, hshader, hmade⟩ := h key o ho
  obtain ⟨o', ho', hlater⟩ := (extends_isInvariant m).run more (Extends.refl m) key o ho
  have hkey : shader.key = key := by
    rw [← key_of_object?_eq_some ho, hmade.shader_eq]
    rfl
  obtain ⟨handle, hget, hrequest⟩ := hconsistent.get_of_mem ho' (hlater.instances_le.mem hio) hc
  exact ⟨shader, hshader, hkey, o', hoptions ▸ hmade.trans hlater, handle, hget,
    hdevice ▸ hrequest⟩

/-- Two managers that were made of the same shaders hand out the same for a state that both serve,
up to the number and the shader's name. -/
theorem MadeOf.exists_hits {options : PipelineOptions} {device : Device}
    {cache cache' : Option StateCache} {calls calls' : List Call}
    (hshaders : ∀ a ∈ S, ∀ b ∈ S, a.key = b.key → a.interface = b.interface)
    (h : m.MadeOf S) (hm : m = (new options device cache).run calls)
    (h' : m'.MadeOf S) (hm' : m' = (new options device cache').run calls')
    (hi : ∃ i ∈ m.instances key, i.state.Compatible s)
    (hi' : ∃ i ∈ m'.instances key, i.state.Compatible s) (more more' : List Call) :
    ∃ handle handle',
      (m.run more).get key s =
        ({ m.run more with stats := (m.run more).stats.countHit }, some handle) ∧
      (m'.run more').get key s =
        ({ m'.run more' with stats := (m'.run more').stats.countHit }, some handle') ∧
      handle'.request.anonymous = handle.request.anonymous := by
  obtain ⟨i, hi, hc⟩ := hi
  obtain ⟨i', hi', hc'⟩ := hi'
  obtain ⟨a, ha, hakey, o, ho, handle, hget, hrequest⟩ := h.exists_hit hm hi hc more
  obtain ⟨b, hb, hbkey, o', ho', handle', hget', hrequest'⟩ := h'.exists_hit hm' hi' hc' more'
  have hsame : b.key = a.key := hbkey.trans hakey.symm
  refine ⟨handle, handle', hget, hget', ?_⟩
  rw [hrequest, hrequest']
  exact PipelineObject.anonymous_request_eq ho' ho hsame (hshaders b hb a ha hsame) device s

end PipelineManager

namespace SharedManager

variable {τ : Type} [DecidableEq τ] {c : SharedManager τ} {S : Set ComputeShader}

theorem madeOf_step (h : c.manager.MadeOf S) {move : Move τ}
    (hcreated : ∀ shader, move = .create shader → shader ∈ S) :
    (c.step move).manager.MadeOf S := by
  cases move with
  | create shader => exact h.create (hcreated shader rfl)
  | setFailing failing => exact h
  | call thread purpose key s =>
    cases ha : c.activity thread with
    | idle => simpa only [step, ha, enter] using h.enter purpose key s
    | recording => simpa only [step, ha] using h
  | finish thread =>
    cases ha : c.activity thread with
    | idle => simpa only [step, ha] using h
    | recording key s handle => simpa only [step, ha] using h.record key s

theorem madeOf_run (h : c.manager.MadeOf S) {moves : List (Move τ)}
    (hcreated : ∀ shader, .create shader ∈ moves → shader ∈ S) :
    (c.run moves).manager.MadeOf S := by
  induction moves generalizing c with
  | nil => exact h
  | cons move moves ih =>
    refine ih (madeOf_step h ?_) fun shader hmem => hcreated shader (List.mem_cons_of_mem _ hmem)
    rintro shader rfl
    exact hcreated shader List.mem_cons_self

variable (options : PipelineOptions) (device : Device) (moves : List (Move τ))

theorem exists_instance_of_mem_written {cache : Option StateCache} {e : StateCacheEntry}
    {key : ShaderKey} (he : e ∈ (start (.new options device cache)).trace written moves)
    (hkey : e.key = ⟨some key⟩) :
    ∃ i ∈ ((start (.new options device cache)).run moves).manager.instances key,
      i.state = e.state := by
  have hbalance := balance_run_start (m := .new options device cache) moves
  have huse : e ∈ (start (.new options device cache)).trace compiledUse moves :=
    Multiset.mem_coe.1 (hbalance ▸ Multiset.mem_add.2 (.inl he))
  obtain ⟨new, hnew, hsub⟩ := instances_run (start (.new options device cache)) moves key
  have hstate : e.state ∈ new.map (·.state) :=
    hsub.mem (List.mem_filterMap.2 ⟨e, huse, StateCacheEntry.stateFor?_eq_some_iff.2 ⟨hkey, rfl⟩⟩)
  obtain ⟨i, hi, hie⟩ := List.mem_map.1 hstate
  exact ⟨i, by rw [hnew]; exact List.mem_append_right _ hi, hie⟩

/-- The records of a run that starts with an empty cache are apart, and each belongs to a pipeline
that is there. -/
theorem recorded_of_empty (hon : options.stateCache = true) {entries : List StateCacheEntry}
    (hentries : ((start (.new options device (some .empty))).run moves).manager.cache =
      some ⟨entries⟩) :
    entries.Pairwise StateCacheEntry.Apart ∧ ∀ e ∈ entries, ∀ key, e.key = ⟨some key⟩ →
      ∃ i ∈ ((start (.new options device (some .empty))).run moves).manager.instances key,
        i.state = e.state := by
  have hwritten := (cache_run_of_empty options device moves hon).symm.trans hentries
  obtain rfl := StateCache.mk.inj (Option.some.inj hwritten)
  exact ⟨apart_written options device (some .empty) moves,
    fun e he key hkey => exists_instance_of_mem_written options device moves he hkey⟩

end SharedManager

namespace ReplayPool

variable {ω : Type} [DecidableEq ω] [Fintype ω] {p : ReplayPool ω} {w : ω}
  {S : Set ComputeShader}

omit [DecidableEq ω] in
theorem handled_add_held_le (p : ReplayPool ω) (w : ω) :
    (p.handled : Multiset StateCacheEntry) + (p.stage w).held ≤ p.entries := by
  have hheld : (p.stage w).held ≤ ∑ v, (p.stage v).held :=
    Finset.single_le_sum (fun _ _ => Multiset.zero_le _) (Finset.mem_univ w)
  exact (Multiset.add_le_add_left hheld).trans (Multiset.le_add_right _ _)

/-- Every entry resolves to a shader of its key, and no two entries ask for the same pipeline. -/
structure Replayable (p : ReplayPool ω) (S : Set ComputeShader) : Prop where
  sound : p.Sound
  resolves : ∀ e ∈ p.entries, ∃ shader ∈ S, p.resolve e.key = some shader ∧
    e.key = ⟨some shader.key⟩
  apart : ∀ es : List StateCacheEntry, (es : Multiset StateCacheEntry) ≤ p.entries →
    es.Pairwise StateCacheEntry.Apart

omit [DecidableEq ω] in
theorem replayable_start {resolve : StateCacheKey → Option ComputeShader}
    {es : List StateCacheEntry}
    (hresolves : ∀ e ∈ es, ∃ shader ∈ S, resolve e.key = some shader ∧ e.key = ⟨some shader.key⟩)
    (hapart : es.Pairwise StateCacheEntry.Apart) :
    (start resolve es : ReplayPool ω).Replayable S := by
  refine ⟨sound_start resolve es, ?_, ?_⟩
  · rw [entries_start]
    exact hresolves
  · intro ds hds
    rw [entries_start] at hds
    obtain ⟨ds', hperm, hsub⟩ := Multiset.coe_le.1 hds
    exact (hapart.sublist hsub).perm hperm fun h => h.symm

theorem Replayable.turn (h : p.Replayable S) (w : ω) : (p.turn w).2.Replayable S := by
  refine ⟨h.sound.turn w, ?_, ?_⟩
  · rw [entries_turn, resolve_turn]
    exact h.resolves
  · rw [entries_turn]
    exact h.apart

omit [DecidableEq ω] in
theorem Replayable.shader_of_held (h : p.Replayable S) {e : StateCacheEntry}
    (hheld : (p.stage w).held = {e}) :
    ∃ shader ∈ S, p.resolve e.key = some shader ∧ e.key = ⟨some shader.key⟩ := by
  refine h.resolves e (Multiset.mem_of_le (p.handled_add_held_le w) ?_)
  rw [hheld]
  exact Multiset.mem_add.2 (.inr (Multiset.mem_singleton_self e))

omit [DecidableEq ω] in
theorem Replayable.apart_of_held (h : p.Replayable S) {e : StateCacheEntry}
    (hheld : (p.stage w).held = {e}) : ∀ d ∈ p.handled, d.Apart e := by
  have hle := p.handled_add_held_le w
  rw [hheld] at hle
  have hpairwise := h.apart (p.handled ++ [e]) hle
  exact fun d hd => (List.pairwise_append.1 hpairwise).2.2 d hd e (List.mem_singleton_self e)

end ReplayPool

theorem ReplayPool.summary_of_resolved {ω : Type} [DecidableEq ω] [Fintype ω] [Nonempty ω]
    {resolve : StateCacheKey → Option ComputeShader} {es : List StateCacheEntry}
    {schedule : List ω} (hresolved : ∀ e ∈ es, (resolve e.key).isSome)
    (hfinished : ((start resolve es).run schedule).Finished) :
    ((start resolve es).run schedule).summary = ⟨es.length, 0⟩ := by
  have hnone : ∀ e ∈ es, ¬ (resolve e.key).isNone := by
    intro e he
    rw [← Option.not_isSome, hresolved e he]
    exact Bool.false_ne_true
  rw [summary_of_finished hfinished, List.countP_eq_length.2 hresolved, List.countP_eq_zero.2 hnone]

namespace PooledReplay

variable {ω : Type} [DecidableEq ω] {r : PooledReplay ω} {w : ω} {S : Set ComputeShader}

theorem exists_run_turn (r : PooledReplay ω) (w : ω) :
    ∃ calls, (r.turn w).manager = r.manager.run calls := by
  cases haction : (r.pool.turn w).1 with
  | none => exact ⟨[], by rw [turn, haction]; rfl⟩
  | some action =>
    cases action with
    | create shader => exact ⟨[.create shader], by rw [turn, haction]; rfl⟩
    | prepare key s => exact ⟨[.prepare key s], by rw [turn, haction]; rfl⟩

theorem exists_run_run (r : PooledReplay ω) (schedule : List ω) :
    ∃ calls, (r.run schedule).manager = r.manager.run calls := by
  induction schedule generalizing r with
  | nil => exact ⟨[], rfl⟩
  | cons w schedule ih =>
    obtain ⟨calls, hcalls⟩ := exists_run_turn r w
    obtain ⟨calls', hcalls'⟩ := ih (r.turn w)
    exact ⟨calls ++ calls', by rw [PipelineManager.run_append, ← hcalls]; exact hcalls'⟩

theorem cache_turn (r : PooledReplay ω) (w : ω) :
    (r.turn w).manager.cache = r.manager.cache := by
  cases haction : (r.pool.turn w).1 with
  | none => rw [turn, haction]; rfl
  | some action =>
    cases action <;> simp [turn, haction, PipelineManager.perform, PipelineManager.prepare]

theorem cache_run (r : PooledReplay ω) (schedule : List ω) :
    (r.run schedule).manager.cache = r.manager.cache := by
  induction schedule generalizing r with
  | nil => rfl
  | cons w schedule ih => exact (ih _).trans (cache_turn r w)

omit [DecidableEq ω] in
/-- The manager has compiled once for each entry that was handled, and nothing else. -/
structure Tracks (r : PooledReplay ω) : Prop where
  works : r.manager.compiler.failing = false
  requests_eq : r.manager.compiler.requests = r.pool.handled.length
  states_eq : ∀ key, (r.manager.instances key).map (·.state) =
    r.pool.handled.filterMap (StateCacheEntry.stateFor? key)
  object : ∀ w e key, r.pool.stage w = .prepare e key → (r.manager.object? key).isSome

namespace Tracks

omit [DecidableEq ω] in
theorem of_eq (h : r.Tracks) {p : ReplayPool ω} (hhandled : p.handled = r.pool.handled)
    (hstage : ∀ v e key, p.stage v = .prepare e key → r.pool.stage v = .prepare e key) :
    (⟨r.manager, p⟩ : PooledReplay ω).Tracks where
  works := h.works
  requests_eq := by rw [hhandled, h.requests_eq]
  states_eq key := by rw [hhandled, h.states_eq key]
  object v e key hv := h.object v e key (hstage v e key hv)

theorem create (h : r.Tracks) (e : StateCacheEntry) (shader : ComputeShader) :
    (⟨r.manager.create shader, r.pool.moveTo w (.prepare e shader.key)⟩ :
      PooledReplay ω).Tracks where
  works := by rw [PipelineManager.compiler_create, h.works]
  requests_eq := by rw [PipelineManager.compiler_create, h.requests_eq]; rfl
  states_eq key := by rw [PipelineManager.instances_create, h.states_eq key]; rfl
  object v e' key hv := by
    rw [PipelineManager.object?_create]
    rcases r.pool.stage_moveTo w (.prepare e shader.key) v with hstage | hstage
    · obtain ⟨-, rfl⟩ := WorkerStage.prepare.inj (hstage.symm.trans hv)
      cases r.manager.object? shader.key <;> simp
    · obtain ⟨o, ho⟩ := Option.isSome_iff_exists.1 (h.object v e' key (hstage.symm.trans hv))
      simp [ho]

theorem prepare [Fintype ω] (h : r.Tracks) (hpool : r.pool.Replayable S) {e : StateCacheEntry}
    {key : ShaderKey} (hstage : r.pool.stage w = .prepare e key) :
    (⟨r.manager.prepare key e.state, r.pool.settle w e true⟩ : PooledReplay ω).Tracks := by
  obtain ⟨o, ho⟩ := Option.isSome_iff_exists.1 (h.object w e key hstage)
  have hheld : (r.pool.stage w).held = {e} := by rw [hstage, WorkerStage.held]
  have hkey : e.key = ⟨some key⟩ := by
    obtain ⟨shader, -, hresolve, hkey⟩ := hpool.shader_of_held hheld
    obtain ⟨shader', hresolve', rfl⟩ := hpool.sound.prepare w e key hstage
    rw [hkey, Option.some.inj (hresolve.symm.trans hresolve')]
  -- What was handled for this key is apart from the entry, so that no pipeline serves its state.
  have hmissing : ∀ i ∈ r.manager.instances key, ¬ i.state.Compatible e.state := by
    intro i hi
    have hstate : i.state ∈ r.pool.handled.filterMap (StateCacheEntry.stateFor? key) := by
      rw [← h.states_eq key]
      exact List.mem_map_of_mem hi
    obtain ⟨d, hd, hdi⟩ := List.mem_filterMap.1 hstate
    obtain ⟨hdkey, hdstate⟩ := StateCacheEntry.stateFor?_eq_some_iff.1 hdi
    rw [← hdstate]
    exact hpool.apart_of_held hheld d hd (hdkey.trans hkey.symm)
  rw [PipelineManager.prepare_of_missing ho hmissing h.works]
  constructor
  · exact h.works
  · have hlength : (r.pool.settle w e true).handled.length = r.pool.handled.length + 1 :=
      List.length_append
    rw [hlength, ← h.requests_eq]
    rfl
  · intro k
    have hstates := h.states_eq k
    rw [PipelineManager.instances_addCompiled ho]
    simp only [ReplayPool.settle, List.map_append, List.filterMap_append, hstates]
    by_cases hk : key = k <;> simp [StateCacheEntry.stateFor?, hkey, hk]
  · intro v e' k hv
    rw [PipelineManager.object?_addCompiled, Option.isSome_map]
    rcases r.pool.stage_moveTo w .claim v with hclaim | hsame
    · cases hclaim.symm.trans hv
    · exact h.object v e' k (hsame.symm.trans hv)

theorem turn [Fintype ω] (h : r.Tracks) (hpool : r.pool.Replayable S) (w : ω) :
    (r.turn w).Tracks := by
  have hmoved : ∀ stage, (∀ e key, stage ≠ .prepare e key) → ∀ v e key,
      (r.pool.moveTo w stage).stage v = .prepare e key → r.pool.stage v = .prepare e key := by
    intro stage hstage v e key hv
    rcases r.pool.stage_moveTo w stage v with hnew | hsame
    · exact absurd (hnew.symm.trans hv) (hstage e key)
    · exact hsame.symm.trans hv
  have hturn := r.pool.turn_cases w
  rw [PooledReplay.turn]
  generalize r.pool.turn w = result at hturn ⊢
  cases hturn with
  | claim hstage hwaiting => exact h.of_eq rfl (hmoved _ (by simp))
  | finish hstage hwaiting => exact h.of_eq rfl (hmoved _ (by simp))
  | resolve hstage hresolve => exact h.of_eq rfl (hmoved _ (by simp))
  | @skip e hstage hresolve =>
    obtain ⟨shader, -, hsome, -⟩ := hpool.shader_of_held (w := w) (e := e) (by rw [hstage]; rfl)
    cases hresolve.symm.trans hsome
  | create hstage => exact h.create _ _
  | prepare hstage => exact h.prepare hpool hstage
  | rest hstage => exact h

end Tracks

omit [DecidableEq ω] in
theorem Tracks.exists_instance (h : r.Tracks) {e : StateCacheEntry} {key : ShaderKey}
    (he : e ∈ r.pool.handled) (hkey : e.key = ⟨some key⟩) :
    ∃ i ∈ r.manager.instances key, i.state = e.state := by
  have hstate : e.state ∈ (r.manager.instances key).map (·.state) := by
    rw [h.states_eq key]
    exact List.mem_filterMap.2 ⟨e, he, StateCacheEntry.stateFor?_eq_some_iff.2 ⟨hkey, rfl⟩⟩
  exact List.mem_map.1 hstate

theorem madeOf_turn [Fintype ω] (h : r.manager.MadeOf S) (hpool : r.pool.Replayable S) (w : ω) :
    (r.turn w).manager.MadeOf S := by
  have hturn := r.pool.turn_cases w
  rw [turn]
  generalize r.pool.turn w = result at hturn ⊢
  cases hturn with
  | @create e shader hstage =>
    obtain ⟨shader', hmem, hresolve, -⟩ :=
      hpool.shader_of_held (w := w) (e := e) (by rw [hstage]; rfl)
    have hsame := hresolve.symm.trans (hpool.sound.create w e shader hstage)
    exact h.create (Option.some.inj hsame ▸ hmem)
  | prepare hstage => exact h.enter .prepare _ _
  | _ => exact h

theorem run_of_replayable [Fintype ω] (htracks : r.Tracks) (hmade : r.manager.MadeOf S)
    (hpool : r.pool.Replayable S) (schedule : List ω) :
    (r.run schedule).Tracks ∧ (r.run schedule).manager.MadeOf S := by
  induction schedule generalizing r with
  | nil => exact ⟨htracks, hmade⟩
  | cons w schedule ih =>
    exact ih (htracks.turn hpool w) (madeOf_turn hmade hpool w) (hpool.turn w)

section Restored

variable [Fintype ω] [Nonempty ω] {resolve : StateCacheKey → Option ComputeShader}
  {es : List StateCacheEntry} {schedule : List ω}

theorem tracks_of_finished (hreplayable : (.start resolve es : ReplayPool ω).Replayable S)
    (options : PipelineOptions) (device : Device) (cache : Option StateCache)
    (hfinished : ((start (.new options device cache) resolve es).run schedule).pool.Finished) :
    ((start (.new options device cache) resolve es).run schedule).Tracks ∧
      ((start (.new options device cache) resolve es).run schedule).manager.MadeOf S ∧
      ((start (.new options device cache) resolve es).run schedule).pool.handled.Perm es := by
  have htracks : (start (.new options device cache) resolve es : PooledReplay ω).Tracks :=
    ⟨rfl, rfl, fun _ => rfl, fun _ _ _ hstage => by cases hstage⟩
  have hrun := run_of_replayable htracks (PipelineManager.madeOf_new options device cache)
    hreplayable schedule
  refine ⟨hrun.1, hrun.2, ?_⟩
  rw [pool_run] at hfinished ⊢
  have hhandled := ReplayPool.handled_of_finished (hreplayable.sound.run schedule) hfinished
  rw [ReplayPool.entries_run, ReplayPool.entries_start] at hhandled
  exact Multiset.coe_eq_coe.1 hhandled

/-- What a run has recorded, a replay on a new manager restores. It returns, having compiled once
for each entry and skipped none, and leaves the new manager's own cache alone. From then on, a
state that is compatible with an entry is a hit under the entry's key, on the new manager as on
the old one, and what they hand out differs at most in the number and the shader's name. Of the
shaders it is assumed that those of one key have one interface. -/
theorem restores_recorded_pipelines {τ : Type} [DecidableEq τ] {options : PipelineOptions}
    {device : Device} (hon : options.stateCache = true) {shaders : Set ComputeShader}
    (hshaders : ∀ a ∈ shaders, ∀ b ∈ shaders, a.key = b.key → a.interface = b.interface)
    {moves : List (Move τ)} (hcreated : ∀ shader, .create shader ∈ moves → shader ∈ shaders)
    {m : PipelineManager}
    (hm : m = ((SharedManager.start (.new options device (some .empty))).run moves).manager)
    {entries : List StateCacheEntry} (hentries : m.cache = some ⟨entries⟩)
    {resolve : StateCacheKey → Option ComputeShader}
    (hresolve : ∀ e ∈ entries, ∃ shader ∈ shaders,
      resolve e.key = some shader ∧ e.key = ⟨some shader.key⟩)
    (cache : Option StateCache) (schedule : List ω) :
    let r := (start (.new options device cache) resolve entries).run schedule
    ((∀ w, Fintype.card ω + 4 * entries.length ≤ schedule.count w) → r.pool.Finished) ∧
    (r.pool.Finished →
      r.pool.summary = ⟨entries.length, 0⟩ ∧
      r.manager.compiler.requests = entries.length ∧
      r.manager.cache = cache ∧
      ∀ (calls : List PipelineManager.Call), ∀ e ∈ entries, ∀ key s,
        e.key = ⟨some key⟩ → e.state.Compatible s →
        let m' := r.manager.run calls
        ∃ h h', m.get key s = ({ m with stats := m.stats.countHit }, some h) ∧
          m'.get key s = ({ m' with stats := m'.stats.countHit }, some h') ∧
          h'.request.anonymous = h.request.anonymous) := by
  intro r
  subst hm
  obtain ⟨hapart, hserved⟩ := SharedManager.recorded_of_empty options device moves hon hentries
  have hreplayable : (.start resolve entries : ReplayPool ω).Replayable shaders :=
    ReplayPool.replayable_start hresolve hapart
  refine ⟨fun hcount => ?_, fun hfinished => ?_⟩
  · have hmeasure : (.start resolve entries : ReplayPool ω).measure =
        Fintype.card ω + 4 * entries.length := ReplayPool.measure_start resolve entries
    rw [pool_run]
    exact ReplayPool.finished_run fun w => hmeasure ▸ hcount w
  obtain ⟨htracks, hmade, hhandled⟩ :=
    tracks_of_finished hreplayable options device cache hfinished
  refine ⟨?_, ?_, cache_run _ _, ?_⟩
  · rw [pool_run] at hfinished ⊢
    refine ReplayPool.summary_of_resolved (fun e he => ?_) hfinished
    obtain ⟨shader, -, hsome, -⟩ := hresolve e he
    exact Option.isSome_iff_exists.2 ⟨shader, hsome⟩
  · rw [htracks.requests_eq, hhandled.length_eq]
  · intro calls e he key s hkey hcompatible m'
    obtain ⟨callsₘ, hcallsₘ⟩ := SharedManager.exists_run_run
      (SharedManager.start (.new options device (some .empty))) moves
    obtain ⟨callsᵣ, hcallsᵣ⟩ := exists_run_run (start (.new options device cache) resolve entries)
      schedule
    obtain ⟨i, hi, hie⟩ := hserved e he key hkey
    obtain ⟨i', hi', hie'⟩ := htracks.exists_instance (hhandled.mem_iff.2 he) hkey
    have hmadeₘ : ((SharedManager.start (.new options device (some .empty))).run
        moves).manager.MadeOf shaders :=
      SharedManager.madeOf_run (PipelineManager.madeOf_new options device _) hcreated
    exact hmadeₘ.exists_hits hshaders hcallsₘ hmade hcallsᵣ ⟨i, hi, hie.symm ▸ hcompatible⟩
      ⟨i', hi', hie'.symm ▸ hcompatible⟩ [] calls

end Restored

/-- Two threads use the tile shader, one of them again after a failure. -/
def tileMoves : List (Move Bool) :=
  [.create PipelineManager.tileShader, .setFailing true,
    .call true .use PipelineManager.tileShader.key (PipelineManager.boundState 0),
    .setFailing false,
    .call true .use PipelineManager.tileShader.key (PipelineManager.boundState 0),
    .call false .use PipelineManager.tileShader.key .zero, .finish false, .finish true]

def tileManager : PipelineManager :=
  ((SharedManager.start (.new .standard ⟨true, true, 8, 64, 4⟩ (some .empty))).run
    tileMoves).manager

def renamedTile : ComputeShader := { PipelineManager.tileShader with name := "renamed" }

def resolveRenamed : StateCacheKey → Option ComputeShader := fun _ => some renamedTile

def inTurn : List Bool := (List.replicate 10 [true, false]).flatten

theorem restores_tile_pipelines :
    ((start (.new .standard ⟨true, true, 8, 64, 4⟩ none) resolveRenamed
      [.tile .zero, .tile (PipelineManager.boundState 0)]).run inTurn).pool.summary = ⟨2, 0⟩ ∧
    ∃ h h', (tileManager.get PipelineManager.tileShader.key
        (PipelineManager.boundState 7)).2 = some h ∧
      ((((start (.new .standard ⟨true, true, 8, 64, 4⟩ none) resolveRenamed
        [.tile .zero, .tile (PipelineManager.boundState 0)]).run inTurn).manager.run
          [.setFailing true]).get PipelineManager.tileShader.key
            (PipelineManager.boundState 7)).2 = some h' ∧
      h'.request.anonymous = h.request.anonymous := by
  have hon : PipelineOptions.standard.stateCache = true := rfl
  have hshaders : ∀ a ∈ ({PipelineManager.tileShader, renamedTile} : Set ComputeShader),
      ∀ b ∈ ({PipelineManager.tileShader, renamedTile} : Set ComputeShader),
        a.key = b.key → a.interface = b.interface := by
    rintro a (rfl | rfl) b (rfl | rfl) - <;> rfl
  have hcreated : ∀ shader, .create shader ∈ tileMoves →
      shader ∈ ({PipelineManager.tileShader, renamedTile} : Set ComputeShader) := by
    intro shader hmem
    simp only [tileMoves, List.mem_cons, Move.create.injEq, reduceCtorEq, or_false,
      List.not_mem_nil] at hmem
    exact .inl hmem
  have hm : tileManager = ((SharedManager.start (.new .standard ⟨true, true, 8, 64, 4⟩
      (some .empty))).run tileMoves).manager := rfl
  have hentries : tileManager.cache =
      some ⟨[.tile .zero, .tile (PipelineManager.boundState 0)]⟩ := by decide +kernel
  have hresolve : ∀ e ∈ [StateCacheEntry.tile .zero, .tile (PipelineManager.boundState 0)],
      ∃ shader ∈ ({PipelineManager.tileShader, renamedTile} : Set ComputeShader),
        resolveRenamed e.key = some shader ∧ e.key = ⟨some shader.key⟩ := by
    intro e he
    refine ⟨renamedTile, .inr rfl, rfl, ?_⟩
    simp only [List.mem_cons, List.not_mem_nil, or_false] at he
    rcases he with rfl | rfl <;> rfl
  obtain ⟨hreturns, hrestored⟩ := restores_recorded_pipelines hon hshaders hcreated hm
    hentries hresolve none inTurn
  obtain ⟨hsummary, -, -, hhits⟩ := hrestored (hreturns (by decide))
  obtain ⟨h, h', hget, hget', hsame⟩ := hhits [.setFailing true]
    (.tile (PipelineManager.boundState 0)) (by simp) PipelineManager.tileShader.key
    (PipelineManager.boundState 7) rfl ⟨rfl, rfl⟩
  exact ⟨hsummary, h, h', congrArg Prod.snd hget, congrArg Prod.snd hget', hsame⟩

end PooledReplay

end ShaderKit

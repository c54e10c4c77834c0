import ShaderKit.Proofs.CallStages

/-!
# One object for each key

However threads that make objects and workers of replays come after one another, the objects of a
manager are those of the shaders that were the first of their key, in the order in which they came.
An object stays in its place: it keeps its shader, its mapping and its layout, and only gains
pipelines. So two calls that make sure of an object are given the same one exactly if their shaders
have the same key.
-/

namespace ShaderKit

/-- The shaders that are the first of their key. -/
def firstOfKeys (shaders : List ComputeShader) : List ComputeShader :=
  shaders.foldl (fun firsts shader =>
    if shader.key ∈ firsts.map (·.key) then firsts else firsts ++ [shader]) []

section FirstOfKeys

variable {shaders : List ComputeShader} {shader : ComputeShader} {key : ShaderKey}

theorem firstOfKeys_append_of_mem (h : shader.key ∈ (firstOfKeys shaders).map (·.key)) :
    firstOfKeys (shaders ++ [shader]) = firstOfKeys shaders := by
  rw [firstOfKeys, List.foldl_append, ← firstOfKeys, List.foldl_cons, if_pos h, List.foldl_nil]

theorem firstOfKeys_append_of_notMem (h : shader.key ∉ (firstOfKeys shaders).map (·.key)) :
    firstOfKeys (shaders ++ [shader]) = firstOfKeys shaders ++ [shader] := by
  rw [firstOfKeys, List.foldl_append, ← firstOfKeys, List.foldl_cons, if_neg h, List.foldl_nil]

theorem find?_firstOfKeys (shaders : List ComputeShader) (key : ShaderKey) :
    (firstOfKeys shaders).find? (·.key = key) = shaders.find? (·.key = key) := by
  induction shaders using List.reverseRecOn with
  | nil => rfl
  | append_singleton shaders shader ih =>
    rw [List.find?_append, ← ih]
    by_cases hmem : shader.key ∈ (firstOfKeys shaders).map (·.key)
    · rw [firstOfKeys_append_of_mem hmem]
      by_cases hkey : shader.key = key
      · obtain ⟨first, hfirst, hsame⟩ := List.mem_map.1 hmem
        have hsome : ((firstOfKeys shaders).find? (·.key = key)).isSome :=
          List.find?_isSome.2 ⟨first, hfirst, decide_eq_true (hsame.trans hkey)⟩
        obtain ⟨found, hfound⟩ := Option.isSome_iff_exists.1 hsome
        rw [hfound, Option.some_or]
      · rw [List.find?_singleton, if_neg (by simpa using hkey), Option.or_none]
    · rw [firstOfKeys_append_of_notMem hmem, List.find?_append]

theorem mem_keys_firstOfKeys :
    key ∈ (firstOfKeys shaders).map (·.key) ↔ key ∈ shaders.map (·.key) := by
  have hfind := congrArg Option.isSome (find?_firstOfKeys shaders key)
  have hiff : ∀ shaders : List ComputeShader,
      (shaders.find? (·.key = key)).isSome ↔ key ∈ shaders.map (·.key) := by
    intro shaders
    simp
  rw [← hiff, ← hiff, hfind]

theorem nodup_keys_firstOfKeys (shaders : List ComputeShader) :
    ((firstOfKeys shaders).map (·.key)).Nodup := by
  induction shaders using List.reverseRecOn with
  | nil => exact List.nodup_nil
  | append_singleton shaders shader ih =>
    by_cases hmem : shader.key ∈ (firstOfKeys shaders).map (·.key)
    · rw [firstOfKeys_append_of_mem hmem]
      exact ih
    · rw [firstOfKeys_append_of_notMem hmem, List.map_append, List.map_singleton]
      exact ih.append (List.nodup_singleton _) (by simpa using hmem)

end FirstOfKeys

namespace PipelineManager

variable {m m' m₁ m₂ : PipelineManager} {key : ShaderKey} {options : PipelineOptions}
  {shaders : List ComputeShader}

/-- The number of the object of a key: its place among the objects. -/
def objectNumber? (m : PipelineManager) (key : ShaderKey) : Option Nat :=
  m.objects.findIdx? (·.shader.key = key)

/-- The objects are those of the first shaders of each key. -/
structure MadeFrom (options : PipelineOptions) (shaders : List ComputeShader)
    (m : PipelineManager) : Prop where
  options_eq : m.options = options
  shaders_eq : m.objects.map (·.shader) = firstOfKeys shaders
  extends_ofShader : ∀ o ∈ m.objects, (PipelineObject.ofShader options o.shader).Extends o

/-- No object comes or goes; they only gain pipelines. -/
structure Matures (m m' : PipelineManager) : Prop where
  options_eq : m'.options = m.options
  exists_map : ∃ f : PipelineObject → PipelineObject,
    (∀ o : PipelineObject, o.Extends (f o)) ∧ m'.objects = m.objects.map f

theorem matures_of_objects_eq (hoptions : m'.options = m.options)
    (hobjects : m'.objects = m.objects) : m.Matures m' :=
  ⟨hoptions, id, PipelineObject.Extends.refl, by rw [hobjects, List.map_id]⟩

theorem matures_addInstance (m : PipelineManager) (key : ShaderKey) (s : PipelineState)
    (h : PipelineHandle) : m.Matures (m.modifyObject key (·.addInstance s h)) where
  options_eq := rfl
  exists_map := by
    refine ⟨_, fun o => ?_, rfl⟩
    split
    · exact o.extends_addInstance s h
    · exact .refl o

theorem madeFrom_new (options : PipelineOptions) (device : Device) (cache : Option StateCache) :
    (new options device cache).MadeFrom options [] where
  options_eq := rfl
  shaders_eq := rfl
  extends_ofShader _ h := by cases h

theorem MadeFrom.keys_eq (h : m.MadeFrom options shaders) :
    m.objects.map (·.shader.key) = (firstOfKeys shaders).map (·.key) := by
  rw [← h.shaders_eq, List.map_map]
  rfl

theorem MadeFrom.create (h : m.MadeFrom options shaders) (shader : ComputeShader) :
    (m.create shader).MadeFrom options (shaders ++ [shader]) := by
  have hiff : (m.object? shader.key).isSome ↔ shader.key ∈ (firstOfKeys shaders).map (·.key) := by
    rw [isSome_object?_iff, h.keys_eq]
  rw [PipelineManager.create]
  split
  · next hmade =>
    refine ⟨h.options_eq, ?_, h.extends_ofShader⟩
    rw [h.shaders_eq, firstOfKeys_append_of_mem (hiff.1 hmade)]
  · next hnone =>
    refine ⟨h.options_eq, ?_, fun o ho => ?_⟩
    · rw [List.map_append, h.shaders_eq, firstOfKeys_append_of_notMem (mt hiff.2 hnone)]
      rfl
    · rcases List.mem_append.1 ho with ho | ho
      · exact h.extends_ofShader o ho
      · obtain rfl := List.mem_singleton.1 ho
        rw [h.options_eq]
        exact .refl _

theorem MadeFrom.matures (h : m.MadeFrom options shaders) (hm : m.Matures m') :
    m'.MadeFrom options shaders := by
  obtain ⟨f, hf, hobjects⟩ := hm.exists_map
  refine ⟨hm.options_eq.trans h.options_eq, ?_, fun o' ho' => ?_⟩
  · rw [hobjects, List.map_map, ← h.shaders_eq]
    exact List.map_congr_left fun o _ => (hf o).shader_eq
  · rw [hobjects] at ho'
    obtain ⟨o, ho, rfl⟩ := List.mem_map.1 ho'
    rw [(hf o).shader_eq]
    exact (h.extends_ofShader o ho).trans (hf o)

/-- Every object stands where it stood, and is extended. -/
def KeepsPlaces (m m' : PipelineManager) : Prop :=
  ∀ (n : Nat) (o : PipelineObject), m.objects[n]? = some o →
    ∃ o', m'.objects[n]? = some o' ∧ o.Extends o'

theorem KeepsPlaces.refl (m : PipelineManager) : m.KeepsPlaces m :=
  fun _ o ho => ⟨o, ho, .refl o⟩

theorem KeepsPlaces.trans (h : m.KeepsPlaces m₁) (h' : m₁.KeepsPlaces m₂) : m.KeepsPlaces m₂ := by
  intro n o ho
  obtain ⟨o₁, ho₁, hle⟩ := h n o ho
  obtain ⟨o₂, ho₂, hle'⟩ := h' n o₁ ho₁
  exact ⟨o₂, ho₂, hle.trans hle'⟩

theorem keepsPlaces_create (m : PipelineManager) (shader : ComputeShader) :
    m.KeepsPlaces (m.create shader) := by
  rw [PipelineManager.create]
  split
  · exact .refl m
  · intro n o ho
    exact ⟨o, List.getElem?_append_left (List.getElem?_eq_some_iff.1 ho).1 ▸ ho, .refl o⟩

theorem Matures.keepsPlaces (h : m.Matures m') : m.KeepsPlaces m' := by
  intro n o ho
  obtain ⟨f, hf, hobjects⟩ := h.exists_map
  refine ⟨f o, ?_, hf o⟩
  rw [hobjects, List.getElem?_map, ho, Option.map_some]

theorem objectNumber?_eq_some_iff {n : Nat} : m.objectNumber? key = some n ↔
    (∃ o, m.objects[n]? = some o ∧ o.shader.key = key) ∧
      ∀ j < n, ∀ o, m.objects[j]? = some o → o.shader.key ≠ key := by
  rw [objectNumber?, List.findIdx?_eq_some_iff_getElem]
  constructor
  · rintro ⟨hn, hkey, hbefore⟩
    refine ⟨⟨_, List.getElem?_eq_getElem hn, of_decide_eq_true hkey⟩, fun j hj o ho => ?_⟩
    obtain ⟨hlt, rfl⟩ := List.getElem?_eq_some_iff.1 ho
    simpa using hbefore j hj
  · rintro ⟨⟨o, ho, hkey⟩, hbefore⟩
    obtain ⟨hn, rfl⟩ := List.getElem?_eq_some_iff.1 ho
    refine ⟨hn, decide_eq_true hkey, fun j hj => ?_⟩
    simpa using hbefore j hj _ (List.getElem?_eq_getElem (Nat.lt_trans hj hn))

theorem KeepsPlaces.objectNumber? {n : Nat} (h : m.KeepsPlaces m')
    (hn : m.objectNumber? key = some n) : m'.objectNumber? key = some n := by
  rw [objectNumber?_eq_some_iff] at hn ⊢
  obtain ⟨⟨o, ho, hkey⟩, hbefore⟩ := hn
  obtain ⟨o', ho', hextends⟩ := h n o ho
  refine ⟨⟨o', ho', by rw [hextends.shader_eq, hkey]⟩, fun j hj p' hp' => ?_⟩
  have hlt : j < m.objects.length := Nat.lt_trans hj (List.getElem?_eq_some_iff.1 ho).1
  obtain ⟨p, hp, hextends'⟩ := h j _ (List.getElem?_eq_getElem hlt)
  obtain rfl := Option.some.inj (hp.symm.trans hp')
  rw [hextends'.shader_eq]
  exact hbefore j hj _ (List.getElem?_eq_getElem hlt)

theorem exists_objectNumber?_create (m : PipelineManager) (shader : ComputeShader) :
    ∃ n, (m.create shader).objectNumber? shader.key = some n := by
  have hsome : ((m.create shader).object? shader.key).isSome := by
    rw [object?_create, if_pos rfl]
    cases m.object? shader.key <;> rfl
  obtain ⟨o, ho, hkey⟩ := List.mem_map.1 (isSome_object?_iff.1 hsome)
  refine Option.isSome_iff_exists.1 ?_
  rw [objectNumber?, List.findIdx?_isSome, List.any_eq_true]
  exact ⟨o, ho, decide_eq_true hkey⟩

end PipelineManager

theorem PipelineCall.matures_advance (q : PipelineCall) (m : PipelineManager) (stage : CallStage) :
    m.Matures (q.advance m stage).1 := by
  have hadvance := q.advance_cases m stage
  generalize q.advance m stage = result at hadvance ⊢
  cases hadvance with
  | @addForUse h hpurpose => exact m.matures_addInstance q.key q.state h
  | @addAhead h hpurpose => exact m.matures_addInstance q.key q.state h
  | _ => exact PipelineManager.matures_of_objects_eq rfl rfl

namespace OverlappingCalls

variable {τ : Type} [DecidableEq τ]

/-- Only making an object brings a new one. -/
theorem matures_step (c : OverlappingCalls τ) {move : CallMove τ}
    (h : ∀ shader, move ≠ .create shader) : c.manager.Matures (c.step move).manager := by
  cases move with
  | create shader => exact absurd rfl (h shader)
  | setFailing failing => exact PipelineManager.matures_of_objects_eq rfl rfl
  | call thread q =>
    rw [step]
    split <;> exact PipelineManager.matures_of_objects_eq rfl rfl
  | advance thread =>
    rw [step]
    split
    · exact PipelineManager.matures_of_objects_eq rfl rfl
    · next q stage hcall => exact q.matures_advance c.manager stage

end OverlappingCalls

/-- A call that makes sure of the object of a shader: the shader, and the number of the object that
it hands back. -/
structure Creation where
  shader : ComputeShader
  number? : Option Nat
  deriving DecidableEq, Repr

namespace ReplayPool

variable {ω : Type} [DecidableEq ω] {es : List StateCacheEntry} {p : ReplayPool ω}

/-- The entries that wait and those that workers hold are entries of the replay. -/
structure DrawsFrom (es : List StateCacheEntry) (p : ReplayPool ω) : Prop where
  waiting : ∀ e ∈ p.waiting, e ∈ es
  held : ∀ w, ∀ e ∈ (p.stage w).held, e ∈ es

omit [DecidableEq ω] in
theorem drawsFrom_start (resolve : StateCacheKey → Option ComputeShader)
    (es : List StateCacheEntry) : (start resolve es : ReplayPool ω).DrawsFrom es where
  waiting _ h := h
  held _ _ h := by cases h

theorem DrawsFrom.moveTo (h : p.DrawsFrom es) (w : ω) {stage : WorkerStage}
    (hstage : ∀ e ∈ stage.held, e ∈ es) : (p.moveTo w stage).DrawsFrom es where
  waiting := h.waiting
  held v e he := by
    rcases p.stage_moveTo w stage v with hv | hv
    · exact hstage e (hv ▸ he)
    · exact h.held v e (hv ▸ he)

theorem DrawsFrom.turn (h : p.DrawsFrom es) (w : ω) : (p.turn w).2.DrawsFrom es := by
  have hheld := h.held w
  have hturn := p.turn_cases w
  generalize p.turn w = result at hturn ⊢
  cases hturn with
  | @claim e es' hstage hwaiting =>
    have hentries : ∀ e' ∈ e :: es', e' ∈ es := hwaiting ▸ h.waiting
    have hmoved : (p.moveTo w (.resolve e)).DrawsFrom es := h.moveTo w fun e' he' => by
      obtain rfl := Multiset.mem_singleton.1 he'
      exact hentries e' (List.mem_cons_self ..)
    exact ⟨fun e' he' => hentries e' (List.mem_cons_of_mem _ he'), hmoved.held⟩
  | finish hstage hwaiting => exact h.moveTo w fun e he => by cases he
  | resolve hstage hresolve => exact h.moveTo w (by rwa [hstage] at hheld)
  | create hstage => exact h.moveTo w (by rwa [hstage] at hheld)
  | skip hstage hresolve =>
    have hmoved : (p.moveTo w .claim).DrawsFrom es := h.moveTo w fun e he => by cases he
    exact ⟨hmoved.waiting, hmoved.held⟩
  | prepare hstage =>
    have hmoved : (p.moveTo w .claim).DrawsFrom es := h.moveTo w fun e he => by cases he
    exact ⟨hmoved.waiting, hmoved.held⟩
  | rest hstage => exact h

theorem DrawsFrom.run (h : p.DrawsFrom es) (workers : List ω) : (p.run workers).DrawsFrom es := by
  induction workers generalizing p with
  | nil => exact h
  | cons w workers ih => exact ih (h.turn w)

end ReplayPool

namespace OverlappingReplays

variable {τ ρ ω : Type} [DecidableEq τ] [DecidableEq ρ] [DecidableEq ω]

def createdBy? (c : OverlappingReplays τ ρ ω) : ReplayMove τ ρ ω → Option ComputeShader
  | .thread (.create shader) => some shader
  | .thread _ => none
  | .worker r w =>
    match ((c.pools r).turn w).1 with
    | some (.create shader) => some shader
    | _ => none

/-- The calls of threads and workers that make sure of objects, in the order of the schedule. -/
def creations : OverlappingReplays τ ρ ω → List (ReplayMove τ ρ ω) → List Creation
  | _, [] => []
  | c, move :: schedule =>
    ((c.createdBy? move).map fun shader =>
      ⟨shader, (c.step move).shared.manager.objectNumber? shader.key⟩).toList ++
        (c.step move).creations schedule

variable {c : OverlappingReplays τ ρ ω} {move : ReplayMove τ ρ ω} {shader : ComputeShader}

theorem manager_step_of_createdBy?_eq_some (h : c.createdBy? move = some shader) :
    (c.step move).shared.manager = c.shared.manager.create shader := by
  cases move with
  | thread move =>
    cases move with
    | create shader' =>
      cases h
      rfl
    | _ => cases h
  | worker r w =>
    rw [createdBy?] at h
    rw [step, turn]
    cases haction : ((c.pools r).turn w).1 with
    | none =>
      rw [haction] at h
      cases h
    | some action =>
      rw [haction] at h
      cases action with
      | create shader' =>
        cases h
        rfl
      | prepare key s => cases h

theorem matures_step_of_createdBy?_eq_none (h : c.createdBy? move = none) :
    c.shared.manager.Matures (c.step move).shared.manager := by
  have hrefl : c.shared.manager.Matures c.shared.manager :=
    PipelineManager.matures_of_objects_eq rfl rfl
  cases move with
  | thread move =>
    refine c.shared.matures_step fun shader hcreate => ?_
    cases move with
    | create shader' => cases h
    | _ => cases hcreate
  | worker r w =>
    rw [createdBy?] at h
    rw [step, turn]
    cases haction : ((c.pools r).turn w).1 with
    | none => exact hrefl
    | some action =>
      rw [haction] at h
      cases action with
      | create shader' => cases h
      | prepare key s =>
        cases c.shared.calls (.inr (r, w)) with
        | none => exact c.shared.matures_step fun shader hcreate => by cases hcreate
        | some call => exact c.shared.matures_step fun shader hcreate => by cases hcreate

theorem keepsPlaces_step (c : OverlappingReplays τ ρ ω) (move : ReplayMove τ ρ ω) :
    c.shared.manager.KeepsPlaces (c.step move).shared.manager := by
  cases h : c.createdBy? move with
  | none => exact (matures_step_of_createdBy?_eq_none h).keepsPlaces
  | some shader =>
    rw [manager_step_of_createdBy?_eq_some h]
    exact PipelineManager.keepsPlaces_create _ shader

theorem keepsPlaces_run (c : OverlappingReplays τ ρ ω) (schedule : List (ReplayMove τ ρ ω)) :
    c.shared.manager.KeepsPlaces (c.run schedule).shared.manager := by
  induction schedule generalizing c with
  | nil => exact .refl _
  | cons move schedule ih => exact (keepsPlaces_step c move).trans (ih (c.step move))

theorem madeFrom_run {options : PipelineOptions} {shaders : List ComputeShader}
    (h : c.shared.manager.MadeFrom options shaders) (schedule : List (ReplayMove τ ρ ω)) :
    (c.run schedule).shared.manager.MadeFrom options
      (shaders ++ (c.creations schedule).map (·.shader)) := by
  induction schedule generalizing c shaders with
  | nil =>
    rw [creations, List.map_nil, List.append_nil]
    exact h
  | cons move schedule ih =>
    rw [creations, List.map_append, ← List.append_assoc]
    refine ih ?_
    cases hcreated : c.createdBy? move with
    | none =>
      rw [Option.map_none, Option.toList_none, List.map_nil, List.append_nil]
      exact h.matures (matures_step_of_createdBy?_eq_none hcreated)
    | some shader =>
      rw [manager_step_of_createdBy?_eq_some hcreated]
      exact h.create shader

/-- The object that a call was given keeps its number. -/
theorem exists_number_of_mem_creations {schedule : List (ReplayMove τ ρ ω)} {x : Creation}
    (hx : x ∈ c.creations schedule) :
    ∃ n, x.number? = some n ∧
      (c.run schedule).shared.manager.objectNumber? x.shader.key = some n := by
  induction schedule generalizing c with
  | nil => cases hx
  | cons move schedule ih =>
    rw [creations, List.mem_append, Option.mem_toList, Option.map_eq_some_iff] at hx
    rcases hx with ⟨shader, hcreated, rfl⟩ | hx
    · obtain ⟨n, hn⟩ := PipelineManager.exists_objectNumber?_create c.shared.manager shader
      rw [← manager_step_of_createdBy?_eq_some hcreated] at hn
      exact ⟨n, hn, (keepsPlaces_run (c.step move) schedule).objectNumber? hn⟩
    · exact ih hx

theorem pools_step (c : OverlappingReplays τ ρ ω) (move : ReplayMove τ ρ ω) (r : ρ) :
    ∃ workers, (c.step move).pools r = (c.pools r).run workers := by
  cases move with
  | thread move => exact ⟨[], rfl⟩
  | worker r' w =>
    have hmoved : ∃ workers, Function.update c.pools r' ((c.pools r').turn w).2 r =
        (c.pools r).run workers := by
      by_cases hr : r = r'
      · subst hr
        exact ⟨[w], Function.update_self ..⟩
      · exact ⟨[], Function.update_of_ne hr ..⟩
    rw [step, turn]
    cases ((c.pools r').turn w).1 with
    | none => exact hmoved
    | some action =>
      cases action with
      | create shader => exact hmoved
      | prepare key s =>
        cases c.shared.calls (.inr (r', w)) with
        | none => exact ⟨[], rfl⟩
        | some call =>
          dsimp only
          split
          · exact ⟨[], rfl⟩
          · exact hmoved

section Origins

variable {resolve : ρ → StateCacheKey → Option ComputeShader} {entries : ρ → List StateCacheEntry}

/-- The replays resolve keys in the given ways, and their workers stand where they can. -/
structure Replays (resolve : ρ → StateCacheKey → Option ComputeShader)
    (entries : ρ → List StateCacheEntry) (c : OverlappingReplays τ ρ ω) : Prop where
  resolve_eq : ∀ r, (c.pools r).resolve = resolve r
  sound : ∀ r, (c.pools r).Sound
  drawsFrom : ∀ r, (c.pools r).DrawsFrom (entries r)

omit [DecidableEq τ] [DecidableEq ρ] [DecidableEq ω] in
theorem replays_start (shared : OverlappingCalls (τ ⊕ ρ × ω)) :
    Replays resolve entries ⟨shared, fun r => .start (resolve r) (entries r)⟩ where
  resolve_eq _ := rfl
  sound r := ReplayPool.sound_start (resolve r) (entries r)
  drawsFrom r := ReplayPool.drawsFrom_start (resolve r) (entries r)

theorem Replays.step (h : Replays resolve entries c) (move : ReplayMove τ ρ ω) :
    Replays resolve entries (c.step move) := by
  refine ⟨fun r => ?_, fun r => ?_, fun r => ?_⟩ <;> obtain ⟨workers, hrun⟩ := pools_step c move r
  · rw [hrun, ReplayPool.resolve_run, h.resolve_eq]
  · rw [hrun]
    exact (h.sound r).run workers
  · rw [hrun]
    exact (h.drawsFrom r).run workers

omit [DecidableEq τ] [DecidableEq ρ] in
theorem Replays.origin (h : Replays resolve entries c)
    (hcreated : c.createdBy? move = some shader) :
    move = .thread (.create shader) ∨ ∃ r, ∃ e ∈ entries r, resolve r e.key = some shader := by
  cases move with
  | thread move =>
    cases move with
    | create shader' =>
      cases hcreated
      exact .inl rfl
    | _ => cases hcreated
  | worker r w =>
    rw [createdBy?] at hcreated
    have hturn := (c.pools r).turn_cases w
    generalize (c.pools r).turn w = result at hcreated hturn
    cases hturn with
    | @create e shader' hstage =>
      cases hcreated
      have hheld : e ∈ ((c.pools r).stage w).held := by
        rw [hstage]
        exact Multiset.mem_singleton_self e
      refine .inr ⟨r, e, (h.drawsFrom r).held w e hheld, ?_⟩
      rw [← h.resolve_eq]
      exact (h.sound r).create w e shader hstage
    | _ => cases hcreated

theorem Replays.origin_of_mem_creations (h : Replays resolve entries c)
    {schedule : List (ReplayMove τ ρ ω)} {x : Creation} (hx : x ∈ c.creations schedule) :
    .thread (.create x.shader) ∈ schedule ∨
      ∃ r, ∃ e ∈ entries r, resolve r e.key = some x.shader := by
  induction schedule generalizing c with
  | nil => cases hx
  | cons move schedule ih =>
    rw [creations, List.mem_append, Option.mem_toList, Option.map_eq_some_iff] at hx
    rcases hx with ⟨shader, hcreated, rfl⟩ | hx
    · rcases h.origin hcreated with rfl | hentry
      · exact .inl (List.mem_cons_self ..)
      · exact .inr hentry
    · exact (ih (h.step move) hx).imp_left (List.mem_cons_of_mem move)

end Origins

/-- Under every schedule of threads and workers of replays: there is one object for each key that a
call has made sure of, and no other; it has the shader of the first of these calls, the mapping
and the layout of this shader, and stays in its place with all of them for ever. Every call is
given the object of its key, so that two calls are given the same object exactly if their keys are
equal, and there are as many objects as keys. A shader comes from a call of a thread, or a replay
resolves an entry to it. -/
theorem one_object_for_each_key (options : PipelineOptions) (device : Device)
    (cache : Option StateCache) (resolve : ρ → StateCacheKey → Option ComputeShader)
    (entries : ρ → List StateCacheEntry) (schedule later : List (ReplayMove τ ρ ω)) :
    let start : OverlappingReplays τ ρ ω :=
      ⟨.start (.new options device cache), fun r => .start (resolve r) (entries r)⟩
    let m := (start.run schedule).shared.manager
    let creations := start.creations schedule
    let keys := creations.map (·.shader.key)
    (∀ key, m.objects.countP (·.shader.key = key) = if key ∈ keys then 1 else 0) ∧
    (∀ key, (m.object? key).map (·.shader) =
      (creations.map (·.shader)).find? (·.key = key)) ∧
    (∀ o ∈ m.objects, o.mapping = (o.shader.defineSlots .empty).makeDynamic
        options.maxDynamicUniformBuffers options.maxDynamicStorageBuffers ∧
      o.layout = .ofMapping o.mapping) ∧
    m.KeepsPlaces (start.run (schedule ++ later)).shared.manager ∧
    (∀ x ∈ creations, ∃ n o, x.number? = some n ∧ m.objects[n]? = some o ∧
      o.shader.key = x.shader.key) ∧
    (∀ x ∈ creations, ∀ y ∈ creations, x.number? = y.number? ↔ x.shader.key = y.shader.key) ∧
    m.objects.length = keys.toFinset.card ∧
    ∀ x ∈ creations, .thread (.create x.shader) ∈ schedule ∨
      ∃ r, ∃ e ∈ entries r, resolve r e.key = some x.shader := by
  intro start m creations keys
  have hmade : m.MadeFrom options (creations.map (·.shader)) :=
    madeFrom_run (c := start) (PipelineManager.madeFrom_new options device cache) schedule
  have hkeys : m.objects.map (·.shader.key) =
      (firstOfKeys (creations.map (·.shader))).map (·.key) := hmade.keys_eq
  have hnodup := nodup_keys_firstOfKeys (creations.map (·.shader))
  have hmem : ∀ key, key ∈ m.objects.map (·.shader.key) ↔ key ∈ keys := by
    intro key
    rw [hkeys, mem_keys_firstOfKeys, List.map_map]
    rfl
  rw [← hkeys] at hnodup
  have hnumber : ∀ x ∈ creations, ∃ n, x.number? = some n ∧
      m.objectNumber? x.shader.key = some n := fun x hx => exists_number_of_mem_creations hx
  refine ⟨fun key => ?_, fun key => ?_, fun o ho => ?_, ?_, fun x hx => ?_, fun x hx y hy => ?_,
    ?_, fun x hx => (replays_start _).origin_of_mem_creations hx⟩
  · have hcount : m.objects.countP (·.shader.key = key) =
        (m.objects.map (·.shader.key)).count key := by
      rw [List.count_eq_countP, List.countP_map]
      rfl
    rw [hcount, hnodup.count]
    exact if_congr (hmem key) rfl rfl
  · rw [← find?_firstOfKeys, ← hmade.shaders_eq, List.find?_map]
    rfl
  · obtain ⟨-, hmapping, hlayout, -⟩ := hmade.extends_ofShader o ho
    exact ⟨hmapping, hlayout.trans (congrArg PipelineLayout.ofMapping hmapping.symm)⟩
  · have hrun : start.run (schedule ++ later) = (start.run schedule).run later :=
      List.foldl_append
    rw [hrun]
    exact keepsPlaces_run (start.run schedule) later
  · obtain ⟨n, hx, hn⟩ := hnumber x hx
    obtain ⟨⟨o, ho, hkey⟩, -⟩ := PipelineManager.objectNumber?_eq_some_iff.1 hn
    exact ⟨n, o, hx, ho, hkey⟩
  · obtain ⟨n, hxn, hn⟩ := hnumber x hx
    obtain ⟨n', hyn, hn'⟩ := hnumber y hy
    constructor
    · intro hxy
      obtain rfl : n = n' := Option.some.inj (hxn.symm.trans (hxy.trans hyn))
      obtain ⟨⟨o, ho, hkey⟩, -⟩ := PipelineManager.objectNumber?_eq_some_iff.1 hn
      obtain ⟨⟨o', ho', hkey'⟩, -⟩ := PipelineManager.objectNumber?_eq_some_iff.1 hn'
      obtain rfl := Option.some.inj (ho.symm.trans ho')
      exact hkey.symm.trans hkey'
    · intro hkey
      rw [hkey] at hn
      rw [hxn, hyn, ← hn, hn']
  · have hfinset : (m.objects.map (·.shader.key)).toFinset = keys.toFinset := by
      ext key
      rw [List.mem_toFinset, List.mem_toFinset]
      exact hmem key
    rw [← hfinset, List.toFinset_card_of_nodup hnodup, List.length_map]

/-- The worker of a replay holds an entry while a thread makes the object of the same key. -/
def overtakenReplay : OverlappingReplays Unit Unit Unit :=
  ⟨.start (.new .standard ⟨true, true, 8, 64, 4⟩ none), fun _ => SharedManager.tileReplay⟩

def overtaking : List (ReplayMove Unit Unit Unit) :=
  [.worker () (), .worker () (),
    .thread (.create { PipelineManager.tileShader with name := "renamed" }), .worker () ()]

theorem one_object_for_renamed_tile :
    let m := (overtakenReplay.run overtaking).shared.manager
    overtakenReplay.creations overtaking =
        [⟨{ PipelineManager.tileShader with name := "renamed" }, some 0⟩,
          ⟨PipelineManager.tileShader, some 0⟩] ∧
      m.objects.length = 1 ∧
      (m.object? PipelineManager.tileShader.key).map (·.shader.name) = some "renamed" := by
  have hcreations : overtakenReplay.creations overtaking =
      [⟨{ PipelineManager.tileShader with name := "renamed" }, some 0⟩,
        ⟨PipelineManager.tileShader, some 0⟩] := by decide +kernel
  obtain ⟨-, hshader, -, -, -, -, hlength, -⟩ := one_object_for_each_key .standard
    ⟨true, true, 8, 64, 4⟩ none (fun _ : Unit => SharedManager.tileReplay.resolve)
    (fun _ => [.tile (PipelineManager.boundState 0)]) overtaking []
  have hfirst := hshader PipelineManager.tileShader.key
  change _ = ((overtakenReplay.creations overtaking).map (·.shader)).find? _ at hfirst
  change _ = ((overtakenReplay.creations overtaking).map (·.shader.key)).toFinset.card at hlength
  rw [hcreations] at hfirst hlength
  refine ⟨hcreations, hlength.trans (by decide +kernel), ?_⟩
  have hname := congrArg (Option.map (·.name)) hfirst
  rw [Option.map_map] at hname
  exact hname.trans (by decide +kernel)

end OverlappingReplays

end ShaderKit

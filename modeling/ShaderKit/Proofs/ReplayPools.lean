import Mathlib.Algebra.Order.BigOperators.Group.Finset
import Mathlib.Data.Fintype.Card
import ShaderKit.Proofs.ManagerThreads

/-!
# Replays by several workers

The workers of a replay take the entries from a common list. A worker claims the next entry,
resolves its key, makes the object and prepares the pipeline, and other workers may move between
any two of these steps. A pool is what the workers share and where each of them stands; what a
step does to the manager is an action of its own, so that the same pool runs on a manager alone
and among other threads.

No entry is lost or handled twice, whoever moves when: the entries that were handled, those that
workers hold and those that wait are always the entries of the start. Every step brings the pool
nearer to its end, and a replay by one worker is the replay of the entries in order.
-/

namespace ShaderKit

theorem sum_update_add {ι α M : Type*} [DecidableEq ι] [AddCommMonoid M] {S : Finset ι} {i : ι}
    (hi : i ∈ S) (f : ι → α) (a : α) (g : α → M) :
    ∑ j ∈ S, g (Function.update f i a j) + g (f i) = ∑ j ∈ S, g (f j) + g a := by
  have hrest : ∑ j ∈ S.erase i, g (Function.update f i a j) = ∑ j ∈ S.erase i, g (f j) := by
    apply Finset.sum_congr rfl
    intro j hj
    rw [Function.update_of_ne (Finset.ne_of_mem_erase hj)]
  rw [← Finset.add_sum_erase S _ hi, ← Finset.add_sum_erase S (fun j => g (f j)) hi, hrest,
    Function.update_self]
  ac_rfl

/-- What a worker does next. -/
inductive WorkerStage where
  | claim
  | resolve (e : StateCacheEntry)
  | create (e : StateCacheEntry) (shader : ComputeShader)
  | prepare (e : StateCacheEntry) (key : ShaderKey)
  | done
  deriving DecidableEq, Repr

def WorkerStage.held : WorkerStage → Multiset StateCacheEntry
  | claim | done => 0
  | resolve e | create e _ | prepare e _ => {e}

/-- How many steps a worker is away from being done, if it claims no more entries. -/
def WorkerStage.rank : WorkerStage → Nat
  | claim => 1
  | resolve _ => 4
  | create .. => 3
  | prepare .. => 2
  | done => 0

/-- What a worker's step does to the manager. -/
inductive WorkerAction where
  | create (shader : ComputeShader)
  | prepare (key : ShaderKey) (s : PipelineState)
  deriving DecidableEq, Repr

def ReplaySummary.count (s : ReplaySummary) : Bool → ReplaySummary
  | true => { s with replayed := s.replayed + 1 }
  | false => { s with skipped := s.skipped + 1 }

/-- What the workers of a replay share, where each of them stands, and the entries that were
handled in the order in which that was. -/
structure ReplayPool (ω : Type) where
  resolve : StateCacheKey → Option ComputeShader
  waiting : List StateCacheEntry
  stage : ω → WorkerStage
  handled : List StateCacheEntry
  summary : ReplaySummary

namespace ReplayPool

variable {ω : Type} [DecidableEq ω]

def start (resolve : StateCacheKey → Option ComputeShader) (entries : List StateCacheEntry) :
    ReplayPool ω := ⟨resolve, entries, fun _ => .claim, [], ⟨0, 0⟩⟩

def moveTo (p : ReplayPool ω) (w : ω) (stage : WorkerStage) : ReplayPool ω :=
  { p with stage := Function.update p.stage w stage }

/-- A worker has handled the entry that it held. -/
def settle (p : ReplayPool ω) (w : ω) (e : StateCacheEntry) (resolved : Bool) : ReplayPool ω :=
  { p.moveTo w .claim with
    handled := p.handled ++ [e]
    summary := p.summary.count resolved }

/-- A worker's next step. -/
def turn (p : ReplayPool ω) (w : ω) : Option WorkerAction × ReplayPool ω :=
  match p.stage w with
  | .claim =>
    match p.waiting with
    | [] => (none, p.moveTo w .done)
    | e :: es => (none, { p.moveTo w (.resolve e) with waiting := es })
  | .resolve e =>
    match p.resolve e.key with
    | some shader => (none, p.moveTo w (.create e shader))
    | none => (none, p.settle w e false)
  | .create e shader => (some (.create shader), p.moveTo w (.prepare e shader.key))
  | .prepare e key => (some (.prepare key e.state), p.settle w e true)
  | .done => (none, p)

def run (p : ReplayPool ω) (schedule : List ω) : ReplayPool ω :=
  schedule.foldl (fun p w => (p.turn w).2) p

omit [DecidableEq ω] in
/-- A replay returns when all of its workers are done. -/
def Finished (p : ReplayPool ω) : Prop := ∀ w, p.stage w = .done

/-- What a worker's step can be. -/
inductive Turn (p : ReplayPool ω) (w : ω) : Option WorkerAction × ReplayPool ω → Prop
  | claim {e : StateCacheEntry} {es : List StateCacheEntry} (hstage : p.stage w = .claim)
      (hwaiting : p.waiting = e :: es) :
      Turn p w (none, { p.moveTo w (.resolve e) with waiting := es })
  | finish (hstage : p.stage w = .claim) (hwaiting : p.waiting = []) :
      Turn p w (none, p.moveTo w .done)
  | resolve {e : StateCacheEntry} {shader : ComputeShader} (hstage : p.stage w = .resolve e)
      (hresolve : p.resolve e.key = some shader) : Turn p w (none, p.moveTo w (.create e shader))
  | skip {e : StateCacheEntry} (hstage : p.stage w = .resolve e)
      (hresolve : p.resolve e.key = none) : Turn p w (none, p.settle w e false)
  | create {e : StateCacheEntry} {shader : ComputeShader} (hstage : p.stage w = .create e shader) :
      Turn p w (some (.create shader), p.moveTo w (.prepare e shader.key))
  | prepare {e : StateCacheEntry} {key : ShaderKey} (hstage : p.stage w = .prepare e key) :
      Turn p w (some (.prepare key e.state), p.settle w e true)
  | rest (hstage : p.stage w = .done) : Turn p w (none, p)

variable {p : ReplayPool ω} {w : ω}

theorem turn_cases (p : ReplayPool ω) (w : ω) : Turn p w (p.turn w) := by
  rw [turn]
  cases hstage : p.stage w with
  | claim =>
    dsimp only
    split
    · next hwaiting => exact .finish hstage hwaiting
    · next hwaiting => exact .claim hstage hwaiting
  | resolve e =>
    dsimp only
    split
    · next hresolve => exact .resolve hstage hresolve
    · next hresolve => exact .skip hstage hresolve
  | create e shader => exact .create hstage
  | prepare e key => exact .prepare hstage
  | done => exact .rest hstage

theorem run_cons (p : ReplayPool ω) (w : ω) (schedule : List ω) :
    p.run (w :: schedule) = (p.turn w).2.run schedule := rfl

@[simp] theorem resolve_turn : (p.turn w).2.resolve = p.resolve := by
  have h := turn_cases p w
  generalize p.turn w = result at h ⊢
  cases h <;> rfl

theorem resolve_run (p : ReplayPool ω) (schedule : List ω) :
    (p.run schedule).resolve = p.resolve := by
  induction schedule generalizing p with
  | nil => rfl
  | cons w schedule ih => exact (ih _).trans resolve_turn

theorem stage_turn_of_ne {v : ω} (hne : v ≠ w) : (p.turn w).2.stage v = p.stage v := by
  have h := turn_cases p w
  generalize p.turn w = result at h ⊢
  cases h <;> first | rfl | exact Function.update_of_ne hne _ _

theorem stage_turn_eq_done {v : ω} (hdone : p.stage v = .done) :
    (p.turn w).2.stage v = .done := by
  by_cases hv : v = w
  · subst hv
    have h := turn_cases p v
    generalize p.turn v = result at h ⊢
    cases h <;> simp_all
  · rw [stage_turn_of_ne hv, hdone]

theorem stage_run_eq_done {v : ω} (hdone : p.stage v = .done) (schedule : List ω) :
    (p.run schedule).stage v = .done := by
  induction schedule generalizing p with
  | nil => exact hdone
  | cons w schedule ih => exact ih (stage_turn_eq_done hdone)

/-- What holds of the workers' stages, and of the summary. -/
structure Sound (p : ReplayPool ω) : Prop where
  replayed_eq : p.summary.replayed = p.handled.countP fun e => (p.resolve e.key).isSome
  skipped_eq : p.summary.skipped = p.handled.countP fun e => (p.resolve e.key).isNone
  create : ∀ w e shader, p.stage w = .create e shader → p.resolve e.key = some shader
  prepare : ∀ w e key, p.stage w = .prepare e key →
    ∃ shader, p.resolve e.key = some shader ∧ shader.key = key
  done : ∀ w, p.stage w = .done → p.waiting = []

omit [DecidableEq ω] in
theorem sound_start (resolve : StateCacheKey → Option ComputeShader)
    (entries : List StateCacheEntry) : (start resolve entries : ReplayPool ω).Sound := by
  constructor <;> simp [start]

theorem stage_moveTo (p : ReplayPool ω) (w : ω) (stage : WorkerStage) (v : ω) :
    (p.moveTo w stage).stage v = stage ∨ (p.moveTo w stage).stage v = p.stage v := by
  by_cases hv : v = w
  · subst hv
    exact .inl (Function.update_self ..)
  · exact .inr (Function.update_of_ne hv ..)

theorem Sound.moveTo (h : p.Sound) (w : ω) (stage : WorkerStage)
    (hcreate : ∀ e shader, stage = .create e shader → p.resolve e.key = some shader)
    (hprepare : ∀ e key, stage = .prepare e key →
      ∃ shader, p.resolve e.key = some shader ∧ shader.key = key)
    (hdone : stage = .done → p.waiting = []) : (p.moveTo w stage).Sound := by
  have hcases := p.stage_moveTo w stage
  refine ⟨h.replayed_eq, h.skipped_eq, fun v e shader hv => ?_, fun v e key hv => ?_,
    fun v hv => ?_⟩
  · rcases hcases v with hstage | hstage
    · exact hcreate e shader (hstage.symm.trans hv)
    · exact h.create v e shader (hstage.symm.trans hv)
  · rcases hcases v with hstage | hstage
    · exact hprepare e key (hstage.symm.trans hv)
    · exact h.prepare v e key (hstage.symm.trans hv)
  · rcases hcases v with hstage | hstage
    · exact hdone (hstage.symm.trans hv)
    · exact h.done v (hstage.symm.trans hv)

theorem Sound.settle (h : p.Sound) (w : ω) {e : StateCacheEntry} {resolved : Bool}
    (hresolved : (p.resolve e.key).isSome = resolved) : (p.settle w e resolved).Sound := by
  have hmoved := h.moveTo w .claim (by simp) (by simp) (by simp)
  have hreplayed := h.replayed_eq
  have hskipped := h.skipped_eq
  have hnone : (p.resolve e.key).isNone = !resolved := by
    rw [← hresolved]
    cases p.resolve e.key <;> rfl
  refine ⟨?_, ?_, hmoved.create, hmoved.prepare, hmoved.done⟩
  · cases resolved <;>
      simp [ReplayPool.settle, ReplayPool.moveTo, ReplaySummary.count, List.countP_append,
        hresolved, hreplayed]
  · cases resolved <;>
      simp [ReplayPool.settle, ReplayPool.moveTo, ReplaySummary.count, List.countP_append,
        hnone, hskipped]

theorem Sound.turn (h : p.Sound) (w : ω) : (p.turn w).2.Sound := by
  have hturn := turn_cases p w
  generalize p.turn w = result at hturn ⊢
  cases hturn with
  | @claim e es hstage hwaiting =>
    have hmoved := h.moveTo w (.resolve e) (by simp) (by simp) (by simp)
    refine ⟨hmoved.replayed_eq, hmoved.skipped_eq, hmoved.create, hmoved.prepare, fun v hv => ?_⟩
    cases hwaiting.symm.trans (hmoved.done v hv)
  | finish hstage hwaiting => exact h.moveTo w .done (by simp) (by simp) (fun _ => hwaiting)
  | @resolve e shader hstage hresolve =>
    refine h.moveTo w (.create e shader) ?_ (by simp) (by simp)
    rintro e' shader' heq
    cases heq
    exact hresolve
  | skip hstage hresolve => exact h.settle w (by rw [hresolve]; rfl)
  | @create e shader hstage =>
    refine h.moveTo w (.prepare e shader.key) (by simp) ?_ (by simp)
    rintro e' key heq
    cases heq
    exact ⟨shader, h.create w e shader hstage, rfl⟩
  | @prepare e key hstage =>
    obtain ⟨shader, hresolve, -⟩ := h.prepare w e key hstage
    exact h.settle w (by rw [hresolve]; rfl)
  | rest hstage => exact h

theorem Sound.run (h : p.Sound) (schedule : List ω) : (p.run schedule).Sound := by
  induction schedule generalizing p with
  | nil => exact h
  | cons w schedule ih => exact ih (h.turn w)

section Conservation

variable [Fintype ω]

/-- All entries of a replay: those that were handled, those that workers hold, and those that
wait. -/
def entries (p : ReplayPool ω) : Multiset StateCacheEntry :=
  p.handled + ∑ w, (p.stage w).held + p.waiting

omit [DecidableEq ω] in
theorem entries_start (resolve : StateCacheKey → Option ComputeShader)
    (es : List StateCacheEntry) : (start resolve es : ReplayPool ω).entries = es := by
  simp [entries, start, WorkerStage.held]

theorem sum_held_moveTo (p : ReplayPool ω) (w : ω) (stage : WorkerStage) :
    ∑ v, ((p.moveTo w stage).stage v).held + (p.stage w).held =
      ∑ v, (p.stage v).held + stage.held :=
  sum_update_add (Finset.mem_univ w) p.stage stage WorkerStage.held

theorem entries_moveTo {stage : WorkerStage} (h : stage.held = (p.stage w).held) :
    (p.moveTo w stage).entries = p.entries := by
  have hsum := p.sum_held_moveTo w stage
  rw [h] at hsum
  rw [entries, add_right_cancel hsum]
  rfl

theorem entries_settle {e : StateCacheEntry} {resolved : Bool} (h : (p.stage w).held = {e}) :
    (p.settle w e resolved).entries = p.entries := by
  have hsum : ∑ v, ((p.settle w e resolved).stage v).held + {e} = ∑ v, (p.stage v).held := by
    have hmoved := p.sum_held_moveTo w .claim
    rw [h, WorkerStage.held, add_zero] at hmoved
    exact hmoved
  have hhandled : ((p.settle w e resolved).handled : Multiset StateCacheEntry) =
      p.handled + {e} := (Multiset.coe_add p.handled [e]).symm
  rw [entries, hhandled, add_assoc (p.handled : Multiset StateCacheEntry),
    add_comm ({e} : Multiset StateCacheEntry), hsum]
  rfl

theorem entries_claim {e : StateCacheEntry} {es : List StateCacheEntry}
    (hstage : p.stage w = .claim) (hwaiting : p.waiting = e :: es) :
    ({ p.moveTo w (.resolve e) with waiting := es } : ReplayPool ω).entries = p.entries := by
  have hsum := p.sum_held_moveTo w (.resolve e)
  rw [hstage, WorkerStage.held, WorkerStage.held, add_zero] at hsum
  have hwaits : (p.waiting : Multiset StateCacheEntry) = {e} + es := by
    rw [hwaiting, Multiset.singleton_add, Multiset.cons_coe]
  rw [entries, entries, hsum, hwaits]
  simp only [moveTo, add_assoc]

theorem entries_turn (p : ReplayPool ω) (w : ω) : (p.turn w).2.entries = p.entries := by
  have hturn := turn_cases p w
  generalize p.turn w = result at hturn ⊢
  cases hturn with
  | claim hstage hwaiting => exact entries_claim hstage hwaiting
  | finish hstage hwaiting => exact entries_moveTo (by rw [hstage]; rfl)
  | resolve hstage hresolve => exact entries_moveTo (by rw [hstage]; rfl)
  | skip hstage hresolve => exact entries_settle (by rw [hstage]; rfl)
  | create hstage => exact entries_moveTo (by rw [hstage]; rfl)
  | prepare hstage => exact entries_settle (by rw [hstage]; rfl)
  | rest hstage => rfl

theorem entries_run (p : ReplayPool ω) (schedule : List ω) :
    (p.run schedule).entries = p.entries := by
  induction schedule generalizing p with
  | nil => rfl
  | cons w schedule ih => exact (ih _).trans (entries_turn p w)

omit [DecidableEq ω] in
theorem handled_of_finished [Nonempty ω] (hsound : p.Sound) (h : p.Finished) :
    (p.handled : Multiset StateCacheEntry) = p.entries := by
  obtain ⟨w⟩ := ‹Nonempty ω›
  have hheld : ∑ v, (p.stage v).held = 0 := Finset.sum_eq_zero fun v _ => by
    rw [h v, WorkerStage.held]
  rw [entries, hheld, hsound.done w (h w)]
  simp

end Conservation

section Progress

variable [Fintype ω]

/-- A bound on the steps that are left. -/
def measure (p : ReplayPool ω) : Nat := ∑ w, (p.stage w).rank + 4 * p.waiting.length

omit [DecidableEq ω] in
theorem measure_start (resolve : StateCacheKey → Option ComputeShader)
    (es : List StateCacheEntry) :
    (start resolve es : ReplayPool ω).measure = Fintype.card ω + 4 * es.length := by
  simp [measure, start, WorkerStage.rank]

theorem sum_rank_moveTo (p : ReplayPool ω) (w : ω) (stage : WorkerStage) :
    ∑ v, ((p.moveTo w stage).stage v).rank + (p.stage w).rank =
      ∑ v, (p.stage v).rank + stage.rank :=
  sum_update_add (Finset.mem_univ w) p.stage stage WorkerStage.rank

theorem measure_moveTo_lt {stage : WorkerStage} (h : stage.rank < (p.stage w).rank) :
    (p.moveTo w stage).measure < p.measure := by
  have hsum := p.sum_rank_moveTo w stage
  have hwaiting : (p.moveTo w stage).waiting = p.waiting := rfl
  rw [measure, measure, hwaiting]
  omega

theorem measure_settle_lt {e : StateCacheEntry} {resolved : Bool} (h : 1 < (p.stage w).rank) :
    (p.settle w e resolved).measure < p.measure :=
  measure_moveTo_lt (p := p) h

theorem measure_turn_lt (h : p.stage w ≠ .done) : (p.turn w).2.measure < p.measure := by
  have hturn := turn_cases p w
  generalize p.turn w = result at hturn ⊢
  cases hturn with
  | @claim e es hstage hwaiting =>
    have hsum := p.sum_rank_moveTo w (.resolve e)
    rw [hstage, WorkerStage.rank, WorkerStage.rank] at hsum
    rw [measure, measure, hwaiting, List.length_cons]
    simp only
    omega
  | finish hstage hwaiting => exact measure_moveTo_lt (by rw [hstage]; decide)
  | resolve hstage hresolve => exact measure_moveTo_lt (by rw [hstage]; exact Nat.lt_succ_self 3)
  | skip hstage hresolve => exact measure_settle_lt (by rw [hstage]; exact Nat.one_lt_succ_succ 2)
  | create hstage => exact measure_moveTo_lt (by rw [hstage]; exact Nat.lt_succ_self 2)
  | prepare hstage => exact measure_settle_lt (by rw [hstage]; exact Nat.one_lt_two)
  | rest hstage => exact absurd hstage h

theorem measure_turn_le (p : ReplayPool ω) (w : ω) : (p.turn w).2.measure ≤ p.measure := by
  by_cases h : p.stage w = .done
  · rw [turn, h]
  · exact (measure_turn_lt h).le

/-- A worker that is not done after a schedule has used every turn that it had. -/
theorem measure_run_add_count_le {schedule : List ω} (h : (p.run schedule).stage w ≠ .done) :
    (p.run schedule).measure + schedule.count w ≤ p.measure := by
  induction schedule generalizing p with
  | nil => exact Nat.le_refl _
  | cons v schedule ih =>
    have hrest := ih (p := (p.turn v).2) h
    by_cases hv : v = w
    · subst hv
      have hstage : p.stage v ≠ .done := fun hdone =>
        h (stage_run_eq_done (stage_turn_eq_done hdone) schedule)
      have hlt := measure_turn_lt hstage
      rw [List.count_cons_self, run_cons]
      omega
    · have hle := measure_turn_le p v
      rw [List.count_cons_of_ne hv, run_cons]
      omega

/-- A replay returns once every worker has had enough turns. -/
theorem finished_run {schedule : List ω} (h : ∀ w, p.measure ≤ schedule.count w) :
    (p.run schedule).Finished := by
  intro w
  apply Decidable.byContradiction
  intro hstage
  have hle := measure_run_add_count_le hstage
  have hrank : 0 < ((p.run schedule).stage w).rank := by
    cases hs : (p.run schedule).stage w with
    | done => exact absurd hs hstage
    | _ => exact Nat.succ_pos _
  have hsum := Finset.single_le_sum (fun v _ => Nat.zero_le ((p.run schedule).stage v).rank)
    (Finset.mem_univ w)
  have hcount := h w
  rw [measure] at hle
  omega

end Progress

theorem summary_of_finished [Fintype ω] [Nonempty ω]
    {resolve : StateCacheKey → Option ComputeShader} {es : List StateCacheEntry}
    {schedule : List ω} (h : ((start resolve es).run schedule).Finished) :
    ((start resolve es).run schedule).summary =
      ⟨es.countP fun e => (resolve e.key).isSome, es.countP fun e => (resolve e.key).isNone⟩ := by
  have hsound : ((start resolve es : ReplayPool ω).run schedule).Sound :=
    (sound_start resolve es).run schedule
  have hhandled := handled_of_finished hsound h
  rw [entries_run, entries_start, Multiset.coe_eq_coe] at hhandled
  have hreplayed := hsound.replayed_eq
  have hskipped := hsound.skipped_eq
  have hresolve : ((start resolve es : ReplayPool ω).run schedule).resolve = resolve :=
    resolve_run _ _
  rw [hresolve, hhandled.countP_eq] at hreplayed hskipped
  rw [← hreplayed, ← hskipped]

end ReplayPool

namespace PipelineManager

def perform (m : PipelineManager) : WorkerAction → PipelineManager
  | .create shader => m.create shader
  | .prepare key s => m.prepare key s

theorem summary_replay (resolve : StateCacheKey → Option ComputeShader) (m : PipelineManager)
    (es : List StateCacheEntry) :
    (replay resolve m es).2 =
      ⟨es.countP fun e => (resolve e.key).isSome, es.countP fun e => (resolve e.key).isNone⟩ := by
  induction es generalizing m with
  | nil => rfl
  | cons e es ih => cases hresolve : resolve e.key <;> simp [replay, hresolve, ih]

end PipelineManager

/-- A replay on a manager that nobody else calls. -/
structure PooledReplay (ω : Type) where
  manager : PipelineManager
  pool : ReplayPool ω

namespace PooledReplay

variable {ω : Type} [DecidableEq ω]

def start (m : PipelineManager) (resolve : StateCacheKey → Option ComputeShader)
    (entries : List StateCacheEntry) : PooledReplay ω := ⟨m, .start resolve entries⟩

def turn (r : PooledReplay ω) (w : ω) : PooledReplay ω :=
  ⟨(r.pool.turn w).1.elim r.manager r.manager.perform, (r.pool.turn w).2⟩

def run (r : PooledReplay ω) (schedule : List ω) : PooledReplay ω := schedule.foldl turn r

theorem pool_run (r : PooledReplay ω) (schedule : List ω) :
    (r.run schedule).pool = r.pool.run schedule := by
  induction schedule generalizing r with
  | nil => rfl
  | cons w schedule ih => exact ih (r.turn w)

/-- The manager after one worker has handled, from where it stands, all that is left. -/
def remaining (r : PooledReplay Unit) : PipelineManager :=
  match r.pool.stage () with
  | .claim | .done => (PipelineManager.replay r.pool.resolve r.manager r.pool.waiting).1
  | .resolve e => (PipelineManager.replay r.pool.resolve r.manager (e :: r.pool.waiting)).1
  | .create e shader =>
    (PipelineManager.replay r.pool.resolve (r.manager.replayEntry shader e.state)
      r.pool.waiting).1
  | .prepare e key =>
    (PipelineManager.replay r.pool.resolve (r.manager.prepare key e.state) r.pool.waiting).1

theorem remaining_turn (r : PooledReplay Unit) : (r.turn ()).remaining = r.remaining := by
  have hturn := r.pool.turn_cases ()
  rw [turn]
  generalize r.pool.turn () = result at hturn ⊢
  cases hturn <;>
    simp_all [remaining, ReplayPool.moveTo, ReplayPool.settle, PipelineManager.perform,
      PipelineManager.replay, PipelineManager.replayEntry]

theorem remaining_run (r : PooledReplay Unit) (schedule : List Unit) :
    (r.run schedule).remaining = r.remaining := by
  induction schedule generalizing r with
  | nil => rfl
  | cons w schedule ih => exact (ih _).trans (remaining_turn r)

/-- A replay by one worker is the replay of the entries in order. -/
theorem eq_replay_of_finished {m : PipelineManager}
    {resolve : StateCacheKey → Option ComputeShader} {es : List StateCacheEntry}
    {schedule : List Unit}
    (h : ((start m resolve es : PooledReplay Unit).run schedule).pool.Finished) :
    (((start m resolve es : PooledReplay Unit).run schedule).manager,
      ((start m resolve es : PooledReplay Unit).run schedule).pool.summary) =
        PipelineManager.replay resolve m es := by
  have hremaining := (start m resolve es).remaining_run schedule
  have hpool := (start m resolve es).pool_run schedule
  generalize (start m resolve es : PooledReplay Unit).run schedule = r at h hremaining hpool ⊢
  have hsummary : r.pool.summary = (PipelineManager.replay resolve m es).2 := by
    rw [hpool] at h ⊢
    rw [PipelineManager.summary_replay]
    exact ReplayPool.summary_of_finished h
  have hwaiting : r.pool.waiting = [] := by
    have hsound : ((ReplayPool.start resolve es : ReplayPool Unit).run schedule).Sound :=
      (ReplayPool.sound_start resolve es).run schedule
    rw [hpool] at h ⊢
    exact hsound.done () (h ())
  have hmanager : r.remaining = r.manager := by
    rw [remaining, h (), hwaiting]
    rfl
  rw [hsummary, ← hmanager, hremaining]
  rfl

end PooledReplay

end ShaderKit

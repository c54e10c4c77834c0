import Mathlib.Data.List.Induction
import ShaderKit.MemoryCache

/-!
# Histories of a cache

A cache in memory is loaded from a list of entries and then given entries one by one. Its list holds
what it was given, each entry where it came first, and its set holds what the list holds. So the set
answers what a search through the list would answer, and a cache that is loaded from the list of
another has the same list.
-/

namespace ShaderKit

/-- A call on a cache. Loading replaces what the cache holds. -/
inductive CacheCall where
  | load (entries : List StateCacheEntry)
  | add (entry : StateCacheEntry)
  deriving DecidableEq, Repr

namespace CacheCall

def extend (given : List StateCacheEntry) : CacheCall → List StateCacheEntry
  | load entries => entries
  | add entry => given ++ [entry]

/-- The entries that calls give to a cache: those of the last load and those that follow. -/
def given (calls : List CacheCall) : List StateCacheEntry := calls.foldl extend []

end CacheCall

theorem eraseDups_eq_self {α : Type} [BEq α] [LawfulBEq α] {as : List α} (h : as.Nodup) :
    as.eraseDups = as := by
  induction as with
  | nil => rfl
  | cons a as ih =>
    obtain ⟨ha, has⟩ := List.nodup_cons.1 h
    have hkept : (as.filter fun b => !b == a) = as := by
      apply List.filter_eq_self.2
      intro b hb
      have hne : b ≠ a := fun heq => ha (heq ▸ hb)
      simpa using hne
    rw [List.eraseDups_cons, hkept, ih has]

namespace StateCache

theorem ofEntries_append_singleton (es : List StateCacheEntry) (e : StateCacheEntry) :
    ofEntries (es ++ [e]) = (ofEntries es).add e := by
  rw [ofEntries, addAll, List.foldl_append]
  rfl

theorem entries_ofEntries (es : List StateCacheEntry) :
    (ofEntries es).entries = es.eraseDups := by
  have hkept : (es.filter fun e => e ∉ empty.entries) = es := by
    apply List.filter_eq_self.2
    intro e _
    exact decide_eq_true List.not_mem_nil
  rw [ofEntries, entries_addAll, hkept]
  rfl

theorem nodup_entries_ofEntries (es : List StateCacheEntry) : (ofEntries es).entries.Nodup := by
  induction es using List.reverseRecOn with
  | nil => exact List.nodup_nil
  | append_singleton es e ih =>
    rw [ofEntries_append_singleton]
    exact nodup_entries_add e ih

def apply (c : StateCache) : CacheCall → StateCache
  | .load entries => .ofEntries entries
  | .add entry => c.add entry

def run (c : StateCache) (calls : List CacheCall) : StateCache := calls.foldl apply c

theorem apply_ofEntries (given : List StateCacheEntry) (call : CacheCall) :
    (ofEntries given).apply call = ofEntries (call.extend given) := by
  cases call with
  | load entries => rfl
  | add entry => exact (ofEntries_append_singleton given entry).symm

theorem run_ofEntries (given : List StateCacheEntry) (calls : List CacheCall) :
    (ofEntries given).run calls = ofEntries (calls.foldl CacheCall.extend given) := by
  induction calls generalizing given with
  | nil => rfl
  | cons call calls ih =>
    have hrest := ih (call.extend given)
    rw [← apply_ofEntries] at hrest
    exact hrest

end StateCache

namespace MemoryCache

variable {c : MemoryCache}

def apply (c : MemoryCache) : CacheCall → MemoryCache
  | .load entries => .ofEntries entries
  | .add entry => c.add entry

def run (c : MemoryCache) (calls : List CacheCall) : MemoryCache := calls.foldl apply c

/-- The set holds the entries of the list and no others. -/
def Mirrors (c : MemoryCache) : Prop := ∀ e, e ∈ c.seen ↔ e ∈ c.entries

theorem mirrors_empty : empty.Mirrors := fun e => by simp [empty]

theorem Mirrors.add_of_mem (h : c.Mirrors) {e : StateCacheEntry} (he : e ∈ c.entries) :
    c.add e = c :=
  MemoryCache.add_of_mem ((h e).2 he)

theorem Mirrors.add_of_notMem (h : c.Mirrors) {e : StateCacheEntry} (he : e ∉ c.entries) :
    c.add e = ⟨c.entries ++ [e], c.seen.insert e⟩ :=
  MemoryCache.add_of_notMem fun hseen => he ((h e).1 hseen)

theorem Mirrors.add (h : c.Mirrors) (e : StateCacheEntry) : (c.add e).Mirrors := by
  by_cases he : e ∈ c.entries
  · rw [h.add_of_mem he]
    exact h
  · rw [h.add_of_notMem he]
    intro d
    rw [Std.HashSet.mem_insert, List.mem_append, List.mem_singleton, h d, beq_iff_eq, or_comm,
      eq_comm (a := e)]

/-- Without the set, the entry is looked for in the list. -/
theorem Mirrors.records_add (h : c.Mirrors) (e : StateCacheEntry) :
    (c.add e).records = c.records.add e := by
  by_cases he : e ∈ c.entries
  · rw [h.add_of_mem he, StateCache.add_of_mem he]
  · rw [h.add_of_notMem he]
    exact (if_neg he).symm

theorem Mirrors.foldl_add (h : c.Mirrors) (es : List StateCacheEntry) :
    (es.foldl MemoryCache.add c).Mirrors ∧
      (es.foldl MemoryCache.add c).records = c.records.addAll es := by
  induction es generalizing c with
  | nil => exact ⟨h, rfl⟩
  | cons e es ih =>
    obtain ⟨hmirrors, hrecords⟩ := ih (h.add e)
    rw [h.records_add] at hrecords
    exact ⟨hmirrors, hrecords⟩

theorem mirrors_ofEntries (es : List StateCacheEntry) : (ofEntries es).Mirrors :=
  (mirrors_empty.foldl_add es).1

theorem records_ofEntries (es : List StateCacheEntry) :
    (ofEntries es).records = .ofEntries es :=
  (mirrors_empty.foldl_add es).2

theorem Mirrors.apply (h : c.Mirrors) (call : CacheCall) :
    (c.apply call).Mirrors ∧ (c.apply call).records = c.records.apply call := by
  cases call with
  | load entries => exact ⟨mirrors_ofEntries entries, records_ofEntries entries⟩
  | add entry => exact ⟨h.add entry, h.records_add entry⟩

/-- A cache with the set and one without it stay in step. -/
theorem Mirrors.run (h : c.Mirrors) (calls : List CacheCall) :
    (c.run calls).Mirrors ∧ (c.run calls).records = c.records.run calls := by
  induction calls generalizing c with
  | nil => exact ⟨h, rfl⟩
  | cons call calls ih =>
    obtain ⟨hcall, hrecord⟩ := h.apply call
    obtain ⟨hmirrors, hrecords⟩ := ih hcall
    rw [hrecord] at hrecords
    exact ⟨hmirrors, hrecords⟩

/-- After any calls, the list of a cache is what it was given without the later repetitions, where
entries are repetitions if they agree in the key and in the whole state. The set holds the entries
of the list and no others, so that a listed entry that is given again changes nothing. A cache that
is loaded from the list has that list again. A cache without a set, which searches its list, comes
to the same list. -/
theorem lists_first_occurrences (calls : List CacheCall) :
    let c := empty.run calls
    (c.entries = (CacheCall.given calls).eraseDups ∧ c.entries.Nodup ∧
        c.size = c.entries.length) ∧
      (∀ e, e ∈ c.seen ↔ e ∈ c.entries) ∧
      (∀ e ∈ c.entries, c.add e = c) ∧
      (ofEntries c.entries).entries = c.entries ∧
      c.records = StateCache.empty.run calls := by
  intro c
  obtain ⟨hmirrors, hrecords⟩ := mirrors_empty.run calls
  have hgiven : c.records = .ofEntries (CacheCall.given calls) :=
    hrecords.trans (StateCache.run_ofEntries [] calls)
  have hlist : c.entries = (StateCache.ofEntries (CacheCall.given calls)).entries :=
    congrArg StateCache.entries hgiven
  have hentries : c.entries = (CacheCall.given calls).eraseDups :=
    hlist.trans (StateCache.entries_ofEntries _)
  have hnodup : c.entries.Nodup := by
    rw [hlist]
    exact StateCache.nodup_entries_ofEntries _
  have hload : (ofEntries c.entries).entries = c.entries.eraseDups :=
    (congrArg StateCache.entries (records_ofEntries _)).trans (StateCache.entries_ofEntries _)
  refine ⟨⟨hentries, hnodup, rfl⟩, hmirrors, ?_, ?_, hrecords⟩
  · intro e he
    exact hmirrors.add_of_mem he
  · rw [hload]
    exact eraseDups_eq_self hnodup

def zeroKey : StateCacheKey := ⟨some ⟨.compute, Vector.replicate _ 0⟩⟩

/-- An entry with nothing bound and with one value for all push constants. -/
def entryOf (key : StateCacheKey) (constant : UInt32) : StateCacheEntry :=
  ⟨key, { PipelineState.zero with pushConstants := Vector.replicate _ constant }⟩

/-- A cache is loaded with a repetition and then given entries, a new one that differs from an old
one in its push constants only, and old ones. -/
def repeatedEntries : List CacheCall :=
  [.add (entryOf zeroKey 9), .load [entryOf ⟨none⟩ 0, entryOf zeroKey 0, entryOf ⟨none⟩ 0],
    .add (entryOf zeroKey 7), .add (entryOf zeroKey 0), .add (entryOf zeroKey 7)]

theorem entries_of_repeatedEntries :
    let c := empty.run repeatedEntries
    c.entries = [entryOf ⟨none⟩ 0, entryOf zeroKey 0, entryOf zeroKey 7] ∧
      c.add (entryOf zeroKey 0) = c ∧ (ofEntries c.entries).entries = c.entries := by
  intro c
  obtain ⟨⟨hentries, -⟩, -, hagain, hload, -⟩ := lists_first_occurrences repeatedEntries
  have hlist : c.entries = [entryOf ⟨none⟩ 0, entryOf zeroKey 0, entryOf zeroKey 7] :=
    hentries.trans (by decide +kernel)
  refine ⟨hlist, hagain _ ?_, hload⟩
  rw [hlist]
  exact List.mem_cons_of_mem _ List.mem_cons_self

end MemoryCache

end ShaderKit

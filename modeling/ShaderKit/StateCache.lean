import ShaderKit.PipelineState
import ShaderKit.ShaderKey

/-!
# State caches

A state cache records under which states the pipelines of which shaders were compiled, so
that a later run can compile them ahead. Entries keep the order in which they first came, and
an entry that is already there is not recorded again.
-/

namespace ShaderKit

structure StateCacheKey where
  compute : Option ShaderKey
  deriving DecidableEq, Repr

/-- One record: shaders and the whole state, push constants included. -/
structure StateCacheEntry where
  key : StateCacheKey
  state : PipelineState
  deriving DecidableEq, Repr

structure StateCache where
  entries : List StateCacheEntry
  deriving DecidableEq, Repr

namespace StateCache

def empty : StateCache := ⟨[]⟩

/-- Records an entry, unless it is there already. -/
def add (c : StateCache) (e : StateCacheEntry) : StateCache :=
  if e ∈ c.entries then c else ⟨c.entries ++ [e]⟩

def addAll (c : StateCache) (es : List StateCacheEntry) : StateCache := es.foldl add c

def ofEntries (es : List StateCacheEntry) : StateCache := empty.addAll es

def size (c : StateCache) : Nat := c.entries.length

theorem add_of_mem {c : StateCache} {e : StateCacheEntry} (h : e ∈ c.entries) :
    c.add e = c := if_pos h

/-- Behind the records that were there stand the new ones in order, each once. -/
theorem entries_addAll (c : StateCache) (es : List StateCacheEntry) :
    (c.addAll es).entries = c.entries ++ (es.filter fun e => e ∉ c.entries).eraseDups := by
  induction es generalizing c with
  | nil => simp [addAll]
  | cons e es ih =>
    have hstep : c.addAll (e :: es) = (c.add e).addAll es := rfl
    rw [hstep, ih]
    by_cases he : e ∈ c.entries
    · rw [add_of_mem he, List.filter_cons_of_neg (by simpa using he)]
    · have hadd : (c.add e).entries = c.entries ++ [e] := by rw [add, if_neg he]
      rw [hadd, List.filter_cons_of_pos (by simpa using he), List.eraseDups_cons,
        List.filter_filter, List.append_assoc, List.singleton_append]
      congr 3
      apply List.filter_congr
      intro d _
      by_cases hd : d = e <;> simp [hd]

theorem nodup_entries_add {c : StateCache} (e : StateCacheEntry) (h : c.entries.Nodup) :
    (c.add e).entries.Nodup := by
  unfold add
  split
  · exact h
  · next hn =>
    refine List.nodup_append.2 ⟨h, List.pairwise_singleton _ _, ?_⟩
    intro a ha b hb hab
    rw [List.mem_singleton] at hb
    exact hn (hb ▸ hab ▸ ha)

end StateCache

end ShaderKit

import Std.Data.HashSet
import ShaderKit.StateCache

/-!
# State caches in memory

A cache in memory keeps its records in a list, for their order, and in a hash set as well, in which
a record is found without a search through the list.
-/

namespace ShaderKit

instance hashableVector {α : Type} {n : Nat} [Hashable α] : Hashable (Vector α n) :=
  ⟨fun v => hash v.toList⟩

deriving instance Hashable for ShaderStage, ShaderKey, StateCacheKey, BindingMask, PipelineState,
  StateCacheEntry

/-- The records of a cache in order, and the set of them. -/
structure MemoryCache where
  entries : List StateCacheEntry
  seen : Std.HashSet StateCacheEntry

namespace MemoryCache

def empty : MemoryCache := ⟨[], ∅⟩

def add (c : MemoryCache) (e : StateCacheEntry) : MemoryCache :=
  if c.seen.contains e then c else ⟨c.entries ++ [e], c.seen.insert e⟩

def ofEntries (es : List StateCacheEntry) : MemoryCache := es.foldl add empty

def size (c : MemoryCache) : Nat := c.entries.length

def records (c : MemoryCache) : StateCache := ⟨c.entries⟩

theorem add_of_mem {c : MemoryCache} {e : StateCacheEntry} (h : e ∈ c.seen) : c.add e = c :=
  if_pos (Std.HashSet.mem_iff_contains.1 h)

theorem add_of_notMem {c : MemoryCache} {e : StateCacheEntry} (h : e ∉ c.seen) :
    c.add e = ⟨c.entries ++ [e], c.seen.insert e⟩ :=
  if_neg fun hc => h (Std.HashSet.mem_iff_contains.2 hc)

end MemoryCache

end ShaderKit

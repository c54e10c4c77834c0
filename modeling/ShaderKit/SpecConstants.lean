import ShaderKit.PipelineState

/-!
# Specialization constants

Constants that are fixed when a pipeline is compiled are given as pairs of an identifier and a
32-bit value. Each identifier stands once, at the place where it was first set. The compiler
gets the values in one block and a map that says where each stands in it.
-/

namespace ShaderKit

/-- Where the value of a constant stands in the block of values, in bytes. -/
structure SpecMapEntry where
  id : Nat
  offset : Nat
  size : Nat
  deriving DecidableEq, Repr

/-- Specialization constants in the order in which they were first set. -/
structure SpecConstants where
  entries : List (Nat × UInt32)
  deriving DecidableEq, Repr

namespace SpecConstants

def empty : SpecConstants := ⟨[]⟩

def get? (c : SpecConstants) (id : Nat) : Option UInt32 :=
  (c.entries.find? (·.1 == id)).map (·.2)

/-- Sets the value of an identifier, in its old place if it has one and else at the end. -/
def set (c : SpecConstants) (id : Nat) (value : UInt32) : SpecConstants :=
  if c.entries.any (·.1 == id) then
    ⟨c.entries.map fun e => if e.1 == id then (id, value) else e⟩
  else ⟨c.entries ++ [(id, value)]⟩

def setBool (c : SpecConstants) (id : Nat) (value : Bool) : SpecConstants :=
  c.set id (if value then 1 else 0)

def ids (c : SpecConstants) : List Nat := c.entries.map (·.1)

def data (c : SpecConstants) : List UInt32 := c.entries.map (·.2)

/-- Where each constant stands in the block: values take four bytes, one behind the other. -/
def map (c : SpecConstants) : List SpecMapEntry :=
  c.ids.mapIdx fun i id => ⟨id, 4 * i, 4⟩

theorem ids_set (c : SpecConstants) (id : Nat) (value : UInt32) :
    (c.set id value).ids = if id ∈ c.ids then c.ids else c.ids ++ [id] := by
  have hmem : c.entries.any (·.1 == id) = true ↔ id ∈ c.ids := by
    simp [ids]
  unfold set
  by_cases h : id ∈ c.ids
  · rw [if_pos (hmem.2 h), if_pos h]
    simp only [ids, List.map_map]
    apply List.map_congr_left
    intro e _
    simp only [Function.comp_apply]
    split
    · next he => exact (beq_iff_eq.1 he).symm
    · rfl
  · rw [if_neg (fun h' => h (hmem.1 h')), if_neg h]
    simp [ids]

/-- Setting a constant is seen under its own identifier and under no other. -/
theorem get?_set (c : SpecConstants) (id other : Nat) (value : UInt32) :
    (c.set id value).get? other = if other = id then some value else c.get? other := by
  obtain ⟨es⟩ := c
  by_cases h : es.any (·.1 == id)
  · simp only [set, get?, if_pos h]
    induction es with
    | nil => simp at h
    | cons e es ih =>
      by_cases he : e.1 = id
      · by_cases ho : other = id
        · simp [he, ho]
        · have hrest : ∀ l : List (Nat × UInt32),
              (l.map fun e => if e.1 == id then (id, value) else e).find? (·.1 == other) =
                l.find? (·.1 == other) := by
            intro l
            induction l with
            | nil => rfl
            | cons d l ih =>
              by_cases hd : d.1 = id <;> simp_all [List.find?_cons, Ne.symm ho]
          rw [hrest, if_neg ho]
      · have hes : es.any (·.1 == id) := by simpa [he] using h
        have := ih hes
        by_cases ho : e.1 = other
        · simp [ho, show other ≠ id from fun h' => he (ho.trans h')]
        · simpa [he, ho, List.find?_cons] using this
  · have hnone : es.find? (·.1 == id) = none :=
      List.find?_eq_none.2 fun e he hid => h (List.any_eq_true.2 ⟨e, he, hid⟩)
    simp only [set, get?, if_neg h, List.find?_append]
    by_cases ho : other = id
    · simp [ho, hnone]
    · simp [ho, Ne.symm ho]

end SpecConstants

/-- The identifier of a constant of the user. Those below are the bindings' own. -/
def specId (index : Nat) : Nat := bindingSlots + index

namespace PipelineState

def setBindingFlags (s : PipelineState) (count : Nat) (c : SpecConstants) : SpecConstants :=
  (List.range (min count bindingSlots)).foldl (fun c i => c.setBool i (s.bindings.test i)) c

def setUserConstants (s : PipelineState) (c : SpecConstants) : SpecConstants :=
  s.specConstants.toList.zipIdx.foldl (fun c (value, i) => c.set (specId i) value) c

/-- The constants under which a pipeline with the given number of bindings is compiled for a
state: for each binding whether it is bound, then the constants of the user. -/
def specConstantsFor (s : PipelineState) (bindingCount : Nat) : SpecConstants :=
  s.setUserConstants (s.setBindingFlags bindingCount .empty)

end PipelineState

end ShaderKit

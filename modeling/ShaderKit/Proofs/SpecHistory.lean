import Mathlib.Algebra.Ring.Nat
import Mathlib.Data.List.Induction
import ShaderKit.SpecBlock
import ShaderKit.Proofs.VariantConstants

/-!
# Histories of specialization constants

Specialization constants are made by calls that set them. Each has its place from the first call
that sets it, and its value from the last one. A block of values and a map in step with it give the
same as a list of pairs: they are what the list says, row by row, as long as offsets fit 32 bits.
-/

namespace ShaderKit

inductive SpecCall where
  | set (id : Nat) (value : UInt32)
  | setBool (id : Nat) (value : Bool)
  deriving DecidableEq, Repr

namespace SpecCall

def id : SpecCall → Nat
  | set id _ | setBool id _ => id

def value : SpecCall → UInt32
  | set _ value => value
  | setBool _ value => if value then 1 else 0

/-- The identifiers that calls set, in the order in which they are first set. -/
def firstIds (calls : List SpecCall) : List Nat := (calls.map SpecCall.id).eraseDups

/-- The value that the last of the calls on an identifier sets. -/
def lastValue? (calls : List SpecCall) (id : Nat) : Option UInt32 :=
  ((calls.filter (·.id = id)).getLast?).map value

theorem mem_firstIds {calls : List SpecCall} {id : Nat} :
    id ∈ firstIds calls ↔ ∃ call ∈ calls, call.id = id := by
  rw [firstIds, List.mem_eraseDups, List.mem_map]

theorem firstIds_append (calls : List SpecCall) (call : SpecCall) :
    firstIds (calls ++ [call]) =
      if call.id ∈ firstIds calls then firstIds calls else firstIds calls ++ [call.id] := by
  have hnew : (List.map SpecCall.id [call]).removeAll (calls.map SpecCall.id) =
      if call.id ∈ firstIds calls then [] else [call.id] := by
    by_cases h : call.id ∈ firstIds calls
    · have hmem : call.id ∈ calls.map SpecCall.id := List.mem_eraseDups.1 h
      simpa [List.removeAll, h] using hmem
    · have hmem : call.id ∉ calls.map SpecCall.id := fun hmem => h (List.mem_eraseDups.2 hmem)
      simpa [List.removeAll, h] using hmem
  rw [firstIds, List.map_append, List.eraseDups_append, hnew]
  split
  · exact List.append_nil _
  · rfl

theorem lastValue?_append (calls : List SpecCall) (call : SpecCall) (id : Nat) :
    lastValue? (calls ++ [call]) id =
      if id = call.id then some call.value else lastValue? calls id := by
  rw [lastValue?, List.filter_append]
  by_cases h : id = call.id
  · simp [h]
  · simp [h, Ne.symm h, lastValue?]

end SpecCall

namespace SpecConstants

variable {c : SpecConstants} {id k : Nat} {value : UInt32}

def apply (c : SpecConstants) : SpecCall → SpecConstants
  | .set id value => c.set id value
  | .setBool id value => c.setBool id value

def run (c : SpecConstants) (calls : List SpecCall) : SpecConstants := calls.foldl apply c

theorem apply_eq_set (c : SpecConstants) (call : SpecCall) :
    c.apply call = c.set call.id call.value := by
  cases call <;> rfl

theorem run_append (c : SpecConstants) (calls : List SpecCall) (call : SpecCall) :
    c.run (calls ++ [call]) = (c.run calls).set call.id call.value := by
  rw [run, List.foldl_append, List.foldl_cons, List.foldl_nil, apply_eq_set]
  rfl

theorem ids_run_empty (calls : List SpecCall) :
    (empty.run calls).ids = SpecCall.firstIds calls := by
  induction calls using List.reverseRecOn with
  | nil => rfl
  | append_singleton calls call ih => rw [run_append, ids_set, ih, SpecCall.firstIds_append]

theorem get?_run_empty (calls : List SpecCall) (id : Nat) :
    (empty.run calls).get? id = SpecCall.lastValue? calls id := by
  induction calls using List.reverseRecOn with
  | nil => rfl
  | append_singleton calls call ih => rw [run_append, get?_set, ih, SpecCall.lastValue?_append]

theorem nodup_ids_set (h : c.ids.Nodup) (id : Nat) (value : UInt32) :
    (c.set id value).ids.Nodup := by
  rw [ids_set]
  split
  · exact h
  · next hnew => exact List.Nodup.append h (List.nodup_singleton id) (by simpa using hnew)

theorem nodup_ids_run_empty (calls : List SpecCall) : (empty.run calls).ids.Nodup := by
  induction calls using List.reverseRecOn with
  | nil => exact List.nodup_nil
  | append_singleton calls call ih =>
    rw [run_append]
    exact nodup_ids_set ih _ _

theorem get?_eq_none_iff : c.get? id = none ↔ id ∉ c.ids := by
  rw [get?, Option.map_eq_none_iff, List.find?_eq_none, ids, List.mem_map]
  constructor
  · rintro h ⟨e, he, rfl⟩
    exact h e he (beq_self_eq_true _)
  · intro h e he hid
    exact h ⟨e, he, beq_iff_eq.1 hid⟩

/-- Where the identifiers are different, each entry is the one that is found. -/
theorem get?_of_mem (h : c.ids.Nodup) (hmem : (id, value) ∈ c.entries) :
    c.get? id = some value := by
  have hfound : c.entries.find? (·.1 == id) = some (id, value) := by
    cases hfind : c.entries.find? (·.1 == id) with
    | none => exact absurd (beq_self_eq_true id) (List.find?_eq_none.1 hfind _ hmem)
    | some e =>
      have hid : e.1 = id := by simpa using List.find?_some hfind
      exact congrArg some (List.inj_on_of_nodup_map h (List.mem_of_find?_eq_some hfind) hmem hid)
  rw [get?, hfound, Option.map_some]

/-- Setting an identifier that has a place changes the value there. -/
theorem data_set_of_getElem? (h : c.ids.Nodup) (hk : c.ids[k]? = some id) (value : UInt32) :
    (c.set id value).data = c.data.set k value := by
  obtain ⟨e, he, rfl⟩ : ∃ e, c.entries[k]? = some e ∧ e.1 = id := by
    rwa [ids, List.getElem?_map, Option.map_eq_some_iff] at hk
  have hany : c.entries.any (·.1 == e.1) = true :=
    List.any_eq_true.2 ⟨e, List.mem_of_getElem? he, beq_self_eq_true _⟩
  have hlt : k < c.data.length := by
    rw [data, List.length_map]
    exact (List.getElem?_eq_some_iff.1 he).1
  rw [set, if_pos hany]
  refine List.ext_getElem? fun j => ?_
  rw [data, List.getElem?_map, List.getElem?_map, List.getElem?_set, if_pos hlt]
  by_cases hj : k = j
  · subst hj
    simp [he]
  · have hother : ∀ d, c.entries[j]? = some d → d.1 ≠ e.1 := by
      intro d hd hid
      have hsame : c.ids[k]? = c.ids[j]? := by
        rw [ids, List.getElem?_map, List.getElem?_map, he, hd, Option.map_some, Option.map_some,
          hid]
      exact hj ((List.getElem?_inj (List.getElem?_eq_some_iff.1 hk).1 h).1 hsame)
    rw [if_neg hj, data, List.getElem?_map]
    cases hd : c.entries[j]? with
    | none => rfl
    | some d => simp [hother d hd]

end SpecConstants

namespace SpecBlock

variable {b : SpecBlock} {c : SpecConstants} {id k : Nat} {value : UInt32}

def apply (b : SpecBlock) : SpecCall → SpecBlock
  | .set id value => b.set id value
  | .setBool id value => b.setBool id value

def run (b : SpecBlock) (calls : List SpecCall) : SpecBlock := calls.foldl apply b

/-- A list of pairs as a map and a block of values. -/
def ofConstants (c : SpecConstants) : SpecBlock :=
  ⟨c.ids.mapIdx fun k id => ⟨id, 4 * k % UInt32.size, 4⟩, c.data⟩

theorem map_id_ofConstants (c : SpecConstants) : (ofConstants c).map.map (·.id) = c.ids := by
  refine List.ext_getElem? fun k => ?_
  rw [List.getElem?_map, ofConstants, List.getElem?_mapIdx]
  cases c.ids[k]? <;> rfl

theorem findIdx?_ofConstants (c : SpecConstants) (id : Nat) :
    (ofConstants c).map.findIdx? (·.id == id) = c.ids.findIdx? (· == id) := by
  rw [← map_id_ofConstants, List.findIdx?_map]
  rfl

/-- Setting a value keeps the map and the block in step. -/
theorem set_ofConstants (h : c.ids.Nodup) (id : Nat) (value : UInt32) :
    (ofConstants c).set id value = ofConstants (c.set id value) := by
  rw [set, findIdx?_ofConstants]
  cases hfind : c.ids.findIdx? (· == id) with
  | some k =>
    obtain ⟨hlt, hid, -⟩ := List.findIdx?_eq_some_iff_getElem.1 hfind
    have hk : c.ids[k]? = some id := List.getElem?_eq_some_iff.2 ⟨hlt, beq_iff_eq.1 hid⟩
    have hids : (c.set id value).ids = c.ids := by
      rw [SpecConstants.ids_set, if_pos (List.mem_of_getElem? hk)]
    simp only [ofConstants, hids, SpecConstants.data_set_of_getElem? h hk]
  | none =>
    have hnew : id ∉ c.ids := by
      intro hmem
      have hne := List.findIdx?_eq_none_iff.1 hfind id hmem
      exact absurd (beq_self_eq_true id) (by rw [hne]; decide)
    have hids : (c.set id value).ids = c.ids ++ [id] := by
      rw [SpecConstants.ids_set, if_neg hnew]
    have hdata : (c.set id value).data = c.data ++ [value] := by
      rw [SpecConstants.data, SpecConstants.entries_set_of_notMem hnew, List.map_append]
      rfl
    have hlength : c.data.length = c.ids.length := by
      rw [SpecConstants.data, SpecConstants.ids, List.length_map, List.length_map]
    simp only [ofConstants, hids, hdata, List.mapIdx_concat, hlength]

theorem run_ofConstants (h : c.ids.Nodup) (calls : List SpecCall) :
    (ofConstants c).run calls = ofConstants (c.run calls) := by
  induction calls generalizing c with
  | nil => rfl
  | cons call calls ih =>
    have hcall : (ofConstants c).apply call = ofConstants (c.apply call) := by
      cases call <;> exact set_ofConstants h _ _
    have hrest := ih (c.apply_eq_set call ▸ SpecConstants.nodup_ids_set h _ _)
    rw [← hcall] at hrest
    exact hrest

theorem run_empty (calls : List SpecCall) :
    empty.run calls = ofConstants (SpecConstants.empty.run calls) :=
  run_ofConstants (c := .empty) List.nodup_nil calls

theorem entries_ofConstants (c : SpecConstants) : (ofConstants c).entries = c.entries := by
  refine List.ext_getElem? fun k => ?_
  rw [entries, List.getElem?_zipWith, ofConstants, List.getElem?_mapIdx, SpecConstants.ids,
    SpecConstants.data, List.getElem?_map, List.getElem?_map]
  cases c.entries[k]? <;> rfl

theorem get?_ofConstants (c : SpecConstants) (id : Nat) : (ofConstants c).get? id = c.get? id := by
  rw [get?, entries_ofConstants, SpecConstants.get?]
  induction c.entries with
  | nil => rfl
  | cons e es ih =>
    by_cases he : e.1 = id
    · simp [he]
    · simp [he, ih]

/-- Offsets of up to as many constants fit 32 bits. -/
theorem map_ofConstants (h : c.ids.length ≤ 2 ^ 30) : (ofConstants c).map = c.map := by
  refine List.ext_getElem? fun k => ?_
  rw [ofConstants, SpecConstants.map, List.getElem?_mapIdx, List.getElem?_mapIdx]
  cases hk : c.ids[k]? with
  | none => rfl
  | some id =>
    have hlt : k < c.ids.length := (List.getElem?_eq_some_iff.1 hk).1
    have hoffset : 4 * k % UInt32.size = 4 * k := Nat.mod_eq_of_lt (by rw [UInt32.size]; omega)
    rw [Option.map_some, Option.map_some, hoffset]

theorem getElem?_map_set {e : SpecMapEntry} (hk : b.map[k]? = some e) (id : Nat) (value : UInt32) :
    (b.set id value).map[k]? = some e := by
  rw [set]
  split
  · exact hk
  · rwa [List.getElem?_append_left (List.getElem?_eq_some_iff.1 hk).1]

theorem getElem?_data_set_of_ne (hlength : b.data.length = b.map.length) {e : SpecMapEntry}
    (hk : b.map[k]? = some e) (hne : e.id ≠ id) (value : UInt32) :
    (b.set id value).data[k]? = b.data[k]? := by
  have hlt : k < b.map.length := (List.getElem?_eq_some_iff.1 hk).1
  rw [set]
  split
  · next j hfind =>
    obtain ⟨hj, hid, -⟩ := List.findIdx?_eq_some_iff_getElem.1 hfind
    have hjk : j ≠ k := by
      rintro rfl
      rw [List.getElem?_eq_getElem hj] at hk
      exact hne (Option.some.inj hk ▸ beq_iff_eq.1 hid)
    exact List.getElem?_set_ne hjk
  · exact List.getElem?_append_left (hlength ▸ hlt)

/-- After any calls that set fewer than a fourth of `2 ^ 32` identifiers, the map and the block of
values are in step. Identifiers stand in the order in which they were first set, each once, and the
offsets are those of values of four bytes in a row. The value of an identifier is the one that was
set last, and one that was never set has none. Setting an identifier leaves every other one its
value, its position and its offset. The list of pairs that the same calls make has the same
entries, map and values. -/
theorem block_follows_calls {calls : List SpecCall}
    (h : (SpecCall.firstIds calls).length < 2 ^ 30) :
    let b := empty.run calls
    (b.map.length = b.data.length ∧ b.map.map (·.id) = SpecCall.firstIds calls ∧
        (b.map.map (·.id)).Nodup ∧
        ∀ (k : Nat) (e : SpecMapEntry), b.map[k]? = some e → e.offset = 4 * k ∧ e.size = 4) ∧
      (∀ id, b.get? id = SpecCall.lastValue? calls id ∧
        (b.get? id = none ↔ ∀ call ∈ calls, call.id ≠ id)) ∧
      (b.entries.map Prod.fst = SpecCall.firstIds calls ∧
        ∀ e ∈ b.entries, SpecCall.lastValue? calls e.1 = some e.2) ∧
      (∀ id value other, other ≠ id → (b.set id value).get? other = b.get? other ∧
        ∀ (k : Nat) (e : SpecMapEntry), b.map[k]? = some e → e.id = other →
          (b.set id value).map[k]? = some e ∧ (b.set id value).data[k]? = b.data[k]?) ∧
      b.entries = (SpecConstants.empty.run calls).entries ∧
      b.map = (SpecConstants.empty.run calls).map ∧
      b.data = (SpecConstants.empty.run calls).data := by
  intro b
  have hnodup := SpecConstants.nodup_ids_run_empty calls
  have hids := SpecConstants.ids_run_empty calls
  have hget := SpecConstants.get?_run_empty calls
  have hb : b = ofConstants (SpecConstants.empty.run calls) := run_empty calls
  generalize SpecConstants.empty.run calls = c at hnodup hids hget hb ⊢
  have hmap : b.map = c.map := hb ▸ map_ofConstants (hids ▸ Nat.le_of_lt h)
  have hmapId : b.map.map (·.id) = c.ids := hb ▸ map_id_ofConstants c
  have hdata : b.data = c.data := hb ▸ rfl
  have hentries : b.entries = c.entries := hb ▸ entries_ofConstants c
  have hbget : ∀ id, b.get? id = c.get? id := hb ▸ get?_ofConstants c
  have hlength : b.data.length = b.map.length := by
    have hlengths := congrArg List.length hmapId
    rw [List.length_map] at hlengths
    rw [hlengths, hdata, SpecConstants.data, SpecConstants.ids, List.length_map, List.length_map]
  refine ⟨⟨hlength.symm, hmapId.trans hids, hmapId ▸ hnodup, ?_⟩, fun id => ⟨?_, ?_⟩, ⟨?_, ?_⟩, ?_,
    hentries, hmap, hdata⟩
  · intro k e hk
    rw [hmap, SpecConstants.map, List.getElem?_mapIdx, Option.map_eq_some_iff] at hk
    obtain ⟨id, -, rfl⟩ := hk
    exact ⟨rfl, rfl⟩
  · rw [hbget, hget]
  · rw [hbget, SpecConstants.get?_eq_none_iff, hids, SpecCall.mem_firstIds]
    simp only [not_exists, not_and, ne_eq]
  · rw [hentries]
    exact hids
  · intro e he
    rw [← hget]
    exact SpecConstants.get?_of_mem hnodup (hentries ▸ he)
  · intro id value other hne
    refine ⟨?_, ?_⟩
    · rw [hb, set_ofConstants hnodup, get?_ofConstants, get?_ofConstants, SpecConstants.get?_set,
        if_neg hne]
    · rintro k e hk rfl
      exact ⟨getElem?_map_set hk id value, getElem?_data_set_of_ne hlength hk hne value⟩

/-- Two identifiers are set in turn, the first one again and then to a truth value. -/
def repeatedSettings : List SpecCall := [.set 7 1, .set 3 2, .set 7 9, .setBool 7 true, .set 3 5]

theorem block_of_repeatedSettings :
    let b := empty.run repeatedSettings
    b = ⟨[⟨7, 0, 4⟩, ⟨3, 4, 4⟩], [1, 5]⟩ ∧ b.get? 7 = some 1 ∧ b.get? 4 = none ∧
      (b.set 3 8).get? 7 = b.get? 7 := by
  intro b
  obtain ⟨-, hget, -, hset, -⟩ := @block_follows_calls repeatedSettings (by decide)
  exact ⟨by decide, (hget 7).1, (hget 4).1, (hset 3 8 7 (by decide)).1⟩

end SpecBlock

namespace PipelineState

/-- The calls that make the constants of a state: one for each binding, then one for each constant
of the user. -/
def specCalls (s : PipelineState) (bindingCount : Nat) : List SpecCall :=
  (List.range (min bindingCount bindingSlots)).map (fun i => .setBool i (s.bindings.test i)) ++
    s.specConstants.toList.zipIdx.map fun (value, i) => .set (specId i) value

theorem run_specCalls (s : PipelineState) (bindingCount : Nat) :
    SpecConstants.empty.run (s.specCalls bindingCount) = s.specConstantsFor bindingCount := by
  rw [SpecConstants.run, specCalls, List.foldl_append, List.foldl_map, List.foldl_map]
  rfl

theorem length_ids_specConstantsFor_le (s : PipelineState) (bindingCount : Nat) :
    (s.specConstantsFor bindingCount).ids.length ≤ bindingSlots + specConstantCount := by
  rw [SpecConstants.ids, entries_specConstantsFor, List.map_append, fst_bindingFlags,
    fst_userConstants, List.length_append, List.length_range, List.length_ofFn]
  exact Nat.add_le_add_right (Nat.min_le_right ..) _

/-- The block that these calls make holds the constants of the state. There are so few of them that
no offset wraps. -/
theorem block_of_specCalls (s : PipelineState) (bindingCount : Nat) :
    let b := SpecBlock.empty.run (s.specCalls bindingCount)
    let c := s.specConstantsFor bindingCount
    b.entries = c.entries ∧ b.map = c.map ∧ b.data = c.data := by
  intro b c
  have hb : b = SpecBlock.ofConstants c :=
    calc b
        = SpecBlock.ofConstants (SpecConstants.empty.run (s.specCalls bindingCount)) :=
          SpecBlock.run_empty _
      _ = SpecBlock.ofConstants c := congrArg _ (s.run_specCalls bindingCount)
  have hlength : c.ids.length ≤ 2 ^ 30 :=
    (s.length_ids_specConstantsFor_le bindingCount).trans (by decide)
  exact ⟨hb ▸ SpecBlock.entries_ofConstants c, hb ▸ SpecBlock.map_ofConstants hlength, hb ▸ rfl⟩

end PipelineState

end ShaderKit

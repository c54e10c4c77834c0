import Mathlib.Data.List.FinRange
import Mathlib.Data.List.Nodup
import ShaderKit.SpecConstants

/-!
# The constants of a variant

A pipeline is compiled for a state with one flag for each binding and the constants of the user
behind them. No identifier is met twice while they are set, and so each lands behind the others.
What is left of the state can be read off the result: two states have the same constants exactly if
the user's constants are the same and the same of the bindings are bound. Push constants, and slots
at which the pipeline has no binding, make no difference.
-/

namespace ShaderKit

namespace SpecConstants

variable {c d : SpecConstants} {id : Nat} {es : List (Nat × UInt32)}

def setAll (c : SpecConstants) (es : List (Nat × UInt32)) : SpecConstants :=
  es.foldl (fun c e => c.set e.1 e.2) c

theorem entries_set_of_notMem (h : id ∉ c.ids) (value : UInt32) :
    (c.set id value).entries = c.entries ++ [(id, value)] := by
  have hany : ¬ c.entries.any (·.1 == id) := by
    simpa [ids] using h
  rw [set, if_neg hany]

/-- Values under new identifiers that are all different land behind those that were there. -/
theorem entries_setAll_of_nodup (h : (c.ids ++ es.map Prod.fst).Nodup) :
    (c.setAll es).entries = c.entries ++ es := by
  induction es generalizing c with
  | nil => exact (List.append_nil _).symm
  | cons e es ih =>
    have hnew : e.1 ∉ c.ids := by
      intro hmem
      exact List.disjoint_of_nodup_append h hmem List.mem_cons_self
    have hids : (c.set e.1 e.2).ids = c.ids ++ [e.1] := by rw [ids_set, if_neg hnew]
    have hrest : ((c.set e.1 e.2).ids ++ es.map Prod.fst).Nodup := by
      rw [hids, List.append_assoc]
      exact h
    calc (c.setAll (e :: es)).entries
        = ((c.set e.1 e.2).setAll es).entries := rfl
      _ = (c.entries ++ [e]) ++ es := by rw [ih hrest, entries_set_of_notMem hnew]
      _ = c.entries ++ e :: es := List.append_assoc ..

/-- The map and the block of values say at each position what the entries say there. -/
theorem getElem?_entries_eq_some_iff {k : Nat} {value : UInt32} :
    c.entries[k]? = some (id, value) ↔
      c.map[k]? = some ⟨id, 4 * k, 4⟩ ∧ c.data[k]? = some value := by
  rw [map, data, ids, List.getElem?_mapIdx, List.getElem?_map, List.getElem?_map]
  cases c.entries[k]? with
  | none => simp
  | some e =>
    obtain ⟨id', value'⟩ := e
    simp

theorem eq_iff_map_eq_and_data_eq : c = d ↔ c.map = d.map ∧ c.data = d.data := by
  constructor
  · rintro rfl
    exact ⟨rfl, rfl⟩
  · rintro ⟨hmap, hdata⟩
    have hentries : c.entries = d.entries := by
      refine List.ext_getElem? fun k => Option.ext fun e => ?_
      rw [getElem?_entries_eq_some_iff, getElem?_entries_eq_some_iff, hmap, hdata]
    exact congrArg SpecConstants.mk hentries

end SpecConstants

namespace PipelineState

variable {s t : PipelineState} {count : Nat}

/-- Whether each of a number of bindings is bound, under the numbers of the bindings. -/
def bindingFlags (s : PipelineState) (count : Nat) : List (Nat × UInt32) :=
  (List.range (min count bindingSlots)).map fun i => (i, if s.bindings.test i then 1 else 0)

def userConstants (s : PipelineState) : List (Nat × UInt32) :=
  List.ofFn fun j : Fin specConstantCount => (bindingSlots + j, s.specConstants[j])

theorem setUserConstants_eq_setAll (s : PipelineState) (c : SpecConstants) :
    s.setUserConstants c = c.setAll s.userConstants := by
  have hconstants : s.userConstants =
      s.specConstants.toList.zipIdx.map fun e => (specId e.2, e.1) := by
    refine List.ext_getElem ?_ fun i hi hi' => ?_
    · rw [userConstants, List.length_ofFn, List.length_map, List.length_zipIdx,
        Vector.length_toList]
    · rw [List.getElem_map, List.getElem_zipIdx, Nat.zero_add, Vector.getElem_toList]
      exact List.getElem_ofFn hi
  rw [hconstants, SpecConstants.setAll, List.foldl_map]
  rfl

theorem specConstantsFor_eq_setAll (s : PipelineState) (count : Nat) :
    s.specConstantsFor count =
      SpecConstants.empty.setAll (s.bindingFlags count ++ s.userConstants) := by
  have hflags : s.setBindingFlags count .empty =
      SpecConstants.empty.setAll (s.bindingFlags count) := by
    rw [bindingFlags, SpecConstants.setAll, List.foldl_map]
    rfl
  rw [specConstantsFor, hflags, setUserConstants_eq_setAll, SpecConstants.setAll,
    SpecConstants.setAll, SpecConstants.setAll, List.foldl_append]

theorem fst_bindingFlags (s : PipelineState) (count : Nat) :
    (s.bindingFlags count).map Prod.fst = List.range (min count bindingSlots) := by
  rw [bindingFlags, List.map_map]
  exact List.map_id _

theorem fst_userConstants (s : PipelineState) :
    s.userConstants.map Prod.fst = List.ofFn fun j : Fin specConstantCount => bindingSlots + j := by
  rw [userConstants, List.map_ofFn]
  rfl

/-- The flags have numbers below those of the user's constants. -/
theorem nodup_fst (s : PipelineState) (count : Nat) :
    ((s.bindingFlags count ++ s.userConstants).map Prod.fst).Nodup := by
  rw [List.map_append, fst_bindingFlags, fst_userConstants]
  refine List.nodup_range.append (List.nodup_ofFn.2 ?_) ?_
  · intro j j' h
    exact Fin.ext (Nat.add_left_cancel h)
  · intro id hflag huser
    obtain ⟨j, rfl⟩ := List.mem_ofFn.1 huser
    have hlt := List.mem_range.1 hflag
    omega

theorem entries_specConstantsFor (s : PipelineState) (count : Nat) :
    (s.specConstantsFor count).entries = s.bindingFlags count ++ s.userConstants := by
  rw [specConstantsFor_eq_setAll]
  exact SpecConstants.entries_setAll_of_nodup (s.nodup_fst count)

theorem bindingFlags_eq_iff :
    s.bindingFlags count = t.bindingFlags count ↔
      ∀ i < min count bindingSlots, s.bindings.test i = t.bindings.test i := by
  have hflag : ∀ a b : Bool, (if a then (1 : UInt32) else 0) = (if b then 1 else 0) ↔ a = b := by
    decide
  simp only [bindingFlags, List.map_inj_left, List.mem_range, Prod.mk.injEq, true_and, hflag]

theorem userConstants_eq_iff :
    s.userConstants = t.userConstants ↔ s.specConstants = t.specConstants := by
  rw [userConstants, userConstants, List.ofFn_inj]
  constructor
  · intro h
    refine Vector.ext fun j hj => ?_
    exact congrArg Prod.snd (congrFun h ⟨j, hj⟩)
  · intro h
    rw [h]

theorem specConstantsFor_eq_iff :
    s.specConstantsFor count = t.specConstantsFor count ↔
      s.specConstants = t.specConstants ∧
        ∀ i < min count bindingSlots, s.bindings.test i = t.bindings.test i := by
  -- Both states have as many flags, so that their user's constants begin at the same place.
  have hlength : (s.bindingFlags count).length = (t.bindingFlags count).length := by
    rw [bindingFlags, bindingFlags, List.length_map, List.length_map]
  rw [← userConstants_eq_iff, ← bindingFlags_eq_iff]
  constructor
  · intro h
    have hentries := congrArg SpecConstants.entries h
    rw [entries_specConstantsFor, entries_specConstantsFor] at hentries
    exact (List.append_inj hentries hlength).symm
  · rintro ⟨huser, hflags⟩
    rw [specConstantsFor_eq_setAll, specConstantsFor_eq_setAll, huser, hflags]

theorem Compatible.specConstantsFor_eq (h : s.Compatible t) (count : Nat) :
    s.specConstantsFor count = t.specConstantsFor count := by
  obtain ⟨hbindings, hconstants⟩ := h
  exact specConstantsFor_eq_iff.2 ⟨hconstants, fun i _ => by rw [hbindings]⟩

theorem nodup_ids_specConstantsFor (s : PipelineState) (count : Nat) :
    (s.specConstantsFor count).ids.Nodup := by
  rw [SpecConstants.ids, entries_specConstantsFor]
  exact s.nodup_fst count

/-- The constants of a state are the flags of the bindings and the user's constants, in this order,
and the map and the block of values give them in this order too. Another state has the same ones
exactly if it has the same user's constants and the same of the first bindings bound. That is so of
each compatible state, whatever the push constants are, and also if a slot behind the bindings is
bound or freed. -/
theorem constants_are_flags_then_values (s : PipelineState) (count : Nat) :
    let flags := (List.range (min count bindingSlots)).map fun i =>
      (i, if s.bindings.test i then (1 : UInt32) else 0)
    let values := List.ofFn fun j : Fin specConstantCount => (bindingSlots + j, s.specConstants[j])
    let constants := s.specConstantsFor count
    constants.entries = flags ++ values ∧
      (∀ k id value, constants.entries[k]? = some (id, value) ↔
        constants.map[k]? = some (SpecMapEntry.mk id (4 * k) 4) ∧
          constants.data[k]? = some value) ∧
      constants.ids.Nodup ∧
      (∀ t : PipelineState,
        (constants = t.specConstantsFor count ↔
          constants.map = (t.specConstantsFor count).map ∧
            constants.data = (t.specConstantsFor count).data) ∧
        (constants = t.specConstantsFor count ↔
          s.specConstants = t.specConstants ∧
            ∀ i < min count bindingSlots, s.bindings.test i = t.bindings.test i) ∧
        (s.Compatible t → constants = t.specConstantsFor count)) ∧
      (∀ pushConstants, constants = specConstantsFor { s with pushConstants } count) ∧
      ∀ slot bound, min count bindingSlots ≤ slot →
        constants = specConstantsFor { s with bindings := s.bindings.set slot bound } count := by
  intro flags values constants
  refine ⟨s.entries_specConstantsFor count,
    fun k id value => SpecConstants.getElem?_entries_eq_some_iff,
    s.nodup_ids_specConstantsFor count, fun t => ⟨SpecConstants.eq_iff_map_eq_and_data_eq,
      specConstantsFor_eq_iff, fun h => h.specConstantsFor_eq count⟩, ?_, ?_⟩
  · intro pushConstants
    exact specConstantsFor_eq_iff.2 ⟨rfl, fun i _ => rfl⟩
  · intro slot bound hslot
    refine specConstantsFor_eq_iff.2 ⟨rfl, fun i hi => ?_⟩
    have hne : ¬ (i = slot ∧ slot < bindingSlots) := by omega
    rw [BindingMask.test_set, if_neg hne]

/-- The second binding and the fifth are bound, and the third constant of the user is set. -/
def boundPairState : PipelineState :=
  { zero with bindings := .ofList [1, 4], specConstants := zero.specConstants.set 2 0xDEAD }

theorem constants_of_boundPairState :
    (boundPairState.specConstantsFor 3).entries =
        [(0, 0), (1, 1), (2, 0), (384, 0), (385, 0), (386, 0xDEAD), (387, 0), (388, 0), (389, 0),
          (390, 0), (391, 0)] ∧
      boundPairState.Compatible { boundPairState with pushConstants := .replicate _ 7 } ∧
      boundPairState.specConstantsFor 5 =
        specConstantsFor { boundPairState with pushConstants := .replicate _ 7 } 5 ∧
      boundPairState.specConstantsFor 3 =
        specConstantsFor { boundPairState with bindings := boundPairState.bindings.set 4 false } 3 ∧
      boundPairState.specConstantsFor 5 ≠
        specConstantsFor { boundPairState with bindings := boundPairState.bindings.set 4 false }
          5 := by
  obtain ⟨hentries, -, -, -, -, hbehind⟩ := constants_are_flags_then_values boundPairState 3
  obtain ⟨-, -, -, hother, -, -⟩ := constants_are_flags_then_values boundPairState 5
  have hcompatible :
      boundPairState.Compatible { boundPairState with pushConstants := .replicate _ 7 } :=
    ⟨rfl, rfl⟩
  refine ⟨hentries.trans (by decide +kernel), hcompatible, (hother _).2.2 hcompatible,
    hbehind 4 false (by decide), fun hequal => ?_⟩
  exact absurd (((hother _).2.1.1 hequal).2 4 (by decide)) (by decide +kernel)

end PipelineState

end ShaderKit

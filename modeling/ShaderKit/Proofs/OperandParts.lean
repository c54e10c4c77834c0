import ShaderKit.Proofs.BlockTiling
import ShaderKit.Proofs.TokenReaders

/-!
# Parts of an operand

The tokens of an operand are its first token, the chain that this one announces, its indices and
its values, and each part is taken on its own. An operand in an index is such a part as well, at any
depth: put the tokens of another operand in its place, and the whole is read with that one in it.
-/

namespace ShaderKit

namespace TokenReader

section Readers

variable {α β : Type} {read : TokenReader α} {f : α → TokenReader β} {front : List Token} {a : α}
  {b : β}

/-- A reader that takes all of some tokens takes them in front of any others as well. -/
theorem takes_iff (h : ∀ n, ReadsFront read n) : Takes read front a ↔ read front = .ok (a, []) := by
  constructor
  · intro htakes
    have hread := htakes.reads []
    rwa [List.append_nil] at hread
  · intro hread
    obtain ⟨front', hfront, htakes⟩ := (h _).exists_takes (Nat.le_refl _) hread
    rw [List.append_nil] at hfront
    rwa [hfront]

theorem takes_pure_iff {a' : α} : Takes (pure a) front a' ↔ front = [] ∧ a' = a := by
  constructor
  · intro h
    have hread := h.reads []
    rw [List.append_nil] at hread
    cases hread
    exact ⟨rfl, rfl⟩
  · rintro ⟨rfl, rfl⟩
    exact takes_pure a'

theorem not_takes_stop (fault : OperandFault) : ¬ Takes (stop fault) front a := by
  intro h
  cases h.reads []

/-- What two readers take one behind the other. -/
theorem takes_bind_iff (h : ∀ n, ReadsFront read n) :
    Takes (read >>= f) front b ↔
      ∃ front₁ a front₂, front = front₁ ++ front₂ ∧ Takes read front₁ a ∧
        Takes (f a) front₂ b := by
  constructor
  · intro htakes
    have hread := htakes.reads []
    rw [List.append_nil] at hread
    cases hfirst : read front with
    | error stop => cases (bind_of_error hfirst).symm.trans hread
    | ok taken =>
      obtain ⟨a, front₂⟩ := taken
      obtain ⟨front₁, rfl, htakes₁⟩ := (h _).exists_takes (Nat.le_refl _) hfirst
      refine ⟨front₁, a, front₂, rfl, htakes₁, fun rest => ?_, fun k hk => ?_⟩
      · rw [← htakes.reads rest, List.append_assoc, bind_of_ok (htakes₁.reads _)]
      · -- What is cut off from the tokens of both is cut off from those of the second.
        rw [← bind_of_ok (f := f) (htakes₁.reads (front₂.take k)), ← List.take_length_add_append]
        apply htakes.truncated
        rw [List.length_append]
        exact Nat.add_lt_add_left hk _
  · rintro ⟨front₁, a, front₂, rfl, htakes₁, htakes₂⟩
    exact htakes₁.bind htakes₂

theorem Takes.bind_pure {g : α → β} (h : Takes read front a) :
    Takes (do let a ← read; return g a) front (g a) := by
  have htakes : Takes (read >>= fun a => pure (g a)) (front ++ []) (g a) := h.bind (takes_pure _)
  rwa [List.append_nil] at htakes

theorem takes_bind_pure_iff {g : α → β} (h : ∀ n, ReadsFront read n) :
    Takes (do let a ← read; return g a) front b ↔ ∃ a, Takes read front a ∧ b = g a := by
  rw [takes_bind_iff h]
  constructor
  · rintro ⟨front₁, a, front₂, rfl, htakes, hpure⟩
    obtain ⟨rfl, rfl⟩ := takes_pure_iff.1 hpure
    exact ⟨a, by rwa [List.append_nil], rfl⟩
  · rintro ⟨a, htakes, rfl⟩
    exact ⟨front, a, [], (List.append_nil front).symm, htakes, takes_pure _⟩

theorem takes_token_bind_iff {f : Token → TokenReader α} :
    Takes (token >>= f) front a ↔ ∃ t tail, front = t :: tail ∧ Takes (f t) tail a := by
  rw [takes_bind_iff fun n => readsFront_token]
  constructor
  · rintro ⟨front₁, t, tail, rfl, htoken, htakes⟩
    have hread := (takes_iff fun n => readsFront_token).1 htoken
    cases front₁ with
    | nil => cases hread
    | cons u front₁ =>
      cases hread
      exact ⟨t, tail, rfl, htakes⟩
  · rintro ⟨t, tail, rfl, htakes⟩
    exact ⟨[t], t, tail, rfl, takes_token t, htakes⟩

end Readers

section Operands

variable {front : List Token}

theorem takes_chain_iff {t : Token} {chain : List Token} :
    Takes (part (Token.takeExtended t.isExtended)) front chain ↔
      front = chain ∧ t.Announces chain := by
  have hchain : Token.takeExtended t.isExtended front = some (chain, []) ↔
      front = chain ++ [] ∧ t.Announces chain :=
    Token.takeExtended_eq_some_iff
  rw [List.append_nil] at hchain
  rw [takes_iff fun n => readsFront_chain _, ← hchain, part]
  cases Token.takeExtended t.isExtended front <;> simp

/-- The parts in which an operand is written, behind its first token. -/
structure OperandParts (t : Token) (chain indexTokens valueTokens : List Token) (o : Operand) :
    Prop where
  count : ComponentCount.ofField? (t.field 0 2) = some o.components
  type_eq : o.type = Operand.typeField t
  selection_eq : o.selection = Operand.selectionField t
  announces : t.Announces chain
  modifier_eq : o.modifier = .ofChain chain
  indices : Takes (indices (Operand.indexFields t)) indexTokens o.indices
  values : Takes (part (Operand.takeImmediate (Operand.typeField t) o.components)) valueTokens
    o.immediate

theorem takes_operand_iff {o : Operand} : Takes operand front o ↔
    ∃ t chain indexTokens valueTokens, front = t :: (chain ++ (indexTokens ++ valueTokens)) ∧
      OperandParts t chain indexTokens valueTokens o := by
  rw [operand_eq, takes_token_bind_iff]
  constructor
  · rintro ⟨t, tail, rfl, htakes⟩
    cases hcount : ComponentCount.ofField? (t.field 0 2) with
    | none =>
      rw [hcount] at htakes
      exact absurd htakes (not_takes_stop _)
    | some components =>
      simp only [hcount] at htakes
      obtain ⟨_, chain, _, rfl, hchain, htakes⟩ :=
        (takes_bind_iff fun n => readsFront_chain _).1 htakes
      obtain ⟨indexTokens, indices, _, rfl, hindices, htakes⟩ :=
        (takes_bind_iff fun n => readsFront_indices (readsFront_operand n) _).1 htakes
      obtain ⟨immediate, hvalues, rfl⟩ :=
        (takes_bind_pure_iff fun n => readsFront_values _ _).1 htakes
      obtain ⟨rfl, hannounces⟩ := takes_chain_iff.1 hchain
      exact ⟨t, _, indexTokens, _, rfl, hcount, rfl, rfl, hannounces, rfl, hindices, hvalues⟩
  · rintro ⟨t, chain, indexTokens, valueTokens, rfl, h⟩
    refine ⟨t, _, rfl, ?_⟩
    obtain ⟨type, components, selection, modifier, indices, immediate⟩ := o
    obtain ⟨hcount, rfl, rfl, hannounces, rfl, hindices, hvalues⟩ := h
    simp only at hcount hindices hvalues ⊢
    rw [hcount]
    exact (takes_chain_iff.2 ⟨rfl, hannounces⟩).bind (hindices.bind hvalues.bind_pure)

theorem takes_indices_nil_iff {is : List (OperandIndex Operand)} :
    Takes (indices []) front is ↔ front = [] ∧ is = [] := by
  have hnil : indices [] = pure [] := funext Operand.decodeIndices_nil
  rw [hnil, takes_pure_iff]

theorem takes_indices_cons_iff {form : Nat} {forms : List Nat} {is : List (OperandIndex Operand)} :
    Takes (indices (form :: forms)) front is ↔
      ∃ front₁ i front₂ is', front = front₁ ++ front₂ ∧ is = i :: is' ∧
        Takes (index form) front₁ i ∧ Takes (indices forms) front₂ is' := by
  rw [indices_cons, takes_bind_iff fun n => readsFront_index (readsFront_operand n) form]
  simp only [takes_bind_pure_iff fun n => readsFront_indices (readsFront_operand n) forms]
  constructor
  · rintro ⟨front₁, i, front₂, rfl, hi, is', his, rfl⟩
    exact ⟨front₁, i, front₂, is', rfl, rfl, hi, his⟩
  · rintro ⟨front₁, i, front₂, is', rfl, rfl, hi, his⟩
    exact ⟨front₁, i, front₂, rfl, hi, is', his, rfl⟩

/-- An index with a base register is its number and the operand that names the register. -/
theorem takes_index_base_iff {form : Nat} {offset : UInt64} {base : Operand} :
    Takes (index form) front ⟨offset, some base⟩ ↔
      ∃ form' offsetTokens baseTokens, front = offsetTokens ++ baseTokens ∧
        IndexForm.ofField? form = some form' ∧ form'.hasBase = true ∧
        Takes (part (Operand.takeOffset form')) offsetTokens offset ∧
        Takes operand baseTokens base := by
  rw [index_eq]
  constructor
  · intro htakes
    cases hform : IndexForm.ofField? form with
    | none =>
      rw [hform] at htakes
      exact absurd htakes (not_takes_stop _)
    | some form' =>
      simp only [hform] at htakes
      obtain ⟨offsetTokens, offset', baseTokens, rfl, hoffset, htakes⟩ :=
        (takes_bind_iff fun n => readsFront_offset form').1 htakes
      cases hbase : form'.hasBase with
      | false =>
        simp only [hbase, Bool.false_eq_true, if_false] at htakes
        cases (takes_pure_iff.1 htakes).2
      | true =>
        simp only [hbase, if_true] at htakes
        obtain ⟨base', htakes, heq⟩ := (takes_bind_pure_iff readsFront_operand).1 htakes
        obtain ⟨rfl, rfl⟩ : offset = offset' ∧ base = base' := by simpa using heq
        exact ⟨form', offsetTokens, baseTokens, rfl, rfl, hbase, hoffset, htakes⟩
  · rintro ⟨form', offsetTokens, baseTokens, rfl, hform, hbase, hoffset, htakes⟩
    simp only [hform]
    refine hoffset.bind ?_
    rw [if_pos hbase]
    exact htakes.bind_pure

end Operands

end TokenReader

namespace Operand

/-- The operand at the end of a path: each step leads to the base register of an index. -/
def nested? (o : Operand) : List Nat → Option Operand
  | [] => some o
  | k :: path => (o.indices[k]?.bind (·.base)).bind fun base => base.nested? path

/-- The operand with another one at the end of a path. -/
def replace (o : Operand) (path : List Nat) (other : Operand) : Operand :=
  match path with
  | [] => other
  | k :: path =>
    { o with indices := o.indices.modify k fun i =>
        { i with base := i.base.map fun base => base.replace path other } }

theorem nested?_cons_eq_some_iff {o other : Operand} {k : Nat} {path : List Nat} :
    o.nested? (k :: path) = some other ↔
      ∃ offset base, o.indices[k]? = some ⟨offset, some base⟩ ∧ base.nested? path = some other := by
  simp only [nested?, Option.bind_eq_some_iff]
  constructor
  · rintro ⟨base, ⟨⟨offset, _⟩, hindex, rfl⟩, hother⟩
    exact ⟨offset, base, hindex, hother⟩
  · rintro ⟨offset, base, hindex, hother⟩
    exact ⟨base, ⟨_, hindex, rfl⟩, hother⟩

theorem replace_cons {o base : Operand} {k : Nat} {offset : UInt64}
    (h : o.indices[k]? = some ⟨offset, some base⟩) (path : List Nat) (other : Operand) :
    o.replace (k :: path) other =
      { o with indices := o.indices.set k ⟨offset, some (base.replace path other)⟩ } := by
  rw [replace, List.modify_eq_set_getElem?, h]
  rfl

end Operand

namespace TokenReader

/-- The base register of an index may be any other, written in its place. -/
theorem exists_takes_indices_set {forms : List Nat} {front : List Token} {k : Nat}
    {is : List (OperandIndex Operand)} {offset : UInt64} {base : Operand}
    (h : Takes (indices forms) front is) (hk : is[k]? = some ⟨offset, some base⟩) :
    ∃ before own after, front = before ++ (own ++ after) ∧ Takes operand own base ∧
      ∀ own' base', Takes operand own' base' →
        Takes (indices forms) (before ++ (own' ++ after)) (is.set k ⟨offset, some base'⟩) := by
  induction forms generalizing front k is with
  | nil =>
    obtain ⟨-, rfl⟩ := takes_indices_nil_iff.1 h
    cases hk
  | cons form forms ih =>
    obtain ⟨front₁, i, front₂, is', rfl, rfl, hi, his⟩ := takes_indices_cons_iff.1 h
    cases k with
    | zero =>
      obtain rfl : i = ⟨offset, some base⟩ := Option.some.inj hk
      obtain ⟨form', offsetTokens, own, rfl, hform, hbase, hoffset, hown⟩ :=
        takes_index_base_iff.1 hi
      refine ⟨offsetTokens, own, front₂, List.append_assoc .., hown, fun own' base' hown' => ?_⟩
      have hi' := takes_index_base_iff.2
        ⟨form', offsetTokens, own', rfl, hform, hbase, hoffset, hown'⟩
      exact takes_indices_cons_iff.2
        ⟨_, _, front₂, is', (List.append_assoc ..).symm, rfl, hi', his⟩
    | succ k =>
      obtain ⟨before, own, after, rfl, hown, hset⟩ := ih his hk
      refine ⟨front₁ ++ before, own, after, (List.append_assoc ..).symm, hown,
        fun own' base' hown' => ?_⟩
      exact takes_indices_cons_iff.2
        ⟨front₁, i, _, _, List.append_assoc .., rfl, hi, hset own' base' hown'⟩

/-- An operand inside of another may be any other operand, written in its place. -/
theorem exists_takes_replace {path : List Nat} {front : List Token} {o inner : Operand}
    (h : Takes operand front o) (hinner : o.nested? path = some inner) :
    ∃ before own after, front = before ++ (own ++ after) ∧ Takes operand own inner ∧
      ∀ own' inner', Takes operand own' inner' →
        Takes operand (before ++ (own' ++ after)) (o.replace path inner') := by
  induction path generalizing front o with
  | nil =>
    obtain rfl : o = inner := Option.some.inj hinner
    refine ⟨[], front, [], (List.append_nil front).symm, h, fun own' inner' hown' => ?_⟩
    rwa [List.nil_append, List.append_nil]
  | cons k path ih =>
    obtain ⟨offset, base, hk, hbase⟩ := Operand.nested?_cons_eq_some_iff.1 hinner
    obtain ⟨t, chain, indexTokens, valueTokens, rfl, hparts⟩ := takes_operand_iff.1 h
    obtain ⟨before₁, baseTokens, after₁, rfl, hown₁, hset⟩ :=
      exists_takes_indices_set hparts.indices hk
    obtain ⟨before₂, own, after₂, rfl, hown, hreplace⟩ := ih hown₁ hbase
    refine ⟨t :: (chain ++ (before₁ ++ before₂)), own, after₂ ++ (after₁ ++ valueTokens), ?_, hown,
      fun own' inner' hown' => ?_⟩
    · simp only [List.cons_append, List.append_assoc]
    · have hindices := hset _ _ (hreplace own' inner' hown')
      rw [Operand.replace_cons hk]
      refine takes_operand_iff.2 ⟨t, chain, _, valueTokens, ?_, { hparts with indices := hindices }⟩
      simp only [List.cons_append, List.append_assoc]

end TokenReader

end ShaderKit

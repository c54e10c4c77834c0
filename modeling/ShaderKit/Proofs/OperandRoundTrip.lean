import Mathlib.Algebra.Ring.Nat
import ShaderKit.OperandDecoding
import ShaderKit.ProgramBuilding

/-!
# Reading back operands

The first token of an operand is a sum of fields, and how many tokens the operand takes is
settled by what stands in them. A layout names the contents of the fields. Reading a token of
a known layout is then a matter of reading its indices and its values, and each of the simple
forms of operands is read back as it was meant, whatever tokens follow it.
-/

namespace ShaderKit

namespace Token

theorem field_eq (t : Token) (low width : Nat) :
    t.field low width = t.toNat / 2 ^ low % 2 ^ width := by
  rw [field, Nat.one_shiftLeft, Nat.one_shiftLeft]

theorem toNat_place {n low : Nat} (h : n * 2 ^ low < 2 ^ 32) :
    (place n low).toNat = n * 2 ^ low := by
  rw [place, UInt32.toNat_ofNat', Nat.shiftLeft_eq]
  exact Nat.mod_eq_of_lt h

/-- Fields that are put in above all the others add up to a number. -/
theorem toNat_or_place {t : Token} {n low : Nat} (ht : t.toNat < 2 ^ low)
    (hn : n * 2 ^ low < 2 ^ 32) : (t ||| place n low).toNat = t.toNat + n * 2 ^ low := by
  have h := Nat.two_pow_add_eq_or_of_lt ht n
  rw [UInt32.toNat_or, toNat_place hn, Nat.or_comm, Nat.mul_comm n, ← h, Nat.add_comm]

end Token

namespace IndexForm

def toField : IndexForm → Nat
  | word => 0
  | long => 1
  | relative => 2
  | wordRelative => 3
  | longRelative => 4

theorem toField_lt (form : IndexForm) : form.toField < 8 := by
  cases form <;> decide

@[simp] theorem ofField?_toField (form : IndexForm) : ofField? form.toField = some form := by
  cases form <;> rfl

/-- The forms of a row of indices as one number, the first form in its lowest bits. -/
def pack : List IndexForm → Nat
  | [] => 0
  | form :: forms => form.toField + 8 * pack forms

theorem pack_lt (forms : List IndexForm) : pack forms < 8 ^ forms.length := by
  induction forms with
  | nil => decide
  | cons form forms ih =>
    have hform := form.toField_lt
    rw [pack, List.length_cons, Nat.pow_succ]
    omega

theorem pack_replicate_word (n : Nat) : pack (List.replicate n word) = 0 := by
  induction n with
  | zero => rfl
  | succ n ih => rw [List.replicate_succ, pack, ih, toField]

theorem map_pack (forms : List IndexForm) :
    ((List.range forms.length).map fun i => pack forms / 8 ^ i % 8) = forms.map toField := by
  induction forms with
  | nil => rfl
  | cons form forms ih =>
    have hform := form.toField_lt
    rw [List.length_cons, List.range_succ_eq_map, List.map_cons, List.map_cons, List.map_map]
    congr 1
    · rw [pack, Nat.pow_zero]
      omega
    · rw [← ih]
      apply List.map_congr_left
      intro i _
      have hstep : pack (form :: forms) / 8 = pack forms := by
        rw [pack]
        omega
      rw [Function.comp_apply, Nat.pow_succ', ← Nat.div_div_eq_div_mul, hstep]

end IndexForm

namespace Operand

/-- What stands in the fields of the first token of an operand. -/
structure Layout where
  components : ComponentCount
  selection : Nat
  code : Nat
  forms : List IndexForm
  extended : Bool
  selection_lt : selection < 2 ^ 10 := by decide
  code_lt : code < 2 ^ 8 := by decide
  length_forms : forms.length ≤ 3 := by decide

namespace Layout

def value (l : Layout) : Nat :=
  l.components.toField + l.selection * 2 ^ 2 + l.code * 2 ^ 12 + l.forms.length * 2 ^ 20 +
    IndexForm.pack l.forms * 2 ^ 22 + l.extended.toNat * 2 ^ 31

theorem value_of_not_extended (l : Layout) (h : l.extended = false) :
    l.value = l.components.toField + l.selection * 2 ^ 2 + l.code * 2 ^ 12 +
      l.forms.length * 2 ^ 20 + IndexForm.pack l.forms * 2 ^ 22 := by
  rw [value, h, Bool.toNat_false, Nat.zero_mul, Nat.add_zero]

theorem pack_forms_lt (l : Layout) : IndexForm.pack l.forms < 2 ^ 9 :=
  calc
    IndexForm.pack l.forms < 8 ^ l.forms.length := IndexForm.pack_lt l.forms
    _ ≤ 8 ^ 3 := Nat.pow_le_pow_right (by decide) l.length_forms
    _ = 2 ^ 9 := rfl

theorem toField_components_lt (c : ComponentCount) : c.toField < 4 := by
  cases c <;> decide

theorem low_fields_lt (l : Layout) :
    l.components.toField + l.selection * 2 ^ 2 + l.code * 2 ^ 12 < 2 ^ 20 := by
  have hcomponents := toField_components_lt l.components
  have hselection := l.selection_lt
  have hcode := l.code_lt
  omega

variable {l : Layout} {t : Token} (h : t.toNat = l.value)
include h

theorem componentCount_eq : ComponentCount.ofField? (t.field 0 2) = some l.components := by
  have hcomponents := toField_components_lt l.components
  rw [ComponentCount.ofField?_eq_some_iff, Token.field_eq, h, value]
  omega

theorem selectionField_eq : selectionField t = l.selection := by
  have hcomponents := toField_components_lt l.components
  have hselection := l.selection_lt
  rw [selectionField, Token.field_eq, h, value]
  omega

theorem typeField_eq : typeField t = .ofCode l.code := by
  have hcomponents := toField_components_lt l.components
  have hselection := l.selection_lt
  have hcode := l.code_lt
  have hfield : t.field 12 8 = l.code := by
    rw [Token.field_eq, h, value]
    omega
  rw [typeField, hfield]

theorem isExtended_eq : t.isExtended = l.extended := by
  have hlow := l.low_fields_lt
  have hlength := l.length_forms
  have hforms := l.pack_forms_lt
  have hfield : t.field 31 1 = l.extended.toNat := by
    have hextended := l.extended.toNat_lt
    rw [Token.field_eq, h, value]
    omega
  rw [Token.isExtended, Token.flag, hfield]
  cases l.extended <;> rfl

theorem dimension_eq : t.field 20 2 = l.forms.length := by
  have hlow := l.low_fields_lt
  have hlength := l.length_forms
  rw [Token.field_eq, h, value]
  omega

theorem indexFields_eq : indexFields t = l.forms.map IndexForm.toField := by
  have hlow := l.low_fields_lt
  have hlength := l.length_forms
  have hhigh : t.toNat / 2 ^ 22 = IndexForm.pack l.forms + l.extended.toNat * 2 ^ 9 := by
    rw [h, value]
    omega
  rw [indexFields, dimension_eq h, ← IndexForm.map_pack]
  apply List.map_congr_left
  intro i hi
  have hlt := List.mem_range.1 hi
  have hsplit : t.toNat / 2 ^ (22 + 3 * i) = t.toNat / 2 ^ 22 / 8 ^ i := by
    rw [Nat.pow_add, Nat.pow_mul, Nat.div_div_eq_div_mul]
  rw [Token.field_eq, hsplit, hhigh]
  -- Bit 31 lies above the three forms, so it does not show in any of them.
  match i with
  | 0 | 1 | 2 => omega
  | i + 3 => omega

end Layout

/-- Reading an operand whose first token has a known layout. -/
theorem decode_of_layout {l : Layout} {t : Token} {tail chain rest rest' rest'' : List Token}
    {indices : List (OperandIndex Operand)} {immediate : Option Immediate}
    (ht : t.toNat = l.value)
    (hchain : Token.takeExtended l.extended tail = some (chain, rest))
    (hindices : decodeIndices (l.forms.map IndexForm.toField) rest = .ok (indices, rest'))
    (himmediate : takeImmediate (.ofCode l.code) l.components rest' = some (immediate, rest'')) :
    decode (t :: tail) =
      .ok (⟨.ofCode l.code, l.components, l.selection, .ofChain chain, indices, immediate⟩,
        rest'') := by
  rw [decode_cons, Layout.componentCount_eq ht, Layout.isExtended_eq ht, Layout.typeField_eq ht,
    Layout.selectionField_eq ht, Layout.indexFields_eq ht]
  simp only [hchain, hindices, himmediate, bind, Except.bind]

theorem decodeIndices_cons_of {form : Nat} {forms : List Nat} {tokens rest rest' : List Token}
    {i : OperandIndex Operand} {is : List (OperandIndex Operand)}
    (hi : decodeIndex form tokens = .ok (i, rest))
    (his : decodeIndices forms rest = .ok (is, rest')) :
    decodeIndices (form :: forms) tokens = .ok (i :: is, rest') := by
  rw [decodeIndices_cons, hi]
  simp only [bind, Except.bind, his]
  rfl

theorem decodeIndex_of_not_hasBase {form : IndexForm} {tokens rest : List Token}
    {offset : UInt64} (hform : form.hasBase = false)
    (hoffset : takeOffset form tokens = some (offset, rest)) :
    decodeIndex form.toField tokens = .ok (⟨offset, none⟩, rest) := by
  rw [decodeIndex_eq, IndexForm.ofField?_toField]
  simp only [hoffset, hform, Bool.false_eq_true, if_false]

theorem decodeIndex_of_hasBase {form : IndexForm} {tokens rest rest' : List Token}
    {offset : UInt64} {base : Operand} (hform : form.hasBase = true)
    (hoffset : takeOffset form tokens = some (offset, rest))
    (hbase : decode rest = .ok (base, rest')) :
    decodeIndex form.toField tokens = .ok (⟨offset, some base⟩, rest') := by
  rw [decodeIndex_eq, IndexForm.ofField?_toField]
  simp only [hoffset, hform, if_true, hbase, bind, Except.bind]
  rfl

theorem takeImmediate_of_ne {type : OperandType} (h32 : type ≠ .imm32) (h64 : type ≠ .imm64)
    (components : ComponentCount) (rest : List Token) :
    takeImmediate type components rest = some (none, rest) := by
  cases type with
  | imm32 => exact absurd rfl h32
  | imm64 => exact absurd rfl h64
  | _ => rfl

end Operand

/-- The code of a register's type: one that fits an operand token and is not of an immediate. -/
structure RegisterType where
  code : Nat
  code_lt : code < 2 ^ 8 := by decide
  ne_imm32 : OperandType.ofCode code ≠ .imm32 := by decide
  ne_imm64 : OperandType.ofCode code ≠ .imm64 := by decide

namespace RegisterType

def type (r : RegisterType) : OperandType := .ofCode r.code

theorem code_type (r : RegisterType) : r.type.code = r.code := OperandType.code_ofCode r.code

/-- Samplers have no components, and all other registers have four. -/
def components (r : RegisterType) : ComponentCount :=
  if r.type = .sampler then .zero else .four

/-- The bits that select all four components, where there are any. -/
def selection (r : RegisterType) : Nat :=
  if r.type = .sampler then 0 else 15 * 2 ^ 2

/-- A register of a type with some indices. -/
def operand (r : RegisterType) (indices : List (OperandIndex Operand)) : Operand where
  type := r.type
  components := r.components
  selection := r.selection
  modifier := .none
  indices := indices
  immediate := none

def layout (r : RegisterType) (forms : List IndexForm) (h : forms.length ≤ 3) :
    Operand.Layout where
  components := r.components
  selection := r.selection
  code := r.code
  forms := forms
  extended := false
  selection_lt := by rw [selection]; split <;> decide
  code_lt := r.code_lt
  length_forms := h

theorem low_fields_lt (r : RegisterType) :
    r.components.toField + r.selection * 2 ^ 2 < 2 ^ 12 := by
  rw [components, selection]
  split <;> decide

theorem toNat_registerToken (r : RegisterType) {dimension : Nat} (h : dimension < 4) :
    (Operand.registerToken r.type dimension).toNat =
      r.components.toField + r.selection * 2 ^ 2 + r.code * 2 ^ 12 + dimension * 2 ^ 20 := by
  have hcode := r.code_lt
  have hlow : (if r.type = .sampler then 0 else Token.place 2 0 ||| Token.place 15 4).toNat =
      r.components.toField + r.selection * 2 ^ 2 := by
    rw [components, selection]
    split <;> rfl
  have hbound := r.low_fields_lt
  have htyped := Token.toNat_or_place (hlow ▸ hbound)
    (show r.code * 2 ^ 12 < 2 ^ 32 by omega)
  rw [Operand.registerToken, r.code_type, Token.toNat_or_place (by omega) (by omega), htyped, hlow]

theorem value_layout (r : RegisterType) (forms : List IndexForm) (h : forms.length ≤ 3) :
    (r.layout forms h).value =
      (Operand.registerToken r.type forms.length).toNat + IndexForm.pack forms * 2 ^ 22 := by
  have hvalue := (r.layout forms h).value_of_not_extended rfl
  rw [hvalue, r.toNat_registerToken (Nat.lt_succ_of_le h)]
  rfl

theorem decode_cons (r : RegisterType) {t : Token} {forms : List IndexForm}
    {tail rest : List Token} {indices : List (OperandIndex Operand)} (h : forms.length ≤ 3)
    (ht : t.toNat = (r.layout forms h).value)
    (hindices : Operand.decodeIndices (forms.map IndexForm.toField) tail = .ok (indices, rest)) :
    Operand.decode (t :: tail) = .ok (r.operand indices, rest) := by
  have himmediate := Operand.takeImmediate_of_ne r.ne_imm32 r.ne_imm64 r.components rest
  exact Operand.decode_of_layout ht (Token.takeExtended_false tail) hindices himmediate

end RegisterType

/-- Operands of the four simple forms. -/
inductive SimpleOperand where
  | register (type : RegisterType) (index : UInt32)
  | registerPair (type : RegisterType) (first second : UInt32)
  | registerRelative (type : RegisterType) (index temp : UInt32)
  | immediateWord (value : UInt32)

namespace SimpleOperand

def tokens : SimpleOperand → List Token
  | register r index => Operand.register r.type index
  | registerPair r first second => Operand.registerPair r.type first second
  | registerRelative r index temp => Operand.registerRelative r.type index temp
  | immediateWord value => Operand.immediateWord value

/-- One component of a temporary register, as it is added to an index. -/
def base (temp : UInt32) : Operand where
  type := .temp
  components := .one
  selection := 2
  modifier := .none
  indices := [⟨temp.toUInt64, none⟩]
  immediate := none

/-- What an operand means. -/
def operand : SimpleOperand → Operand
  | register r index => r.operand [⟨index.toUInt64, none⟩]
  | registerPair r first second => r.operand [⟨first.toUInt64, none⟩, ⟨second.toUInt64, none⟩]
  | registerRelative r index temp => r.operand [⟨index.toUInt64, some (base temp)⟩]
  | immediateWord value => ⟨.imm32, .one, 0, .none, [], some (.words value value value value)⟩

theorem length_tokens_le (o : SimpleOperand) : o.tokens.length ≤ 4 := by
  cases o <;> simp [tokens, Operand.register, Operand.registerPair, Operand.registerRelative,
    Operand.immediateWord]

theorem length_flatMap_tokens_le (os : List SimpleOperand) :
    (os.flatMap tokens).length ≤ 4 * os.length := by
  induction os with
  | nil => exact Nat.le_refl 0
  | cons o os ih =>
    have ho := o.length_tokens_le
    rw [List.flatMap_cons, List.length_append, List.length_cons]
    omega

theorem decodeIndices_words (indices rest : List Token) :
    Operand.decodeIndices
      ((List.replicate indices.length IndexForm.word).map IndexForm.toField) (indices ++ rest) =
      .ok (indices.map fun i => ⟨i.toUInt64, none⟩, rest) := by
  induction indices with
  | nil => exact Operand.decodeIndices_nil rest
  | cons i indices ih =>
    exact Operand.decodeIndices_cons_of (Operand.decodeIndex_of_not_hasBase rfl rfl) ih

theorem decode_registerToken (r : RegisterType) (indices rest : List Token)
    (h : indices.length ≤ 3) :
    Operand.decode (Operand.registerToken r.type indices.length :: (indices ++ rest)) =
      .ok (r.operand (indices.map fun i => ⟨i.toUInt64, none⟩), rest) := by
  have hlength := List.length_replicate (n := indices.length) (a := IndexForm.word)
  have hforms := Nat.le_trans (Nat.le_of_eq hlength) h
  apply r.decode_cons hforms _ (decodeIndices_words indices rest)
  rw [r.value_layout, hlength, IndexForm.pack_replicate_word, Nat.zero_mul, Nat.add_zero]

/-- The layout of the token of a temporary register of which one component is selected. -/
def baseLayout : Operand.Layout where
  components := .one
  selection := 2
  code := OperandType.temp.code
  forms := [.word]
  extended := false

theorem decode_base (temp : UInt32) (rest : List Token) :
    Operand.decode (Operand.baseToken :: temp :: rest) = .ok (base temp, rest) :=
  Operand.decode_of_layout (l := baseLayout) (by decide) (Token.takeExtended_false _)
    (decodeIndices_words [temp] rest) rfl

theorem decode_registerRelative (r : RegisterType) (index temp : UInt32) (rest : List Token) :
    Operand.decode (Operand.registerRelative r.type index temp ++ rest) =
      .ok (r.operand [⟨index.toUInt64, some (base temp)⟩], rest) := by
  have hindex : Operand.decodeIndex IndexForm.wordRelative.toField
      (index :: Operand.baseToken :: temp :: rest) =
        .ok (⟨index.toUInt64, some (base temp)⟩, rest) :=
    Operand.decodeIndex_of_hasBase rfl rfl (decode_base temp rest)
  have hindices := Operand.decodeIndices_cons_of hindex (Operand.decodeIndices_nil rest)
  have hforms : [IndexForm.wordRelative].length ≤ 3 := by decide
  apply r.decode_cons hforms _ hindices
  have htoken := r.toNat_registerToken (show 1 < 4 by decide)
  have hbound : (Operand.registerToken r.type 1).toNat < 2 ^ 22 := by
    have hcode := r.code_lt
    have hlow := r.low_fields_lt
    omega
  rw [r.value_layout, Token.toNat_or_place hbound (by decide)]
  rfl

def immediateLayout : Operand.Layout where
  components := .one
  selection := 0
  code := OperandType.imm32.code
  forms := []
  extended := false

/-- Reading back an operand, whatever tokens follow it. -/
theorem decode_tokens_append (o : SimpleOperand) (rest : List Token) :
    Operand.decode (o.tokens ++ rest) = .ok (o.operand, rest) := by
  cases o with
  | register r index =>
    exact decode_registerToken r [index] rest (by simp)
  | registerPair r first second =>
    exact decode_registerToken r [first, second] rest (by simp)
  | registerRelative r index temp => exact decode_registerRelative r index temp rest
  | immediateWord value =>
    exact Operand.decode_of_layout (l := immediateLayout) (by decide)
      (Token.takeExtended_false _) (Operand.decodeIndices_nil _) rfl

theorem decodeList_tokens_append (os : List SimpleOperand) (rest : List Token) :
    Operand.decodeList os.length (os.flatMap tokens ++ rest) = .ok (os.map operand, rest) := by
  induction os with
  | nil => rfl
  | cons o os ih =>
    rw [List.length_cons, List.flatMap_cons, List.append_assoc, Operand.decodeList,
      decode_tokens_append]
    simp only [bind, Except.bind, ih]
    rfl

end SimpleOperand

end ShaderKit

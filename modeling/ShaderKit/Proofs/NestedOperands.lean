import Mathlib.Data.Fin.VecNotation
import Mathlib.Data.List.OfFn
import ShaderKit.Proofs.OperandRoundTrip

/-!
# Nested operands

The whole language of operands as trees: a register of any type with up to three indices, each of
which may add another such operand to its number, and immediates of all kinds. A tree fixes the
tokens by which the operand is written, down to the bits that mean nothing. Read back in front of
any tokens, it gives the operand that is meant and leaves these tokens alone.
-/

namespace ShaderKit

namespace Token

theorem field_eq_of_mod_eq {t u : Token} {p low width : Nat}
    (h : t.toNat % 2 ^ p = u.toNat % 2 ^ p) (hp : low + width ≤ p) :
    t.field low width = u.field low width := by
  have hdvd : 2 ^ low * 2 ^ width ∣ 2 ^ p := by
    rw [← Nat.pow_add]
    exact Nat.pow_dvd_pow 2 hp
  have hlow : t.toNat % (2 ^ low * 2 ^ width) = u.toNat % (2 ^ low * 2 ^ width) := by
    rw [← Nat.mod_mod_of_dvd t.toNat hdvd, h, Nat.mod_mod_of_dvd u.toNat hdvd]
  rw [field_eq, field_eq, ← Nat.mod_mul_right_div_self, hlow, Nat.mod_mul_right_div_self]

/-- The two halves of a long word, the high one first. -/
def ofLong (x : UInt64) : List Token := [(x >>> 32).toUInt32, x.toUInt32]

end Token

namespace OperandModifier

def toField : OperandModifier → Nat
  | none => 0
  | neg => 1
  | abs => 2
  | absNeg => 3

theorem toField_lt (m : OperandModifier) : m.toField < 4 := by
  cases m <;> decide

@[simp] theorem ofField_toField (m : OperandModifier) : ofField m.toField = m := by
  cases m <;> rfl

/-- The extended token that states a modifier. Its upper bits mean nothing. -/
def token (m : OperandModifier) (unused : Fin (2 ^ 17)) : Token :=
  UInt32.ofNat (1 + m.toField * 2 ^ 6 + unused * 2 ^ 14)

def tokens (m : OperandModifier) (unused : Fin (2 ^ 17)) : List Token :=
  if m = none then [] else [m.token unused]

section Token

variable (m : OperandModifier) (unused : Fin (2 ^ 17))

theorem toNat_token : (m.token unused).toNat = 1 + m.toField * 2 ^ 6 + unused * 2 ^ 14 := by
  have hfield := m.toField_lt
  have hunused := unused.isLt
  rw [token, UInt32.toNat_ofNat']
  omega

theorem isStatedBy_token : isStatedBy (m.token unused) = true := by
  have hfield : Token.field (m.token unused) 0 6 = 1 := by
    rw [Token.field_eq, toNat_token]
    omega
  rw [isStatedBy, hfield]
  rfl

theorem ofField_token : ofField (Token.field (m.token unused) 6 8) = m := by
  have hlt := m.toField_lt
  have hfield : Token.field (m.token unused) 6 8 = m.toField := by
    rw [Token.field_eq, toNat_token]
    omega
  rw [hfield, ofField_toField]

theorem isExtended_token : Token.isExtended (m.token unused) = false := by
  have hlt := m.toField_lt
  have hunused := unused.isLt
  have hfield : Token.field (m.token unused) 31 1 = 0 := by
    rw [Token.field_eq, toNat_token]
    omega
  rw [Token.isExtended, Token.flag, hfield]
  rfl

theorem ofChain_tokens : ofChain (m.tokens unused) = m := by
  rw [tokens]
  split
  · next hm => exact hm.symm
  · have hstated := m.isStatedBy_token unused
    simp only [ofChain, List.filter_cons_of_pos hstated, List.filter_nil, List.getLast?_singleton,
      ofField_token]

theorem takeExtended_tokens_append (rest : List Token) :
    Token.takeExtended (m ≠ none) (m.tokens unused ++ rest) = some (m.tokens unused, rest) := by
  rw [tokens]
  split
  · next hm => simp [hm]
  · next hm => simp [hm, Token.takeExtended, isExtended_token]

end Token

end OperandModifier

/-- The values that are written for an operand of a type with a number of components. -/
inductive WrittenImmediate : OperandType → ComponentCount → Type where
  | noWord : WrittenImmediate .imm32 .zero
  | word (x : UInt32) : WrittenImmediate .imm32 .one
  | words (x y z w : UInt32) : WrittenImmediate .imm32 .four
  | noLong : WrittenImmediate .imm64 .zero
  | long (x : UInt64) : WrittenImmediate .imm64 .one
  | longs (x y : UInt64) : WrittenImmediate .imm64 .four
  | nothing {type : OperandType} {components : ComponentCount} (ne_imm32 : type ≠ .imm32)
      (ne_imm64 : type ≠ .imm64) : WrittenImmediate type components

namespace WrittenImmediate

variable {type : OperandType} {components : ComponentCount}

def encode : WrittenImmediate type components → List Token
  | noWord | noLong | nothing .. => []
  | word x => [x]
  | words x y z w => [x, y, z, w]
  | long x => Token.ofLong x
  | longs x y => Token.ofLong x ++ Token.ofLong y

/-- What the values mean: where none is written all are zero, and one stands in all places. -/
def immediate : WrittenImmediate type components → Option Immediate
  | noWord => some (.words 0 0 0 0)
  | word x => some (.words x x x x)
  | words x y z w => some (.words x y z w)
  | noLong => some (.longs 0 0)
  | long x => some (.longs x x)
  | longs x y => some (.longs x y)
  | nothing .. => none

end WrittenImmediate

/-- What the first token of an operand states apart from the forms of its indices, with the bits
of this token and of the modifier's token that mean nothing. -/
structure OperandHead where
  code : Fin (2 ^ 8)
  components : ComponentCount
  selection : Fin (2 ^ 10)
  modifier : OperandModifier
  dimension : Fin 4
  unusedForms : Fin (8 ^ (3 - dimension.val))
  unusedBits : Fin (2 ^ 17)

def OperandHead.type (h : OperandHead) : OperandType := .ofCode h.code

mutual

/-- An operand as a tree. -/
inductive WrittenOperand where
  | mk (head : OperandHead) (indices : Fin head.dimension → WrittenIndex)
      (immediate : WrittenImmediate head.type head.components)

/-- An index as a tree: a number of one or two words, an operand, or both. -/
inductive WrittenIndex where
  | word (offset : UInt32)
  | long (offset : UInt64)
  | relative (base : WrittenOperand)
  | wordRelative (offset : UInt32) (base : WrittenOperand)
  | longRelative (offset : UInt64) (base : WrittenOperand)

end

def WrittenIndex.form : WrittenIndex → IndexForm
  | word _ => .word
  | long _ => .long
  | relative _ => .relative
  | wordRelative .. => .wordRelative
  | longRelative .. => .longRelative

namespace OperandHead

def layout (h : OperandHead) (indices : Fin h.dimension → WrittenIndex) : Operand.Layout where
  components := h.components
  selection := h.selection
  code := h.code
  forms := List.ofFn fun i => (indices i).form
  extended := h.modifier ≠ .none
  selection_lt := h.selection.isLt
  code_lt := h.code.isLt
  length_forms := by
    rw [List.length_ofFn]
    exact Nat.le_of_lt_succ h.dimension.isLt

/-- The unused forms, which stand above those of the indices. -/
def unused (h : OperandHead) : Nat := 8 ^ h.dimension.val * h.unusedForms.val

/-- The first token: its fields and the unused forms. -/
def token (h : OperandHead) (indices : Fin h.dimension → WrittenIndex) : Token :=
  UInt32.ofNat ((h.layout indices).value + h.unused * 2 ^ 22)

end OperandHead

mutual

/-- The tokens of an operand: its first token, its modifier, its indices and its values. -/
def WrittenOperand.encode : WrittenOperand → List Token
  | .mk head indices immediate =>
    head.token indices :: (head.modifier.tokens head.unusedBits ++
      ((List.ofFn fun i => (indices i).encode).flatten ++ immediate.encode))

def WrittenIndex.encode : WrittenIndex → List Token
  | .word offset => [offset]
  | .long offset => Token.ofLong offset
  | .relative base => base.encode
  | .wordRelative offset base => offset :: base.encode
  | .longRelative offset base => Token.ofLong offset ++ base.encode

end

mutual

def WrittenOperand.operand : WrittenOperand → Operand
  | .mk head indices immediate =>
    { type := head.type
      components := head.components
      selection := head.selection
      modifier := head.modifier
      indices := List.ofFn fun i => (indices i).index
      immediate := immediate.immediate }

def WrittenIndex.index : WrittenIndex → OperandIndex Operand
  | .word offset => ⟨offset.toUInt64, none⟩
  | .long offset => ⟨offset, none⟩
  | .relative base => ⟨0, some base.operand⟩
  | .wordRelative offset base => ⟨offset.toUInt64, some base.operand⟩
  | .longRelative offset base => ⟨offset, some base.operand⟩

end

namespace Operand

theorem joinLong_ofLong (x : UInt64) : joinLong (x >>> 32).toUInt32 x.toUInt32 = x := by
  have hx := x.toNat_lt
  have hhigh : (x >>> 32).toUInt32.toNat = x.toNat / 2 ^ 32 % 2 ^ 32 :=
    congrArg (· % 2 ^ 32) (Nat.shiftRight_eq_div_pow x.toNat 32)
  have hlow : x.toUInt32.toNat = x.toNat % 2 ^ 32 := x.toNat_toUInt32
  have hsum : x.toNat / 2 ^ 32 % 2 ^ 32 * UInt32.size + x.toNat % 2 ^ 32 = x.toNat := by
    rw [UInt32.size]
    omega
  rw [joinLong, hhigh, hlow, hsum, UInt64.ofNat_toNat]

theorem takeImmediate_encode_append {type : OperandType} {components : ComponentCount}
    (w : WrittenImmediate type components) (rest : List Token) :
    takeImmediate type components (w.encode ++ rest) = some (w.immediate, rest) := by
  cases w with
  | noWord | word | words | noLong => rfl
  | long x =>
    simp only [WrittenImmediate.encode, Token.ofLong, List.cons_append, List.nil_append,
      takeImmediate, joinLong_ofLong, WrittenImmediate.immediate]
  | longs x y =>
    simp only [WrittenImmediate.encode, Token.ofLong, List.cons_append, List.nil_append,
      takeImmediate, joinLong_ofLong, WrittenImmediate.immediate]
  | nothing h32 h64 => exact takeImmediate_of_ne h32 h64 components rest

/-- Only five things of its first token matter to an operand. -/
theorem decode_cons_congr {t u : Token} (hcount : t.field 0 2 = u.field 0 2)
    (hselection : t.field 2 10 = u.field 2 10) (htype : t.field 12 8 = u.field 12 8)
    (hforms : indexFields t = indexFields u) (hextended : t.isExtended = u.isExtended)
    (tail : List Token) : decode (t :: tail) = decode (u :: tail) := by
  simp only [decode_cons, typeField, selectionField, hcount, hselection, htype, hforms, hextended]

end Operand

namespace OperandHead

variable (h : OperandHead) (indices : Fin h.dimension → WrittenIndex)

theorem length_forms : (h.layout indices).forms.length = h.dimension :=
  List.length_ofFn

theorem pack_add_unused_lt : IndexForm.pack (h.layout indices).forms + h.unused < 2 ^ 9 := by
  have hpack := IndexForm.pack_lt (h.layout indices).forms
  have hdimension : h.dimension.val ≤ 3 := Nat.le_of_lt_succ h.dimension.isLt
  rw [length_forms] at hpack
  calc
    IndexForm.pack (h.layout indices).forms + h.unused
      < 8 ^ h.dimension.val + h.unused := Nat.add_lt_add_right hpack _
    _ = 8 ^ h.dimension.val * (h.unusedForms.val + 1) := by rw [unused, Nat.mul_succ, Nat.add_comm]
    _ ≤ 8 ^ h.dimension.val * 8 ^ (3 - h.dimension.val) :=
      Nat.mul_le_mul_left _ h.unusedForms.isLt
    _ = 2 ^ 9 := by rw [← Nat.pow_add, Nat.add_sub_cancel' hdimension]; rfl

theorem toNat_token :
    (h.token indices).toNat = (h.layout indices).value + h.unused * 2 ^ 22 := by
  have hlow := (h.layout indices).low_fields_lt
  have hlength := (h.layout indices).length_forms
  have hforms := h.pack_add_unused_lt indices
  have hextended := (h.layout indices).extended.toNat_lt
  rw [token, UInt32.toNat_ofNat', Operand.Layout.value]
  omega

/-- The first token without the unused forms. -/
def plainToken : Token := UInt32.ofNat (h.layout indices).value

theorem toNat_plainToken : (h.plainToken indices).toNat = (h.layout indices).value := by
  have hlow := (h.layout indices).low_fields_lt
  have hlength := (h.layout indices).length_forms
  have hforms := h.pack_add_unused_lt indices
  have hextended := (h.layout indices).extended.toNat_lt
  rw [plainToken, UInt32.toNat_ofNat', Operand.Layout.value]
  omega

/-- The unused forms lie above the forms of the indices. -/
theorem field_token {low width : Nat} (hle : low + width ≤ 22 + 3 * h.dimension.val) :
    (h.token indices).field low width = (h.plainToken indices).field low width := by
  apply Token.field_eq_of_mod_eq _ hle
  have hunused : h.unused * 2 ^ 22 = 2 ^ (22 + 3 * h.dimension.val) * h.unusedForms.val := by
    rw [unused, Nat.pow_add, Nat.pow_mul, Nat.mul_comm, ← Nat.mul_assoc]
  rw [toNat_token, toNat_plainToken, hunused, Nat.add_mul_mod_self_left]

theorem indexFields_token :
    Operand.indexFields (h.token indices) = Operand.indexFields (h.plainToken indices) := by
  have hdimension := Operand.Layout.dimension_eq (h.toNat_plainToken indices)
  rw [length_forms] at hdimension
  rw [Operand.indexFields, Operand.indexFields, h.field_token indices (by omega)]
  apply List.map_congr_left
  intro i hi
  have hlt := List.mem_range.1 hi
  apply h.field_token indices
  omega

theorem isExtended_token :
    (h.token indices).isExtended = (h.plainToken indices).isExtended := by
  have hlow := (h.layout indices).low_fields_lt
  have hlength := (h.layout indices).length_forms
  have hforms := h.pack_add_unused_lt indices
  have hfield : (h.token indices).field 31 1 = (h.plainToken indices).field 31 1 := by
    rw [Token.field_eq, Token.field_eq, toNat_token, toNat_plainToken, Operand.Layout.value]
    omega
  rw [Token.isExtended, Token.isExtended, Token.flag, Token.flag, hfield]

end OperandHead

open Operand

/-- An operand is read back in front of any tokens. -/
def WrittenOperand.ReadsBack (o : WrittenOperand) : Prop :=
  ∀ rest, decode (o.encode ++ rest) = .ok (o.operand, rest)

def WrittenIndex.ReadsBack (i : WrittenIndex) : Prop :=
  ∀ rest, decodeIndex i.form.toField (i.encode ++ rest) = .ok (i.index, rest)

namespace WrittenIndex

variable {base : WrittenOperand}

theorem takeOffset_ofLong_append {form : IndexForm} (h : form = .long ∨ form = .longRelative)
    (offset : UInt64) (rest : List Token) :
    takeOffset form (Token.ofLong offset ++ rest) = some (offset, rest) := by
  rcases h with rfl | rfl <;>
    simp only [Token.ofLong, List.cons_append, List.nil_append, takeOffset, joinLong_ofLong]

theorem readsBack_word (offset : UInt32) : (word offset).ReadsBack := by
  intro rest
  rw [encode]
  exact decodeIndex_of_not_hasBase rfl rfl

theorem readsBack_long (offset : UInt64) : (long offset).ReadsBack := by
  intro rest
  have hoffset := takeOffset_ofLong_append (.inl rfl) offset rest
  rw [encode]
  exact decodeIndex_of_not_hasBase rfl hoffset

theorem readsBack_relative (h : base.ReadsBack) : (relative base).ReadsBack := by
  intro rest
  rw [encode]
  exact decodeIndex_of_hasBase rfl rfl (h rest)

theorem readsBack_wordRelative (offset : UInt32) (h : base.ReadsBack) :
    (wordRelative offset base).ReadsBack := by
  intro rest
  rw [encode]
  exact decodeIndex_of_hasBase rfl rfl (h rest)

theorem readsBack_longRelative (offset : UInt64) (h : base.ReadsBack) :
    (longRelative offset base).ReadsBack := by
  intro rest
  have hoffset := takeOffset_ofLong_append (.inr rfl) offset (base.encode ++ rest)
  rw [encode, List.append_assoc]
  exact decodeIndex_of_hasBase rfl hoffset (h rest)

theorem decodeIndices_ofFn {n : Nat} {indices : Fin n → WrittenIndex}
    (h : ∀ i, (indices i).ReadsBack) (rest : List Token) :
    decodeIndices ((List.ofFn fun i => (indices i).form).map IndexForm.toField)
      ((List.ofFn fun i => (indices i).encode).flatten ++ rest) =
      .ok (List.ofFn fun i => (indices i).index, rest) := by
  induction n with
  | zero => exact decodeIndices_nil rest
  | succ n ih =>
    have htail := ih (fun i => h i.succ)
    simp only [List.ofFn_succ, List.map_cons, List.flatten_cons, List.append_assoc]
    exact decodeIndices_cons_of (h 0 _) htail

end WrittenIndex

namespace WrittenOperand

theorem readsBack_mk (head : OperandHead) {indices : Fin head.dimension → WrittenIndex}
    (immediate : WrittenImmediate head.type head.components)
    (h : ∀ i, (indices i).ReadsBack) : (mk head indices immediate).ReadsBack := by
  intro rest
  have hchain := head.modifier.takeExtended_tokens_append head.unusedBits
    ((List.ofFn fun i => (indices i).encode).flatten ++ (immediate.encode ++ rest))
  have hindices := WrittenIndex.decodeIndices_ofFn h (immediate.encode ++ rest)
  have himmediate := takeImmediate_encode_append immediate rest
  have hplain := decode_of_layout (head.toNat_plainToken indices) hchain hindices himmediate
  rw [encode, operand, List.cons_append, List.append_assoc, List.append_assoc]
  rw [decode_cons_congr (head.field_token indices (by omega)) (head.field_token indices (by omega))
    (head.field_token indices (by omega)) (head.indexFields_token indices)
    (head.isExtended_token indices), hplain, head.modifier.ofChain_tokens]
  rfl

/-- Every operand is read back in front of any tokens, which are left over. -/
theorem decode_encode_append (o : WrittenOperand) (rest : List Token) :
    decode (o.encode ++ rest) = .ok (o.operand, rest) := by
  -- Operands and the indices in them are nested, so the induction is over both.
  have hreads : o.ReadsBack := by
    refine @WrittenOperand.rec ReadsBack WrittenIndex.ReadsBack ?mk ?word ?long ?relative
      ?wordRelative ?longRelative o
    case mk => exact fun head indices immediate h => readsBack_mk head immediate h
    case word => exact WrittenIndex.readsBack_word
    case long => exact WrittenIndex.readsBack_long
    case relative => exact fun base h => WrittenIndex.readsBack_relative h
    case wordRelative => exact fun offset base h => WrittenIndex.readsBack_wordRelative offset h
    case longRelative => exact fun offset base h => WrittenIndex.readsBack_longRelative offset h
  exact hreads rest

/-- A negated element of a constant buffer. Its number is that of a temporary register, and four. -/
example :
    (mk ⟨8, .four, 57, .neg, 2, 0, 0⟩
      ![.word 2, .wordRelative 4 (mk ⟨0, .one, 2, .none, 1, 0, 0⟩ ![.word 1]
        (.nothing (by decide) (by decide)))]
      (.nothing (by decide) (by decide))).encode =
    [0x862080E6, 0x41, 2, 4, 0x00100009, 1] := by
  decide +kernel

end WrittenOperand

end ShaderKit

import Mathlib.Data.List.Induction
import ShaderKit.Proofs.NestedOperands
import ShaderKit.Proofs.OperandParts

/-!
# Extended tokens

Bit 31 of a token says whether an extended token follows it, and each of these says whether there is
one more. Such a chain behind an opcode token changes nothing about the instruction, and a chain
behind the first token of an operand changes nothing but the modifier. The token behind the chain is
read as if it stood behind the first one.
-/

namespace ShaderKit

namespace Token

/-- Extended tokens of which each says whether another one follows. -/
def IsChain : List Token → Prop
  | [] => True
  | t :: chain => t.isExtended = !chain.isEmpty ∧ IsChain chain

theorem announces_iff {t : Token} {chain : List Token} :
    t.Announces chain ↔ t.isExtended = !chain.isEmpty ∧ IsChain chain := by
  induction chain generalizing t with
  | nil => simp [Announces, IsChain]
  | cons u chain ih => simp [Announces, IsChain, ih]

def withExtended (t : Token) (more : Bool) : Token := (t &&& 0x7FFFFFFF) ||| place more.toNat 31

section WithExtended

variable (t : Token) (more : Bool)

theorem toNat_withExtended :
    (t.withExtended more).toNat = t.toNat % 2 ^ 31 + more.toNat * 2 ^ 31 := by
  have hlow : (t &&& 0x7FFFFFFF).toNat = t.toNat % 2 ^ 31 := by
    rw [UInt32.toNat_and]
    exact Nat.and_two_pow_sub_one_eq_mod t.toNat 31
  have hlt := more.toNat_lt
  rw [withExtended, toNat_or_place (by omega) (by omega), hlow]

theorem isExtended_withExtended : (t.withExtended more).isExtended = more := by
  have hlt := more.toNat_lt
  have hfield : (t.withExtended more).field 31 1 = more.toNat := by
    rw [field_eq, toNat_withExtended]
    omega
  rw [isExtended, flag, hfield]
  cases more <;> rfl

theorem field_withExtended {low width : Nat} (h : low + width ≤ 31) :
    (t.withExtended more).field low width = t.field low width := by
  refine field_eq_of_mod_eq ?_ h
  rw [toNat_withExtended, Nat.add_mul_mod_self_right, Nat.mod_mod]

end WithExtended

/-- An opcode token whose block is longer by `n` extended tokens. -/
def lengthened (t : Token) (n : Nat) : Token := (t + place n 24).withExtended true

section Lengthened

variable {t : Token} {n : Nat} (hextended : t.isExtended = false)
  (hlength : t.blockLength + n ≤ 127)

include hextended hlength

theorem toNat_lengthened : (t.lengthened n).toNat = t.toNat + n * 2 ^ 24 + 2 ^ 31 := by
  have hlt := t.toNat_lt
  have hbit : t.toNat / 2 ^ 31 % 2 ^ 1 ≠ 1 := by
    rw [← field_eq]
    simpa [isExtended, flag] using hextended
  rw [blockLength, field_eq] at hlength
  have hplace : (place n 24).toNat = n * 2 ^ 24 := toNat_place (by omega)
  have hsum : (t + place n 24).toNat = t.toNat + n * 2 ^ 24 := by
    rw [UInt32.toNat_add, hplace]
    omega
  rw [lengthened, toNat_withExtended, hsum, Bool.toNat_true]
  omega

theorem field_lengthened {low width : Nat} (h : low + width ≤ 24) :
    (t.lengthened n).field low width = t.field low width := by
  refine field_eq_of_mod_eq ?_ h
  rw [toNat_lengthened hextended hlength]
  omega

theorem blockLength_lengthened : (t.lengthened n).blockLength = t.blockLength + n := by
  rw [blockLength, blockLength, field_eq, field_eq] at *
  rw [toNat_lengthened hextended (by rwa [blockLength, field_eq])]
  have hlt := t.toNat_lt
  omega

theorem opcode_lengthened : (t.lengthened n).opcode = t.opcode := by
  rw [opcode, opcode, field_lengthened hextended hlength (by decide)]

theorem controls_lengthened : (t.lengthened n).controls = t.controls := by
  rw [controls, controls, field_lengthened hextended hlength (by decide)]

theorem saturate_lengthened : (t.lengthened n).saturate = t.saturate := by
  rw [saturate, saturate, flag, flag, field_lengthened hextended hlength (by decide)]

end Lengthened

end Token

/-- The block with a chain of extended tokens behind its opcode token. -/
def Block.extend (b : Block) (chain : List Token) : Block where
  first := b.first.lengthened chain.length
  rest := chain ++ b.rest

theorem Opcode.ne_customData_of_format? {op : Opcode} {format : InstructionFormat}
    (h : op.format? = some format) : op ≠ .customData := by
  rintro rfl
  have hnop := (format?_lt_or_nop h).2 (by decide)
  revert hnop
  decide

namespace Block

variable {b : Block} {format : InstructionFormat} {chain : List Token}

/-- A block behind whose opcode token a chain of extended tokens can be put in. -/
structure Extendable (b : Block) (format : InstructionFormat) (chain : List Token) : Prop where
  wellSized : b.WellSized
  format_eq : b.first.opcode.format? = some format
  isExtended_eq : b.first.isExtended = false
  isChain : Token.IsChain chain
  ne_nil : chain ≠ []
  length_le : b.first.blockLength + chain.length ≤ 127

namespace Extendable

variable (h : b.Extendable format chain)

include h

theorem opcode_eq : (b.extend chain).first.opcode = b.first.opcode :=
  Token.opcode_lengthened h.isExtended_eq h.length_le

theorem announces : (b.extend chain).first.Announces chain := by
  refine Token.announces_iff.2 ⟨?_, h.isChain⟩
  have hne : chain.isEmpty = false := List.isEmpty_eq_false_iff.2 h.ne_nil
  rw [hne]
  exact Token.isExtended_withExtended _ true

theorem wellSized_extend : (b.extend chain).WellSized := by
  have hopcode := Opcode.ne_customData_of_format? h.format_eq
  have hlength : b.first.blockLength = b.rest.length + 1 := by
    cases h.wellSized with
    | plain _ hlength => exact hlength
    | data hdata => exact absurd hdata hopcode
  have hlength' : (b.extend chain).first.blockLength = (b.extend chain).rest.length + 1 := by
    simp only [extend, Token.blockLength_lengthened h.isExtended_eq h.length_le, hlength,
      List.length_append]
    omega
  exact .plain (h.opcode_eq ▸ hopcode) hlength'

theorem ofBlock_extend : Instruction.ofBlock format (b.extend chain).first (b.extend chain).rest =
    Instruction.ofBlock format b.first b.rest := by
  have hchain : Token.takeExtended (b.extend chain).first.isExtended (b.extend chain).rest =
      some (chain, b.rest) :=
    Token.takeExtended_eq_some_iff.2 ⟨rfl, h.announces⟩
  have hnone : Token.takeExtended b.first.isExtended b.rest = some ([], b.rest) := by
    rw [h.isExtended_eq, Token.takeExtended_false]
  rw [Instruction.ofBlock, Instruction.ofBlock, hchain, hnone]
  simp only [extend, Token.opcode_lengthened h.isExtended_eq h.length_le,
    Token.controls_lengthened h.isExtended_eq h.length_le,
    Token.saturate_lengthened h.isExtended_eq h.length_le]

theorem blockItem?_extend (stop : Nat) :
    InstructionStream.blockItem? stop (b.extend chain).first (b.extend chain).rest =
      InstructionStream.blockItem? stop b.first b.rest := by
  simp only [InstructionStream.blockItem?, h.opcode_eq, h.format_eq, h.ofBlock_extend]

/-- Behind the block, the stream is where it would be if it had begun as many tokens further on as
were put in. -/
theorem items_extend (position : Nat) (rest : List Token) :
    InstructionStream.items ⟨position, (b.extend chain).tokens ++ rest⟩ =
      InstructionStream.items ⟨position + chain.length, b.tokens ++ rest⟩ := by
  have hcut := InstructionStream.cutBlock_append_of_wellSized h.wellSized_extend position rest
  have hcut' := InstructionStream.cutBlock_append_of_wellSized h.wellSized (position + chain.length)
    rest
  have hstop : position + ((b.extend chain).rest.length + 1) =
      position + chain.length + (b.rest.length + 1) := by
    rw [extend, List.length_append]
    omega
  have hitems := InstructionStream.items_of_cutBlock_ok hcut
  rw [hstop, h.blockItem?_extend] at hitems
  exact hitems.trans (InstructionStream.items_of_cutBlock_ok hcut').symm

end Extendable

end Block

namespace OperandModifier

/-- What a chain says of the modifier: the last token whose low six bits are 1 states it in its bits
6 to 13, and without such a token there is none. -/
inductive StatedIn : List Token → OperandModifier → Prop where
  | last {front back : List Token} {t : Token} (ht : t.toNat % 2 ^ 6 = 1)
      (hback : ∀ u ∈ back, u.toNat % 2 ^ 6 ≠ 1) :
      StatedIn (front ++ t :: back) (ofField (t.toNat / 2 ^ 6 % 2 ^ 8))
  | nowhere {chain : List Token} (h : ∀ u ∈ chain, u.toNat % 2 ^ 6 ≠ 1) : StatedIn chain none

theorem isStatedBy_iff (t : Token) : isStatedBy t = true ↔ t.toNat % 2 ^ 6 = 1 := by
  rw [isStatedBy, beq_iff_eq, Token.field_eq, Nat.pow_zero, Nat.div_one]

/-- One more token of a chain overrides the others, if it states a modifier. -/
theorem ofChain_append_singleton (chain : List Token) (t : Token) :
    ofChain (chain ++ [t]) = if isStatedBy t then ofField (t.field 6 8) else ofChain chain := by
  rw [ofChain, List.filter_append]
  cases ht : isStatedBy t <;> simp [ht, ofChain]

theorem statedIn_ofChain (chain : List Token) : StatedIn chain (ofChain chain) := by
  induction chain using List.reverseRecOn with
  | nil => exact .nowhere (by simp)
  | append_singleton chain t ih =>
    rw [ofChain_append_singleton]
    split
    · next ht =>
      rw [Token.field_eq]
      exact .last ((isStatedBy_iff t).1 ht) (by simp)
    · next ht =>
      have hlast : ∀ u ∈ [t], u.toNat % 2 ^ 6 ≠ 1 := by
        simpa [isStatedBy_iff] using ht
      -- The token goes to the back of what the rest of the chain states.
      generalize ofChain chain = m at ih ⊢
      cases ih with
      | last hu hback =>
        rw [List.append_assoc, List.cons_append]
        exact .last hu (List.forall_mem_append.2 ⟨hback, hlast⟩)
      | nowhere hchain => exact .nowhere (List.forall_mem_append.2 ⟨hchain, hlast⟩)

end OperandModifier

namespace TokenReader

/-- Another chain behind the first token of an operand changes its modifier only. -/
theorem OperandParts.withChain {t : Token} {chain chain' indexTokens valueTokens : List Token}
    {o : Operand} (h : OperandParts t chain indexTokens valueTokens o)
    (hchain' : Token.IsChain chain') :
    OperandParts (t.withExtended !chain'.isEmpty) chain' indexTokens valueTokens
      { o with modifier := .ofChain chain' } := by
  have hfield {low width : Nat} (hle : low + width ≤ 31) :
      (t.withExtended !chain'.isEmpty).field low width = t.field low width :=
    t.field_withExtended _ hle
  have htype : Operand.typeField (t.withExtended !chain'.isEmpty) = Operand.typeField t := by
    rw [Operand.typeField, Operand.typeField, hfield (by decide)]
  have hforms : Operand.indexFields (t.withExtended !chain'.isEmpty) = Operand.indexFields t := by
    rw [Operand.indexFields, Operand.indexFields, hfield (by decide)]
    apply List.map_congr_left
    intro i hi
    have hdimension := t.field_lt 20 2
    have hlt := List.mem_range.1 hi
    exact hfield (by omega)
  exact
    { count := by rw [hfield (by decide)]; exact h.count
      type_eq := by rw [htype]; exact h.type_eq
      selection_eq := by
        rw [Operand.selectionField, hfield (by decide)]
        exact h.selection_eq
      announces := Token.announces_iff.2 ⟨t.isExtended_withExtended _, hchain'⟩
      modifier_eq := rfl
      indices := by rw [hforms]; exact h.indices
      values := by rw [htype]; exact h.values }

end TokenReader

open TokenReader in
/-- Extended tokens do not show. A block that gets a chain of them behind its opcode token is read
as before, and so is the stream behind it. Where an operand is read, the chain of any operand in it
can be replaced by any other: just this chain is taken, and the modifier that it states is all that
changes. -/
theorem extended_tokens_are_transparent :
    (∀ (b : Block) (format : InstructionFormat) (chain : List Token),
      b.Extendable format chain →
        (b.extend chain).WellSized ∧
        Instruction.ofBlock format (b.extend chain).first (b.extend chain).rest =
          Instruction.ofBlock format b.first b.rest ∧
        ∀ position rest, InstructionStream.items ⟨position, (b.extend chain).tokens ++ rest⟩ =
          InstructionStream.items ⟨position + chain.length, b.tokens ++ rest⟩) ∧
    ∀ (tokens rest : List Token) (o : Operand), Operand.decode tokens = .ok (o, rest) →
      ∀ (path : List Nat) (inner : Operand), o.nested? path = some inner →
        ∃ before t chain parts after,
          tokens = before ++ (t :: (chain ++ parts) ++ (after ++ rest)) ∧
          Operand.decode (t :: (chain ++ parts)) = .ok (inner, []) ∧
          t.Announces chain ∧ OperandModifier.StatedIn chain inner.modifier ∧
          ∀ chain', Token.IsChain chain' → ∃ modifier, OperandModifier.StatedIn chain' modifier ∧
            ∀ rest', Operand.decode (before ++
                (t.withExtended (!chain'.isEmpty) :: (chain' ++ parts) ++ (after ++ rest'))) =
              .ok (o.replace path { inner with modifier := modifier }, rest') := by
  refine ⟨fun b format chain h => ⟨h.wellSized_extend, h.ofBlock_extend, h.items_extend⟩, ?_⟩
  intro tokens rest o hdecode path inner hinner
  -- An operand is read from the front of the tokens, so that other tokens may follow it.
  obtain ⟨front, rfl, htakes⟩ :=
    (readsFront_operand tokens.length).exists_takes (Nat.le_refl _) hdecode
  obtain ⟨before, own, after, rfl, hown, hreplace⟩ := exists_takes_replace htakes hinner
  obtain ⟨t, chain, indexTokens, valueTokens, rfl, hparts⟩ := takes_operand_iff.1 hown
  refine ⟨before, t, chain, indexTokens ++ valueTokens, after, by simp only [List.append_assoc],
    (takes_iff readsFront_operand).1 hown, hparts.announces,
    hparts.modifier_eq ▸ OperandModifier.statedIn_ofChain chain, fun chain' hchain' => ?_⟩
  refine ⟨_, OperandModifier.statedIn_ofChain chain', fun rest' => ?_⟩
  have hown' := takes_operand_iff.2 ⟨_, _, _, _, rfl, hparts.withChain hchain'⟩
  have hreads := (hreplace _ _ hown').reads rest'
  rwa [List.append_assoc, List.append_assoc] at hreads

/-- An element of a constant buffer at a number that a temporary register is added to. -/
def bufferElement : WrittenOperand :=
  .mk ⟨8, .four, 57, .neg, 2, 0, 0⟩
    ![.word 2, .wordRelative 4 (.mk ⟨0, .one, 2, .none, 1, 0, 0⟩ ![.word 1]
      (.nothing (by decide) (by decide)))]
    (.nothing (by decide) (by decide))

theorem transparent_behind_discard_and_in_bufferElement :
    let b : Block := ⟨0x0300000D, [0x00004001, 7]⟩
    let chain : List Token := [0x80000001, 0x00000002]
    b.Extendable ⟨.controlFlow, 0, 1⟩ chain ∧
      b.extend chain = ⟨0x8500000D, [0x80000001, 0x00000002, 0x00004001, 7]⟩ ∧
      Instruction.ofBlock ⟨.controlFlow, 0, 1⟩ (b.extend chain).first (b.extend chain).rest =
        Instruction.ofBlock ⟨.controlFlow, 0, 1⟩ b.first b.rest ∧
      Operand.decode bufferElement.encode = .ok (bufferElement.operand, []) ∧
      ∃ inner, bufferElement.operand.nested? [1] = some inner ∧
        ∃ before t parts after modifier, OperandModifier.StatedIn [0xC1] modifier ∧
          Operand.decode (before ++ (Token.withExtended t true :: (0xC1 :: parts) ++ after)) =
            .ok (bufferElement.operand.replace [1] { inner with modifier := modifier }, []) := by
  intro b chain
  have hextend : b.Extendable ⟨.controlFlow, 0, 1⟩ chain :=
    { wellSized := .plain (by decide) rfl
      format_eq := by decide +kernel
      isExtended_eq := by decide
      isChain := ⟨by decide, by decide, trivial⟩
      ne_nil := by decide
      length_le := by decide }
  have hdecode : Operand.decode bufferElement.encode = .ok (bufferElement.operand, []) := by
    have hread := bufferElement.decode_encode_append []
    rwa [List.append_nil] at hread
  obtain ⟨-, hblock, -⟩ := extended_tokens_are_transparent.1 b _ chain hextend
  obtain ⟨before, t, _, parts, after, -, -, -, -, hchain⟩ :=
    extended_tokens_are_transparent.2 _ [] _ hdecode [1] _ rfl
  obtain ⟨modifier, hmodifier, hread⟩ := hchain [0xC1] ⟨by decide, trivial⟩
  have hread' := hread []
  rw [List.append_nil] at hread'
  exact ⟨hextend, by decide, hblock, hdecode, _, rfl, before, t, parts, after, modifier, hmodifier,
    hread'⟩

end ShaderKit

import ShaderKit.InstructionStream
import ShaderKit.Proofs.OperandRoundTrip

/-!
# Reading back programs

An instruction whose operands are of the simple forms takes at most 25 tokens, so its length
fits the length field of its first token and a stream cuts it off where it ends. By induction
a stream over the tokens of a row of instructions yields these instructions in their order,
and a program that is built from them is read back.
-/

namespace ShaderKit

theorem Opcode.operands_le_of_format? {op : Opcode} {f : InstructionFormat}
    (h : op.format? = some f) : f.destinations + f.sources ≤ 6 :=
  Opcode.format?_of_rows (P := fun _ f => f.destinations + f.sources ≤ 6) (by decide +kernel) h

/-- An instruction as it is written: an opcode that computes something, and as many operands
as its format asks for. -/
structure WrittenInstruction where
  opcode : Opcode
  format : InstructionFormat
  operands : List SimpleOperand
  format?_eq : opcode.format? = some format := by decide
  ne_nop : opcode ≠ .nop := by decide
  length_operands : operands.length = format.destinations + format.sources

namespace WrittenInstruction

def tokens (i : WrittenInstruction) : List Token :=
  Instruction.build i.opcode (i.operands.map SimpleOperand.tokens)

/-- What an instruction means: the first operands are written and the others are read. -/
def instruction (i : WrittenInstruction) : Instruction where
  opcode := i.opcode
  kind := i.format.kind
  controls := 0
  saturate := false
  destinations := (i.operands.take i.format.destinations).map SimpleOperand.operand
  sources := (i.operands.drop i.format.destinations).map SimpleOperand.operand

def openingToken (i : WrittenInstruction) : Token :=
  Instruction.openingToken i.opcode (i.operands.map SimpleOperand.tokens)

def operandTokens (i : WrittenInstruction) : List Token := i.operands.flatMap SimpleOperand.tokens

theorem tokens_eq (i : WrittenInstruction) : i.tokens = i.openingToken :: i.operandTokens := by
  rw [tokens, Instruction.build, openingToken, operandTokens, List.flatMap_def]

theorem code_lt (i : WrittenInstruction) : i.opcode.code < 2 ^ 11 :=
  (Opcode.format?_lt_or_nop i.format?_eq).1

theorem length_operandTokens_le (i : WrittenInstruction) : i.operandTokens.length ≤ 24 := by
  have hcount := Opcode.operands_le_of_format? i.format?_eq
  have hlength := SimpleOperand.length_flatMap_tokens_le i.operands
  rw [i.length_operands] at hlength
  rw [operandTokens]
  omega

theorem toNat_openingToken (i : WrittenInstruction) :
    i.openingToken.toNat = i.opcode.code + (i.operandTokens.length + 1) * 2 ^ 24 := by
  have hcode := i.code_lt
  have hlength := i.length_operandTokens_le
  have hlow : (Token.place i.opcode.code 0).toNat = i.opcode.code := by
    rw [Token.toNat_place (by omega), Nat.pow_zero, Nat.mul_one]
  rw [openingToken, Instruction.openingToken, ← List.flatMap_def,
    Token.toNat_or_place (by omega) (by rw [operandTokens] at hlength; omega), hlow, operandTokens]

theorem opcode_openingToken (i : WrittenInstruction) : i.openingToken.opcode = i.opcode := by
  have hcode := i.code_lt
  have hfield : i.openingToken.field 0 11 = i.opcode.code := by
    rw [Token.field_eq, i.toNat_openingToken]
    omega
  rw [Token.opcode, hfield]

theorem blockLength_openingToken (i : WrittenInstruction) :
    i.openingToken.blockLength = i.operandTokens.length + 1 := by
  have hcode := i.code_lt
  have hlength := i.length_operandTokens_le
  rw [Token.blockLength, Token.field_eq, i.toNat_openingToken]
  omega

theorem controls_openingToken (i : WrittenInstruction) : i.openingToken.controls = 0 := by
  have hcode := i.code_lt
  rw [Token.controls, Token.field_eq, i.toNat_openingToken]
  omega

theorem saturate_openingToken (i : WrittenInstruction) : i.openingToken.saturate = false := by
  have hcode := i.code_lt
  have hfield : i.openingToken.field 13 1 = 0 := by
    rw [Token.field_eq, i.toNat_openingToken]
    omega
  rw [Token.saturate, Token.flag, hfield]
  rfl

theorem isExtended_openingToken (i : WrittenInstruction) : i.openingToken.isExtended = false := by
  have hcode := i.code_lt
  have hlength := i.length_operandTokens_le
  have hfield : i.openingToken.field 31 1 = 0 := by
    rw [Token.field_eq, i.toNat_openingToken]
    omega
  rw [Token.isExtended, Token.flag, hfield]
  rfl

theorem isSkipped_opcode (i : WrittenInstruction) : i.opcode.isSkipped = false := by
  have hskipped := (Opcode.format?_lt_or_nop i.format?_eq).2
  rw [Bool.eq_false_iff]
  intro h
  exact i.ne_nop (hskipped h)

theorem ne_customData (i : WrittenInstruction) : i.opcode ≠ .customData := by
  intro h
  have hskipped := i.isSkipped_opcode
  rw [h] at hskipped
  exact absurd hskipped (by decide)

theorem ofBlock_operandTokens (i : WrittenInstruction) :
    Instruction.ofBlock i.format i.openingToken i.operandTokens = .ok i.instruction := by
  have hlength := i.length_operands
  have hdestinations : Operand.decodeList i.format.destinations i.operandTokens =
      .ok (i.instruction.destinations,
        (i.operands.drop i.format.destinations).flatMap SimpleOperand.tokens) := by
    have htake : (i.operands.take i.format.destinations).length = i.format.destinations := by
      rw [List.length_take]
      omega
    have hdecode := SimpleOperand.decodeList_tokens_append
      (i.operands.take i.format.destinations)
      ((i.operands.drop i.format.destinations).flatMap SimpleOperand.tokens)
    rw [htake, ← List.flatMap_append, List.take_append_drop] at hdecode
    exact hdecode
  have hsources : Operand.decodeList i.format.sources
      ((i.operands.drop i.format.destinations).flatMap SimpleOperand.tokens) =
        .ok (i.instruction.sources, []) := by
    have hdrop : (i.operands.drop i.format.destinations).length = i.format.sources := by
      rw [List.length_drop]
      omega
    have hdecode := SimpleOperand.decodeList_tokens_append
      (i.operands.drop i.format.destinations) []
    rw [hdrop, List.append_nil] at hdecode
    exact hdecode
  rw [Instruction.ofBlock, i.isExtended_openingToken, Token.takeExtended_false]
  simp only [bind, Except.bind, hdestinations, hsources, i.opcode_openingToken,
    i.controls_openingToken, i.saturate_openingToken]
  rfl

theorem cutBlock_operandTokens_append (i : WrittenInstruction) (position : Nat)
    (rest : List Token) :
    InstructionStream.cutBlock position i.openingToken (i.operandTokens ++ rest) =
      .ok (i.operandTokens, rest) := by
  have hlength : InstructionStream.blockLength i.openingToken (i.operandTokens ++ rest) =
      i.operandTokens.length + 1 := by
    rw [InstructionStream.blockLength, i.opcode_openingToken, if_neg i.ne_customData,
      i.blockLength_openingToken]
  simp only [InstructionStream.cutBlock, hlength, Nat.add_sub_cancel, List.take_left,
    List.drop_left, Nat.add_one_ne_zero, if_false, Nat.lt_irrefl]

theorem blockItem?_operandTokens (i : WrittenInstruction) (stop : Nat) :
    InstructionStream.blockItem? stop i.openingToken i.operandTokens =
      some (.ok i.instruction) := by
  rw [InstructionStream.blockItem?, i.opcode_openingToken, i.isSkipped_opcode, i.format?_eq]
  simp only [Bool.false_eq_true, if_false, i.ofBlock_operandTokens]
  rfl

/-- A stream that starts with an instruction yields it and goes on behind it. -/
theorem next?_tokens_append (i : WrittenInstruction) (position : Nat) (rest : List Token) :
    InstructionStream.next? ⟨position, i.tokens ++ rest⟩ =
      some (.ok i.instruction, ⟨position + i.tokens.length, rest⟩) := by
  have hcut := i.cutBlock_operandTokens_append position rest
  rw [i.tokens_eq, List.cons_append, InstructionStream.next?]
  split
  · next e he =>
    rw [hcut] at he
    cases he
  · next block rest' hblock =>
    rw [hcut] at hblock
    cases hblock
    simp only [i.blockItem?_operandTokens, List.length_cons]

/-- A stream over a row of instructions yields them in their order. -/
theorem items_flatMap_tokens (is : List WrittenInstruction) (position : Nat) :
    InstructionStream.items ⟨position, is.flatMap tokens⟩ =
      is.map fun i => .ok i.instruction := by
  induction is generalizing position with
  | nil =>
    apply InstructionStream.items_of_none
    rw [List.flatMap_nil, InstructionStream.next?]
  | cons i is ih =>
    have hnext := i.next?_tokens_append position (is.flatMap tokens)
    rw [List.flatMap_cons, InstructionStream.items_of_some hnext, ih, List.map_cons]

end WrittenInstruction

namespace Program

theorem toNat_versionToken (programType : UInt16) :
    (versionToken programType).toNat = 5 * 2 ^ 4 + programType.toNat * 2 ^ 16 := by
  have htype := programType.toNat_lt
  rw [versionToken, UInt32.or_comm, Token.toNat_or_place (by decide) (by omega)]
  rfl

theorem stage_versionToken (programType : UInt16) :
    (versionToken programType).stage = .ofCode programType.toNat := by
  have htype := programType.toNat_lt
  have hfield : (versionToken programType).field 16 16 = programType.toNat := by
    rw [Token.field_eq, toNat_versionToken]
    omega
  rw [Token.stage, hfield]

theorem model_versionToken (programType : UInt16) :
    (versionToken programType).model = ⟨5, 0⟩ := by
  have hmajor : (versionToken programType).field 4 4 = 5 := by
    rw [Token.field_eq, toNat_versionToken]
    omega
  have hminor : (versionToken programType).field 0 4 = 0 := by
    rw [Token.field_eq, toNat_versionToken]
    omega
  rw [Token.model, hmajor, hminor]

theorem parse_build (programType : UInt16) {body : List Token}
    (h : body.length + headerLength < 2 ^ 32) :
    parse (build programType body) =
      .ok ⟨.ofCode programType.toNat, ⟨5, 0⟩, buildTokens programType body⟩ := by
  have hlength : (buildTokens programType body).length = body.length + headerLength := rfl
  have haligned : (build programType body).length % 4 = 0 := by
    rw [build, Bytes.length_ofDwords, Nat.mul_mod_right]
  have hdwords : (build programType body).toDwords = buildTokens programType body := by
    have hread := Bytes.toDwords_ofDwords_append (buildTokens programType body) []
    rw [List.append_nil] at hread
    exact hread.trans (List.append_nil _)
  have hdeclared : (UInt32.ofNat (body.length + headerLength)).toNat =
      body.length + headerLength := UInt32.toNat_ofNat_of_lt' h
  have hfits : headerLength ≤ body.length + headerLength ∧
      body.length + headerLength ≤ body.length + headerLength :=
    ⟨Nat.le_add_left _ _, Nat.le_refl _⟩
  rw [parse, require_of haligned, hdwords]
  simp only [buildTokens, bind, Except.bind, hdeclared, require_of hfits, stage_versionToken,
    model_versionToken]
  have htake := List.take_of_length_le (Nat.le_of_eq hlength)
  exact congrArg (fun tokens => Except.ok (Program.mk _ _ tokens)) htake

theorem instructions_of_body {p : Program} {is : List WrittenInstruction}
    (h : p.body = is.flatMap WrittenInstruction.tokens) :
    p.instructions = .ok (is.map WrittenInstruction.instruction) := by
  have hitems := WrittenInstruction.items_flatMap_tokens is headerLength
  rw [instructions, InstructionStream.ofProgram, h, hitems, List.mapM_map]
  exact List.mapM_pure

/-- A program that is built from instructions is read back with these instructions. -/
theorem instructions_of_build (programType : UInt16) (is : List WrittenInstruction)
    (h : (is.flatMap WrittenInstruction.tokens).length + headerLength < 2 ^ 32) :
    ∃ p, parse (build programType (is.flatMap WrittenInstruction.tokens)) = .ok p ∧
      p.stage = .ofCode programType.toNat ∧ p.model = ⟨5, 0⟩ ∧
      p.instructions = .ok (is.map WrittenInstruction.instruction) :=
  ⟨_, parse_build programType h, rfl, rfl, instructions_of_body rfl⟩

/-- A sampling whose texture is indexed with `r1`, and a move of an immediate value. -/
def samplingInstructions : List WrittenInstruction :=
  [ { opcode := ⟨69⟩
      format := ⟨.textureSample, 1, 3⟩
      operands := [
        .register { code := 0 } 0,
        .registerPair { code := 8 } 1 4,
        .registerRelative { code := 7 } 2 1,
        .register { code := 6 } 3]
      length_operands := rfl },
    { opcode := ⟨54⟩
      format := ⟨.vectorAlu, 1, 1⟩
      operands := [.register { code := 2 } 0, .immediateWord 9]
      length_operands := rfl } ]

def samplingTokens : List Token :=
  [0x0C000045, 0x001000F2, 0, 0x002080F2, 1, 4, 0x00D070F2, 2, 0x00100009, 1, 0x00106000, 3,
    0x05000036, 0x001020F2, 0, 0x00004001, 9]

theorem instructions_of_samplingTokens :
    samplingTokens.length + headerLength < 2 ^ 32 ∧
      ∃ p, parse (build 0 samplingTokens) = .ok p ∧ p.stage = .pixel ∧ p.model = ⟨5, 0⟩ ∧
        p.instructions = .ok
          [⟨⟨69⟩, .textureSample, 0, false,
              [⟨.temp, .four, 60, .none, [⟨0, none⟩], none⟩],
              [⟨.constantBuffer, .four, 60, .none, [⟨1, none⟩, ⟨4, none⟩], none⟩,
                ⟨.resource, .four, 60, .none,
                  [⟨2, some ⟨.temp, .one, 2, .none, [⟨1, none⟩], none⟩⟩], none⟩,
                ⟨.sampler, .zero, 0, .none, [⟨3, none⟩], none⟩]⟩,
            ⟨⟨54⟩, .vectorAlu, 0, false,
              [⟨.output, .four, 60, .none, [⟨0, none⟩], none⟩],
              [⟨.imm32, .one, 0, .none, [], some (.words 9 9 9 9)⟩]⟩] := by
  have htokens : samplingInstructions.flatMap WrittenInstruction.tokens = samplingTokens := by
    decide
  have hread := instructions_of_build 0 samplingInstructions (by decide)
  rw [htokens] at hread
  exact ⟨by decide, hread⟩

end Program

end ShaderKit

import ShaderKit.Opcode
import ShaderKit.Operand
import ShaderKit.Program

/-!
# Writing programs

Programs of shader model 5.0 are written from instructions, and these from an opcode and
operands of four simple forms: a register with one or two numbers as indices, a register
whose index adds a temporary register, and a single immediate value.
-/

namespace ShaderKit

namespace Operand

/-- The first token of a register operand with a number of indices. Samplers have no
components; all other registers have four, all of them selected. -/
def registerToken (type : OperandType) (dimension : Nat) : Token :=
  let components := if type = .sampler then 0 else Token.place 2 0 ||| Token.place 15 4
  components ||| Token.place type.code 12 ||| Token.place dimension 20

def register (type : OperandType) (index : UInt32) : List Token :=
  [registerToken type 1, index]

def registerPair (type : OperandType) (first second : UInt32) : List Token :=
  [registerToken type 2, first, second]

/-- The first token of a temporary register of which one component is selected. -/
def baseToken : Token :=
  Token.place 1 0 ||| Token.place 2 2 ||| Token.place OperandType.temp.code 12 ||| Token.place 1 20

/-- A register whose index is a number and the value of a temporary register added to it. -/
def registerRelative (type : OperandType) (index temp : UInt32) : List Token :=
  [registerToken type 1 ||| Token.place 3 22, index, baseToken, temp]

def immediateWord (value : UInt32) : List Token :=
  [Token.place 1 0 ||| Token.place OperandType.imm32.code 12, value]

end Operand

namespace Instruction

def openingToken (op : Opcode) (operands : List (List Token)) : Token :=
  Token.place op.code 0 ||| Token.place (operands.flatten.length + 1) 24

def build (op : Opcode) (operands : List (List Token)) : List Token :=
  openingToken op operands :: operands.flatten

end Instruction

namespace Program

/-- The version token of shader model 5.0 for a kind of program. -/
def versionToken (programType : UInt16) : Token :=
  Token.place programType.toNat 16 ||| Token.place 5 4

def buildTokens (programType : UInt16) (body : List Token) : List Token :=
  versionToken programType :: UInt32.ofNat (body.length + headerLength) :: body

def build (programType : UInt16) (body : List Token) : Bytes :=
  Bytes.ofDwords (buildTokens programType body)

end Program

end ShaderKit

import ShaderKit.Opcode
import ShaderKit.OperandDecoding

/-!
# Instructions

An instruction block starts with an opcode token, which holds the opcode, control bits, the
saturate flag and the block's length. A chain of extended tokens may follow it, then the
operands that are written and those that are read. Tokens of the block behind the last
operand are ignored.
-/

namespace ShaderKit

structure Instruction where
  opcode : Opcode
  kind : InstructionClass
  controls : Nat
  saturate : Bool
  destinations : List Operand
  sources : List Operand

namespace Token

def opcode (t : Token) : Opcode := ⟨t.field 0 11⟩

/-- The bits of an opcode token whose meaning depends on the opcode. -/
def controls (t : Token) : Nat := t.field 11 13

/-- Whether the result is clamped to the unit interval. -/
def saturate (t : Token) : Bool := t.flag 13

def blockLength (t : Token) : Nat := t.field 24 7

end Token

namespace Instruction

/-- The instruction of a block whose opcode has no format; its operands are not known. -/
def unformatted (t : Token) : Instruction where
  opcode := t.opcode
  kind := .undefined
  controls := t.controls
  saturate := false
  destinations := []
  sources := []

def ofBlock (format : InstructionFormat) (t : Token) (tail : List Token) :
    Except Stop Instruction :=
  match Token.takeExtended t.isExtended tail with
  | none => .error .truncated
  | some (_, rest) => do
    let (destinations, rest') ← Operand.decodeList format.destinations rest
    let (sources, _) ← Operand.decodeList format.sources rest'
    return {
      opcode := t.opcode
      kind := format.kind
      controls := t.controls
      saturate := t.saturate
      destinations := destinations
      sources := sources }

end Instruction

end ShaderKit

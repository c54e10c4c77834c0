import ShaderKit.ContainerParsing
import ShaderKit.InstructionStream
import ShaderKit.ShaderAnalysis
import ShaderKit.SignatureSelection

/-!
# Shaders

A shader is a container with signatures and a program. Its analysis reads the container, then
the input, the output and the patch constant signature, then the program, and last its
instructions one by one; the first fault ends it.
-/

namespace ShaderKit

inductive ShaderFault where
  | format (fault : FormatFault)
  | program (fault : ProgramFault)
  | decode (fault : DecodeFault)
  deriving DecidableEq, Repr

def ShaderFault.message : ShaderFault → String
  | format fault => fault.message
  | program fault => fault.message
  | decode fault => fault.message

namespace Container

/-- The signature of a kind, of which the container need not have one. -/
def optionalSignature (c : Container) (kind : FourCC) : Except FormatFault (Option Signature) :=
  match c.signature? kind with
  | none => .ok none
  | some (.ok s) => .ok (some s)
  | some (.error fault) => .error fault

def signatures (c : Container) : Except FormatFault ShaderSignatures := do
  let input ← c.optionalSignature .isgn
  let output ← c.optionalSignature .osgn
  let patchConstant ← c.optionalSignature .pcsg
  return ⟨input, output, patchConstant⟩

end Container

namespace ShaderUsage

/-- Notes the items of a stream up to its end or to the fault that ends it. -/
def noteStream (u : ShaderUsage) (s : InstructionStream) : Except DecodeFault ShaderUsage :=
  match _h : s.next? with
  | none => .ok u
  | some (.ok i, s') => noteStream (u.note i) s'
  | some (.error fault, _) => .error fault
termination_by s.tokens.length
decreasing_by exact InstructionStream.length_lt_of_next? _h

end ShaderUsage

def analyzeShader (input : Bytes) : Except ShaderFault (Program × ShaderUsage) := do
  let container ← (Container.parse input).mapError .format
  let signatures ← container.signatures.mapError .format
  let program ← (Program.ofContainer container).mapError .program
  let usage ← ((ShaderUsage.ofSignatures signatures).noteStream
    (InstructionStream.ofProgram program)).mapError .decode
  return (program, usage)

end ShaderKit

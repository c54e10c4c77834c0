import ShaderKit.Blake3
import ShaderKit.Hexadecimal
import ShaderKit.Program

/-!
# Shader keys

A key identifies a shader by its stage and the hash of its code. It does not depend on the
process, so it can be stored.
-/

namespace ShaderKit

structure ShaderKey where
  stage : ShaderStage
  hash : Blake3.Digest
  deriving DecidableEq, Repr

namespace ShaderKey

def ofCode (stage : ShaderStage) (code : Bytes) : ShaderKey := ⟨stage, Blake3.hash code⟩

def stageLetters : ShaderStage → String
  | .pixel => "ps"
  | .vertex => "vs"
  | .geometry => "gs"
  | .hull => "hs"
  | .domain => "ds"
  | .compute => "cs"
  | .unknown _ => "xs"

/-- The key in words: its stage and the digits of its hash. -/
def text (k : ShaderKey) : String := stageLetters k.stage ++ "_" ++ Hexadecimal.text k.hash.toList

def debugText (k : ShaderKey) : String := s!"ShaderKey({k.text})"

end ShaderKey

end ShaderKit

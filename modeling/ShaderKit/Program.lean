import ShaderKit.Container
import ShaderKit.Requirement
import ShaderKit.Token

/-!
# Programs

The payload of a program chunk is a list of tokens. The first states the stage and the
shader model, the second the number of tokens including these two; tokens past that number
are dropped.
-/

namespace ShaderKit

inductive ShaderStage where
  | pixel
  | vertex
  | geometry
  | hull
  | domain
  | compute
  | unknown (code : Nat)
  deriving DecidableEq, Repr

def ShaderStage.ofCode : Nat → ShaderStage
  | 0 => pixel
  | 1 => vertex
  | 2 => geometry
  | 3 => hull
  | 4 => domain
  | 5 => compute
  | code => unknown code

structure ShaderModel where
  major : Nat
  minor : Nat
  deriving DecidableEq, Repr

/-- The stage in the high half of a version token. -/
def Token.stage (t : Token) : ShaderStage := .ofCode (t.field 16 16)

/-- The shader model in the low byte of a version token. -/
def Token.model (t : Token) : ShaderModel := ⟨t.field 4 4, t.field 0 4⟩

/-- A program: what its version token states, and all its tokens. -/
structure Program where
  stage : ShaderStage
  model : ShaderModel
  tokens : List Token
  deriving DecidableEq, Repr

inductive ProgramFault where
  | missingChunk
  | misaligned (length : Nat)
  | tooShort (tokens : Nat)
  | declaredLength (declared available : Nat)
  deriving DecidableEq, Repr

def ProgramFault.message : ProgramFault → String
  | missingChunk => "container has no SHEX or SHDR chunk"
  | misaligned length => s!"program chunk is {length} bytes, not a whole number of tokens"
  | tooShort tokens =>
    s!"program chunk holds {tokens} tokens, fewer than the version and length header"
  | declaredLength declared available =>
    s!"program length token says {declared} tokens, chunk holds {available}"

namespace Program

def headerLength : Nat := 2

/-- The tokens behind the version and the length. -/
def body (p : Program) : List Token := p.tokens.drop headerLength

def parse (bytes : Bytes) : Except ProgramFault Program := do
  require (bytes.length % 4 = 0) (.misaligned bytes.length)
  match bytes.toDwords with
  | version :: length :: body =>
    let available := body.length + headerLength
    let declared := length.toNat
    require (headerLength ≤ declared ∧ declared ≤ available) (.declaredLength declared available)
    return ⟨Token.stage version, Token.model version, (version :: length :: body).take declared⟩
  | tokens => throw (.tooShort tokens.length)

def ofContainer (c : Container) : Except ProgramFault Program :=
  match c.programChunk? with
  | some chunk => parse chunk.payload
  | none => .error .missingChunk

end Program

end ShaderKit

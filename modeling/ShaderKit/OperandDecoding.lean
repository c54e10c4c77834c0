import ShaderKit.Operand

/-!
# Reading operands

An operand is its first token, a chain of extended tokens, its indices and, for immediates,
its values. A base register in an index is written as an operand in turn. A reader takes
tokens from the front of a list and hands on the rest; where it stops with a fault, the
number of tokens that it had not taken says where. Each operand takes at least one token,
which bounds the nesting.
-/

namespace ShaderKit

/-- Why an operand could not be read. No operand has more than three indices, so the fault
of an index dimension belongs to the language but is never found by the reader. -/
inductive OperandFault where
  | truncated
  | componentCount (encoding : Nat)
  | indexDimension (dimension : Nat)
  | indexRepresentation (representation : Nat)
  deriving DecidableEq, Repr

/-- Why and where a reader stopped: the fault, and the number of tokens not taken. -/
structure Stop where
  fault : OperandFault
  left : Nat
  deriving DecidableEq, Repr

namespace Stop

def truncated : Stop := ⟨.truncated, 0⟩

end Stop

/-- A value with the tokens behind it, of which there are fewer than `bound`. -/
structure Taken (α : Type) (bound : Nat) where
  value : α
  rest : List Token
  rest_lt : rest.length < bound

inductive IndexForm where
  | word
  | long
  | relative
  | wordRelative
  | longRelative
  deriving DecidableEq, Repr

namespace IndexForm

def ofField? : Nat → Option IndexForm
  | 0 => some word
  | 1 => some long
  | 2 => some relative
  | 3 => some wordRelative
  | 4 => some longRelative
  | _ => none

/-- Whether a base register is written behind the number. -/
def hasBase : IndexForm → Bool
  | word | long => false
  | relative | wordRelative | longRelative => true

end IndexForm

namespace Operand

def joinLong (high low : Token) : UInt64 := UInt64.ofNat (high.toNat * UInt32.size + low.toNat)

/-- Takes the number of an index, which is zero where none is written. Long numbers are
written with their high half first. -/
def takeOffset : IndexForm → List Token → Option (UInt64 × List Token)
  | .word, w :: rest | .wordRelative, w :: rest => some (w.toUInt64, rest)
  | .long, high :: low :: rest | .longRelative, high :: low :: rest =>
    some (joinLong high low, rest)
  | .relative, rest => some (0, rest)
  | _, _ => none

/-- Takes the values of an immediate operand: none, one that stands in all places, or all. -/
def takeImmediate : OperandType → ComponentCount → List Token →
    Option (Option Immediate × List Token)
  | .imm32, .zero, rest => some (some (.words 0 0 0 0), rest)
  | .imm32, .one, x :: rest => some (some (.words x x x x), rest)
  | .imm32, .four, x :: y :: z :: w :: rest => some (some (.words x y z w), rest)
  | .imm64, .zero, rest => some (some (.longs 0 0), rest)
  | .imm64, .one, high :: low :: rest =>
    some (some (.longs (joinLong high low) (joinLong high low)), rest)
  | .imm64, .four, h₀ :: l₀ :: h₁ :: l₁ :: rest =>
    some (some (.longs (joinLong h₀ l₀) (joinLong h₁ l₁)), rest)
  | .imm32, _, _ | .imm64, _, _ => none
  | _, _, rest => some (none, rest)

theorem length_le_of_takeOffset {form : IndexForm} {tokens rest : List Token}
    {offset : UInt64} (h : takeOffset form tokens = some (offset, rest)) :
    rest.length ≤ tokens.length := by
  unfold takeOffset at h
  split at h <;> simp_all <;> omega

theorem length_le_of_takeImmediate {type : OperandType} {components : ComponentCount}
    {tokens rest : List Token} {immediate : Option Immediate}
    (h : takeImmediate type components tokens = some (immediate, rest)) :
    rest.length ≤ tokens.length := by
  unfold takeImmediate at h
  split at h <;> simp_all <;> omega

/-- The fields of an operand token. -/
def typeField (t : Token) : OperandType := .ofCode (t.field 12 8)

def selectionField (t : Token) : Nat := t.field 2 10

/-- The encoded forms of the indices, as many as the operand has. -/
def indexFields (t : Token) : List Nat :=
  (List.range (t.field 20 2)).map fun i => t.field (22 + 3 * i) 3

/-- Fewer tokens, or no more of them and a simpler task. -/
private theorem lex_of_le {m n a b : Nat} (h : m < n ∨ m ≤ n ∧ a < b) :
    Prod.Lex (· < ·) (· < ·) (m, a) (n, b) := by
  rw [Prod.lex_def]
  simp only
  omega

mutual

def take (tokens : List Token) : Except Stop (Taken Operand tokens.length) :=
  match tokens with
  | [] => .error .truncated
  | t :: tail =>
    match ComponentCount.ofField? (t.field 0 2) with
    | none => .error ⟨.componentCount (t.field 0 2), tail.length⟩
    | some components =>
      match h : Token.takeExtended t.isExtended tail with
      | none => .error .truncated
      | some (chain, rest) =>
        have hrest := Token.length_le_of_takeExtended h
        match takeIndices (indexFields t) rest with
        | .error stop => .error stop
        | .ok ⟨indices, rest', hrest'⟩ =>
          match h' : takeImmediate (typeField t) components rest' with
          | none => .error .truncated
          | some (immediate, rest'') =>
            have hrest'' := length_le_of_takeImmediate h'
            .ok ⟨⟨typeField t, components, selectionField t, .ofChain chain, indices, immediate⟩,
              rest'', by simp only [List.length_cons]; omega⟩
termination_by (tokens.length, 0)
decreasing_by all_goals (apply lex_of_le; simp only [List.length_cons]; omega)

def takeIndices (forms : List Nat) (tokens : List Token) :
    Except Stop (Taken (List (OperandIndex Operand)) (tokens.length + 1)) :=
  match forms with
  | [] => .ok ⟨[], tokens, Nat.lt_succ_self _⟩
  | form :: forms =>
    match takeIndex form tokens with
    | .error stop => .error stop
    | .ok ⟨index, rest, hrest⟩ =>
      match takeIndices forms rest with
      | .error stop => .error stop
      | .ok ⟨indices, rest', hrest'⟩ => .ok ⟨index :: indices, rest', by omega⟩
termination_by (tokens.length, forms.length + 2)
decreasing_by all_goals (apply lex_of_le; simp only [List.length_cons]; omega)

def takeIndex (form : Nat) (tokens : List Token) :
    Except Stop (Taken (OperandIndex Operand) (tokens.length + 1)) :=
  match IndexForm.ofField? form with
  | none => .error ⟨.indexRepresentation form, tokens.length⟩
  | some form =>
    match h : takeOffset form tokens with
    | none => .error .truncated
    | some (offset, rest) =>
      have hrest := length_le_of_takeOffset h
      if form.hasBase then
        match take rest with
        | .error stop => .error stop
        | .ok ⟨base, rest', hrest'⟩ => .ok ⟨⟨offset, some base⟩, rest', by omega⟩
      else .ok ⟨⟨offset, none⟩, rest, by omega⟩
termination_by (tokens.length, 1)
decreasing_by all_goals (apply lex_of_le; omega)

end

def decode (tokens : List Token) : Except Stop (Operand × List Token) :=
  (take tokens).map fun t => (t.value, t.rest)

def decodeIndices (forms : List Nat) (tokens : List Token) :
    Except Stop (List (OperandIndex Operand) × List Token) :=
  (takeIndices forms tokens).map fun t => (t.value, t.rest)

def decodeIndex (form : Nat) (tokens : List Token) :
    Except Stop (OperandIndex Operand × List Token) :=
  (takeIndex form tokens).map fun t => (t.value, t.rest)

def decodeList : Nat → List Token → Except Stop (List Operand × List Token)
  | 0, tokens => .ok ([], tokens)
  | n + 1, tokens => do
    let (o, rest) ← decode tokens
    let (os, rest') ← decodeList n rest
    return (o :: os, rest')

/-- Reading an operand, step by step. -/
theorem decode_cons (t : Token) (tail : List Token) :
    decode (t :: tail) = (
      match ComponentCount.ofField? (t.field 0 2) with
      | none => .error ⟨.componentCount (t.field 0 2), tail.length⟩
      | some components =>
        match Token.takeExtended t.isExtended tail with
        | none => .error .truncated
        | some (chain, rest) => do
          let (indices, rest') ← decodeIndices (indexFields t) rest
          match takeImmediate (typeField t) components rest' with
          | none => .error .truncated
          | some (immediate, rest'') =>
            .ok (⟨typeField t, components, selectionField t, .ofChain chain, indices, immediate⟩,
              rest'')) := by
  unfold decode decodeIndices
  rw [take]
  cases ComponentCount.ofField? (t.field 0 2) with
  | none => rfl
  | some components =>
    simp only
    split
    · next h => simp [h, Except.map]
    · next chain rest h =>
      simp only [h]
      cases takeIndices (indexFields t) rest with
      | error stop => rfl
      | ok i =>
        dsimp only
        split
        · next h' => simp only [Except.map, bind, Except.bind, h']
        · next h' => simp only [Except.map, bind, Except.bind, h']

@[simp] theorem decode_nil : decode [] = .error .truncated := by
  simp [decode, take, Except.map]

@[simp] theorem decodeIndices_nil (tokens : List Token) :
    decodeIndices [] tokens = .ok ([], tokens) := by
  simp [decodeIndices, takeIndices, Except.map]

/-- Reading indices, step by step. -/
theorem decodeIndices_cons (form : Nat) (forms : List Nat) (tokens : List Token) :
    decodeIndices (form :: forms) tokens = do
      let (i, rest) ← decodeIndex form tokens
      let (is, rest') ← decodeIndices forms rest
      return (i :: is, rest') := by
  unfold decodeIndices decodeIndex
  rw [takeIndices]
  cases takeIndex form tokens with
  | error stop => rfl
  | ok i =>
    simp only [Except.map, bind, Except.bind]
    cases takeIndices forms i.rest with
    | error stop => rfl
    | ok is => rfl

/-- Reading an index, step by step. -/
theorem decodeIndex_eq (form : Nat) (tokens : List Token) :
    decodeIndex form tokens =
      match IndexForm.ofField? form with
      | none => .error ⟨.indexRepresentation form, tokens.length⟩
      | some form =>
        match takeOffset form tokens with
        | none => .error .truncated
        | some (offset, rest) =>
          if form.hasBase then do
            let (base, rest') ← decode rest
            return (⟨offset, some base⟩, rest')
          else .ok (⟨offset, none⟩, rest) := by
  unfold decodeIndex decode
  rw [takeIndex]
  cases IndexForm.ofField? form with
  | none => rfl
  | some form =>
    simp only
    split
    · next h => simp [h, Except.map]
    · next offset rest h =>
      simp only [h]
      split
      · cases take rest with
        | error stop => rfl
        | ok t => rfl
      · rfl

end Operand

end ShaderKit

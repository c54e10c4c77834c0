import ShaderKit.Instruction
import ShaderKit.Program

/-!
# Instruction streams

The body of a program is a row of blocks. The length of a block stands in its first token,
or for a data block in its second. A stream walks over the blocks and yields the instructions
one by one, leaving out data, declarations and empty blocks. It ends at the end of the tokens
or behind the first block that it cannot read.
-/

namespace ShaderKit

inductive BlockFault where
  | lengthZero
  | outOfBounds (start length available : Nat)
  | operand (fault : OperandFault)
  deriving DecidableEq, Repr

/-- The fault of a block and the position of the token where it shows. -/
structure DecodeFault where
  position : Nat
  fault : BlockFault
  deriving DecidableEq, Repr

def OperandFault.message : OperandFault → String
  | truncated => "operand runs past the end of its instruction"
  | componentCount encoding => s!"unsupported operand component count encoding {encoding}"
  | indexDimension dimension => s!"unsupported operand index dimension {dimension}"
  | indexRepresentation representation =>
    s!"unsupported operand index representation {representation}"

def BlockFault.message : BlockFault → String
  | lengthZero => "instruction length is zero"
  | outOfBounds start length available =>
    s!"instruction at {start} with length {length} overruns program (available {available})"
  | operand fault => fault.message

def DecodeFault.message (e : DecodeFault) : String :=
  s!"SM4/5 decode error at dword {e.position}: {e.fault.message}"

structure InstructionStream where
  position : Nat
  tokens : List Token
  deriving DecidableEq, Repr

abbrev StreamItem := Except DecodeFault Instruction

namespace InstructionStream

/-- The stream of a program starts behind the version and the length. -/
def ofProgram (p : Program) : InstructionStream := ⟨Program.headerLength, p.body⟩

/-- The length of the block that starts with token `t` in front of `tail`. A data block has
its length in the next token; where that is missing the block counts as two tokens long, which
is one more than there are. -/
def blockLength (t : Token) (tail : List Token) : Nat :=
  if t.opcode = .customData then (tail.head?.map UInt32.toNat).getD 2 else t.blockLength

/-- Cuts the first block off a stream: the tokens of the block behind its first, and the tokens
behind the block. -/
def cutBlock (position : Nat) (t : Token) (tail : List Token) :
    Except DecodeFault (List Token × List Token) :=
  let length := blockLength t tail
  let block := tail.take (length - 1)
  if length = 0 then .error ⟨position, .lengthZero⟩
  else if block.length + 1 < length then
    .error ⟨position, .outOfBounds position length (position + (tail.length + 1))⟩
  else .ok (block, tail.drop (length - 1))

/-- Cutting divides the tokens and loses none. -/
theorem append_of_cutBlock {position : Nat} {t : Token} {tail block rest : List Token}
    (h : cutBlock position t tail = .ok (block, rest)) : block ++ rest = tail := by
  unfold cutBlock at h
  simp only at h
  split at h
  · cases h
  · split at h
    · cases h
    · cases h
      exact List.take_append_drop _ _

theorem length_of_cutBlock {position : Nat} {t : Token} {tail block rest : List Token}
    (h : cutBlock position t tail = .ok (block, rest)) :
    block.length + 1 = blockLength t tail := by
  unfold cutBlock at h
  simp only at h
  split at h
  · cases h
  · split at h
    · cases h
    · cases h
      have := List.length_take_le (blockLength t tail - 1) tail
      omega

/-- The instruction of a block, if it is not one that is left out. The position is that of the
end of the block, from where an operand's fault is counted back. -/
def blockItem? (stop : Nat) (t : Token) (block : List Token) : Option StreamItem :=
  if t.opcode.isSkipped then none
  else
    match t.opcode.format? with
    | none => some (.ok (.unformatted t))
    | some format =>
      some ((Instruction.ofBlock format t block).mapError fun s =>
        ⟨stop - s.left, .operand s.fault⟩)

/-- The next item of a stream and the stream behind it. A fault leaves nothing behind. -/
def next? (s : InstructionStream) : Option (StreamItem × InstructionStream) :=
  match s with
  | ⟨_, []⟩ => none
  | ⟨position, t :: tail⟩ =>
    match _h : cutBlock position t tail with
    | .error e => some (.error e, ⟨position, []⟩)
    | .ok (block, rest) =>
      let stop := position + (block.length + 1)
      match blockItem? stop t block with
      | none => next? ⟨stop, rest⟩
      | some (.ok i) => some (.ok i, ⟨stop, rest⟩)
      | some (.error e) => some (.error e, ⟨stop, []⟩)
termination_by s.tokens.length
decreasing_by
  have := congrArg List.length (append_of_cutBlock _h)
  simp only [List.length_append, List.length_cons] at this ⊢
  omega

/-- An item uses up tokens. -/
theorem length_lt_of_next? {s s' : InstructionStream} {item : StreamItem}
    (h : s.next? = some (item, s')) : s'.tokens.length < s.tokens.length := by
  fun_induction next? s with
  | case1 => cases h
  | case2 => cases h; simp
  | case3 position t tail block rest hcut stop hitem ih =>
    have := congrArg List.length (append_of_cutBlock hcut)
    have := ih h
    simp_all only [List.length_append, List.length_cons]
    omega
  | case4 position t tail block rest hcut =>
    have := congrArg List.length (append_of_cutBlock hcut)
    cases h
    simp only [List.length_append, List.length_cons] at this ⊢
    omega
  | case5 => cases h; simp

def run (s : InstructionStream) : List StreamItem × InstructionStream :=
  match _h : s.next? with
  | none => ([], s)
  | some (item, s') =>
    let (items, last) := run s'
    (item :: items, last)
termination_by s.tokens.length
decreasing_by exact length_lt_of_next? _h

def items (s : InstructionStream) : List StreamItem := s.run.1

theorem items_of_none {s : InstructionStream} (h : s.next? = none) : s.items = [] := by
  unfold items
  rw [run]
  split <;> simp_all

theorem items_of_some {s s' : InstructionStream} {item : StreamItem}
    (h : s.next? = some (item, s')) : s.items = item :: s'.items := by
  unfold items
  rw [run]
  split <;> simp_all

end InstructionStream

namespace Program

/-- All instructions of a program, or the fault of the first block that cannot be read. -/
def instructions (p : Program) : Except DecodeFault (List Instruction) :=
  (InstructionStream.ofProgram p).items.mapM id

end Program

end ShaderKit

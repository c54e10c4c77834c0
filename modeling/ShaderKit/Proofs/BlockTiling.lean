import Mathlib.Data.List.Forall2
import ShaderKit.InstructionStream
import ShaderKit.Proofs.OperandRoundTrip

/-!
# Blocks of a program

A block is as long as it says. The instructions of a program can be read exactly if its body is a
row of such blocks in which every block of a known format holds its operands. The lengths leave
no choice where one block ends and the next begins, so the row is the only one, and it says what
the instructions are.

A data block states its length in its second token. A data block of length one would have to find
that token behind its own end; there it is read as an opcode token of length zero, so that such
blocks are never accepted.
-/

namespace ShaderKit

namespace Token

/-- The tokens that a token announces: each announces the next one, and the last announces none. -/
def Announces : Token → List Token → Prop
  | t, [] => t.isExtended = false
  | t, u :: chain => t.isExtended = true ∧ Announces u chain

theorem takeExtended_eq_some_iff {t : Token} {tokens chain rest : List Token} :
    takeExtended t.isExtended tokens = some (chain, rest) ↔
      tokens = chain ++ rest ∧ t.Announces chain := by
  induction tokens generalizing t chain with
  | nil =>
    cases ht : t.isExtended <;> cases chain <;> simp [takeExtended, Announces, ht, eq_comm]
  | cons u tokens ih =>
    cases ht : t.isExtended with
    | false => cases chain <;> simp [takeExtended, Announces, ht, eq_comm]
    | true =>
      cases chain with
      | nil => simp [takeExtended, Announces, ht]
      | cons v chain =>
        have htail := @ih u chain
        rw [takeExtended, Option.map_eq_some_iff]
        constructor
        · rintro ⟨⟨chain', rest'⟩, h, heq⟩
          simp only [Prod.mk.injEq, List.cons.injEq] at heq
          obtain ⟨⟨rfl, rfl⟩, rfl⟩ := heq
          obtain ⟨happend, hannounces⟩ := htail.1 h
          exact ⟨congrArg (u :: ·) happend, ht, hannounces⟩
        · rintro ⟨happend, -, hannounces⟩
          obtain ⟨rfl, htokens⟩ := List.cons.inj happend
          exact ⟨(chain, rest), htail.2 ⟨htokens, hannounces⟩, rfl⟩

theorem code_opcode (t : Token) : t.opcode.code = t.toNat % 2 ^ 11 := by
  rw [opcode, field_eq, Nat.pow_zero, Nat.div_one]

end Token

namespace Operand

theorem decodeList_zero_eq_ok_iff {tokens unread : List Token} {os : List Operand} :
    decodeList 0 tokens = .ok (os, unread) ↔ os = [] ∧ unread = tokens := by
  simp [decodeList, eq_comm]

theorem decodeList_succ_eq_ok_iff {n : Nat} {tokens unread : List Token} {os : List Operand} :
    decodeList (n + 1) tokens = .ok (os, unread) ↔
      ∃ o rest os', decode tokens = .ok (o, rest) ∧ decodeList n rest = .ok (os', unread) ∧
        os = o :: os' := by
  rw [decodeList]
  simp only [bind_eq_ok_iff, Prod.exists, pure, Except.pure, Except.ok.injEq, Prod.mk.injEq]
  constructor
  · rintro ⟨o, rest, ho, os', unread', hos, rfl, rfl⟩
    exact ⟨o, rest, os', ho, hos, rfl⟩
  · rintro ⟨o, rest, os', ho, hos, rfl⟩
    exact ⟨o, rest, ho, os', unread, hos, rfl, rfl⟩

theorem length_of_decodeList {n : Nat} {tokens unread : List Token} {os : List Operand}
    (h : decodeList n tokens = .ok (os, unread)) : os.length = n := by
  induction n generalizing tokens os with
  | zero =>
    cases h
    rfl
  | succ n ih =>
    obtain ⟨o, rest, os', -, hrest, rfl⟩ := decodeList_succ_eq_ok_iff.1 h
    rw [List.length_cons, ih hrest]

theorem decodeList_add_eq_ok_iff {m n : Nat} {tokens unread : List Token} {os : List Operand} :
    decodeList (m + n) tokens = .ok (os, unread) ↔
      ∃ os₁ rest os₂, decodeList m tokens = .ok (os₁, rest) ∧
        decodeList n rest = .ok (os₂, unread) ∧ os = os₁ ++ os₂ := by
  induction m generalizing tokens os with
  | zero =>
    rw [Nat.zero_add]
    constructor
    · intro h
      exact ⟨[], tokens, os, rfl, h, rfl⟩
    · rintro ⟨os₁, rest, os₂, h₁, h₂, rfl⟩
      obtain ⟨rfl, rfl⟩ := decodeList_zero_eq_ok_iff.1 h₁
      exact h₂
  | succ m ih =>
    rw [Nat.succ_add, decodeList_succ_eq_ok_iff]
    constructor
    · rintro ⟨o, rest, os', ho, hos, rfl⟩
      obtain ⟨os₁, rest', os₂, h₁, h₂, rfl⟩ := ih.1 hos
      exact ⟨o :: os₁, rest', os₂, decodeList_succ_eq_ok_iff.2 ⟨o, rest, os₁, ho, h₁, rfl⟩, h₂, rfl⟩
    · rintro ⟨os₁, rest', os₂, h₁, h₂, rfl⟩
      obtain ⟨o, rest, os', ho, hos, rfl⟩ := decodeList_succ_eq_ok_iff.1 h₁
      exact ⟨o, rest, os' ++ os₂, ho, ih.2 ⟨os', rest', os₂, hos, h₂, rfl⟩, rfl⟩

end Operand

@[ext] structure Block where
  first : Token
  rest : List Token
  deriving DecidableEq, Repr

namespace Block

def tokens (b : Block) : List Token := b.first :: b.rest

/-- A block is as long as it says: in its first token, or for data in the token behind it. -/
inductive WellSized : Block → Prop where
  | plain {t : Token} {rest : List Token} (hopcode : t.opcode ≠ .customData)
      (hlength : t.blockLength = rest.length + 1) : WellSized ⟨t, rest⟩
  | data {t length : Token} {rest : List Token} (hopcode : t.opcode = .customData)
      (hlength : length.toNat = rest.length + 2) : WellSized ⟨t, length :: rest⟩

/-- A block holds operands behind the extended tokens that its first token announces. -/
def Holds (b : Block) (operands : List Operand) : Prop :=
  ∃ chain rest unread, b.rest = chain ++ rest ∧ b.first.Announces chain ∧
    Operand.decodeList operands.length rest = .ok (operands, unread)

/-- A block of a known format that is not skipped holds as many operands as its format asks for. -/
def Readable (b : Block) : Prop :=
  ∀ format, b.first.opcode.isSkipped = false → b.first.opcode.format? = some format →
    ∃ operands, operands.length = format.destinations + format.sources ∧ b.Holds operands

/-- The instruction of a block: its opcode, and what its format says of it. -/
structure Yields (b : Block) (i : Instruction) : Prop where
  code_eq : i.opcode.code = b.first.toNat % 2 ^ 11
  formatted : ∀ format, i.opcode.format? = some format →
    i.kind = format.kind ∧ i.destinations.length = format.destinations ∧
      i.sources.length = format.sources ∧ b.Holds (i.destinations ++ i.sources)
  unformatted : i.opcode.format? = none →
    i.kind = .undefined ∧ i.destinations = [] ∧ i.sources = []

theorem ofBlock_eq_ok_iff {format : InstructionFormat} {b : Block} {i : Instruction} :
    Instruction.ofBlock format b.first b.rest = .ok i ↔
      i.opcode = b.first.opcode ∧ i.kind = format.kind ∧ i.controls = b.first.controls ∧
        i.saturate = b.first.saturate ∧ i.destinations.length = format.destinations ∧
          i.sources.length = format.sources ∧ b.Holds (i.destinations ++ i.sources) := by
  constructor
  · intro h
    rw [Instruction.ofBlock] at h
    cases hchain : Token.takeExtended b.first.isExtended b.rest with
    | none => simp [hchain] at h
    | some taken =>
      obtain ⟨chain, rest⟩ := taken
      simp only [hchain, bind_eq_ok_iff, Prod.exists] at h
      obtain ⟨destinations, rest', hdestinations, sources, unread, hsources, hi⟩ := h
      obtain rfl := Except.ok.inj hi
      obtain ⟨hrest, hannounces⟩ := Token.takeExtended_eq_some_iff.1 hchain
      have hoperands := Operand.decodeList_add_eq_ok_iff.2
        ⟨destinations, rest', sources, hdestinations, hsources, rfl⟩
      have hlength := Operand.length_of_decodeList hoperands
      refine ⟨rfl, rfl, rfl, rfl, Operand.length_of_decodeList hdestinations,
        Operand.length_of_decodeList hsources, chain, rest, unread, hrest, hannounces, ?_⟩
      rw [hlength]
      exact hoperands
  · rintro ⟨hopcode, hkind, hcontrols, hsaturate, hdestinations, hsources, chain, rest, unread,
      hrest, hannounces, hoperands⟩
    rw [List.length_append, Operand.decodeList_add_eq_ok_iff] at hoperands
    obtain ⟨destinations, rest', sources, hd, hs, happend⟩ := hoperands
    have hlength := Operand.length_of_decodeList hd
    obtain ⟨rfl, rfl⟩ := List.append_inj happend hlength.symm
    rw [hdestinations] at hd
    rw [hsources] at hs
    rw [Instruction.ofBlock, Token.takeExtended_eq_some_iff.2 ⟨hrest, hannounces⟩]
    simp only [bind_eq_ok_iff, Prod.exists]
    refine ⟨_, rest', hd, _, unread, hs, ?_⟩
    rw [← hopcode, ← hkind, ← hcontrols, ← hsaturate]
    rfl

theorem readable_iff {b : Block} :
    b.Readable ↔ ∀ format, b.first.opcode.isSkipped = false →
      b.first.opcode.format? = some format →
        ∃ i, Instruction.ofBlock format b.first b.rest = .ok i := by
  constructor
  · intro h format hskipped hformat
    obtain ⟨operands, hlength, hholds⟩ := h format hskipped hformat
    refine ⟨⟨b.first.opcode, format.kind, b.first.controls, b.first.saturate,
      operands.take format.destinations, operands.drop format.destinations⟩, ?_⟩
    rw [ofBlock_eq_ok_iff, List.take_append_drop, List.length_take, List.length_drop]
    exact ⟨rfl, rfl, rfl, rfl, by omega, by omega, hholds⟩
  · intro h format hskipped hformat
    obtain ⟨i, hi⟩ := h format hskipped hformat
    obtain ⟨-, -, -, -, hdestinations, hsources, hholds⟩ := ofBlock_eq_ok_iff.1 hi
    exact ⟨_, by rw [List.length_append, hdestinations, hsources], hholds⟩

variable {b : Block}

theorem blockItem?_of_isSkipped (stop : Nat) (h : b.first.opcode.isSkipped = true) :
    InstructionStream.blockItem? stop b.first b.rest = none := by
  rw [InstructionStream.blockItem?, if_pos h]

theorem blockItem?_of_readable (stop : Nat) (h : b.first.opcode.isSkipped = false)
    (hb : b.Readable) :
    ∃ i, InstructionStream.blockItem? stop b.first b.rest = some (.ok i) ∧ b.Yields i := by
  rw [InstructionStream.blockItem?, if_neg (by rw [h]; decide)]
  cases hformat : b.first.opcode.format? with
  | none =>
    refine ⟨_, rfl, ?_, ?_, fun _ => ⟨rfl, rfl, rfl⟩⟩
    · exact b.first.code_opcode
    · intro format hsome
      cases hformat.symm.trans hsome
  | some format =>
    obtain ⟨i, hi⟩ := readable_iff.1 hb format h hformat
    obtain ⟨hopcode, hkind, -, -, hdestinations, hsources, hholds⟩ := ofBlock_eq_ok_iff.1 hi
    refine ⟨i, by simp only [hi, Except.mapError], ?_, ?_, ?_⟩
    · rw [hopcode, b.first.code_opcode]
    · intro format' hsome
      rw [hopcode] at hsome
      obtain rfl := Option.some.inj (hformat.symm.trans hsome)
      exact ⟨hkind, hdestinations, hsources, hholds⟩
    · intro hnone
      rw [hopcode] at hnone
      cases hformat.symm.trans hnone

theorem readable_of_blockItem?_ne_error (stop : Nat)
    (h : ∀ e, InstructionStream.blockItem? stop b.first b.rest ≠ some (.error e)) :
    b.Readable := by
  refine readable_iff.2 fun format hskipped hformat => ?_
  rw [InstructionStream.blockItem?, if_neg (by rw [hskipped]; decide), hformat] at h
  cases hi : Instruction.ofBlock format b.first b.rest with
  | error e =>
    refine absurd ?_ (h ⟨stop - e.left, .operand e.fault⟩)
    simp only [hi, Except.mapError]
  | ok i => exact ⟨i, rfl⟩

end Block

namespace InstructionStream

variable {position : Nat} {t : Token} {tail block rest : List Token}

/-- A stream without tokens, one whose first block cannot be cut off, and one that goes on behind
its first block. -/
@[elab_as_elim] theorem blockInduction {motive : Nat → List Token → Prop}
    (nil : ∀ position, motive position [])
    (uncut : ∀ position t tail e, cutBlock position t tail = .error e → motive position (t :: tail))
    (cut : ∀ position t tail block rest, cutBlock position t tail = .ok (block, rest) →
      motive (position + (block.length + 1)) rest → motive position (t :: tail))
    (position : Nat) (tokens : List Token) : motive position tokens := by
  induction hn : tokens.length using Nat.strongRecOn generalizing position tokens with
  | ind n ih =>
    subst hn
    cases tokens with
    | nil => exact nil position
    | cons t tail =>
      cases hcut : cutBlock position t tail with
      | error e => exact uncut position t tail e hcut
      | ok parts =>
        obtain ⟨block, rest⟩ := parts
        refine cut position t tail block rest hcut (ih _ ?_ _ rest rfl)
        rw [← append_of_cutBlock hcut, List.length_cons, List.length_append]
        omega

theorem items_eq_of_next?_eq {s s' : InstructionStream} (h : s.next? = s'.next?) :
    s.items = s'.items := by
  cases hs : s'.next? with
  | none => rw [items_of_none hs, items_of_none (h.trans hs)]
  | some next => rw [items_of_some hs, items_of_some (h.trans hs)]

theorem items_nil : items ⟨position, []⟩ = [] := by
  apply items_of_none
  rw [next?]

theorem items_of_cutBlock_error {e : DecodeFault} (h : cutBlock position t tail = .error e) :
    items ⟨position, t :: tail⟩ = [.error e] := by
  have hnext : next? ⟨position, t :: tail⟩ = some (.error e, ⟨position, []⟩) := by
    rw [next?]
    split
    · next he =>
      cases h.symm.trans he
      rfl
    · next hok => cases h.symm.trans hok
  rw [items_of_some hnext, items_nil]

theorem next?_of_cutBlock_ok (h : cutBlock position t tail = .ok (block, rest)) :
    next? ⟨position, t :: tail⟩ =
      match blockItem? (position + (block.length + 1)) t block with
      | none => next? ⟨position + (block.length + 1), rest⟩
      | some (.ok i) => some (.ok i, ⟨position + (block.length + 1), rest⟩)
      | some (.error e) => some (.error e, ⟨position + (block.length + 1), []⟩) := by
  rw [next?]
  split
  · next he => cases h.symm.trans he
  · next hok =>
    cases h.symm.trans hok
    rfl

theorem items_of_cutBlock_ok (h : cutBlock position t tail = .ok (block, rest)) :
    items ⟨position, t :: tail⟩ =
      match blockItem? (position + (block.length + 1)) t block with
      | none => items ⟨position + (block.length + 1), rest⟩
      | some (.ok i) => .ok i :: items ⟨position + (block.length + 1), rest⟩
      | some (.error e) => [.error e] := by
  have hnext := next?_of_cutBlock_ok h
  cases hitem : blockItem? (position + (block.length + 1)) t block with
  | none =>
    rw [hitem] at hnext
    exact items_eq_of_next?_eq hnext
  | some item =>
    rw [hitem] at hnext
    cases item with
    | error e => rw [items_of_some hnext, items_nil]
    | ok i => rw [items_of_some hnext]

def collect (s : InstructionStream) : Except DecodeFault (List Instruction) := s.items.mapM id

theorem collect_nil : collect ⟨position, []⟩ = .ok [] := by
  rw [collect, items_nil]
  rfl

theorem collect_of_cutBlock_error {e : DecodeFault} (h : cutBlock position t tail = .error e) :
    collect ⟨position, t :: tail⟩ = .error e := by
  rw [collect, items_of_cutBlock_error h]
  rfl

/-- What the first block adds to the instructions behind it. -/
theorem collect_of_cutBlock_ok (h : cutBlock position t tail = .ok (block, rest)) :
    collect ⟨position, t :: tail⟩ =
      match blockItem? (position + (block.length + 1)) t block with
      | none => collect ⟨position + (block.length + 1), rest⟩
      | some item => do
        let i ← item
        let is ← collect ⟨position + (block.length + 1), rest⟩
        return i :: is := by
  have hnext := next?_of_cutBlock_ok h
  cases hitem : blockItem? (position + (block.length + 1)) t block with
  | none =>
    rw [hitem] at hnext
    exact congrArg (List.mapM id) (items_eq_of_next?_eq hnext)
  | some item =>
    rw [hitem] at hnext
    cases item with
    | error e =>
      rw [collect, items_of_some hnext, items_nil]
      rfl
    | ok i =>
      rw [collect, items_of_some hnext, List.mapM_cons]
      rfl

/-- A block of length one that looks like data is followed by an opcode token of length zero. -/
theorem collect_of_toNat_eq_one (ht : t.toNat = 1) :
    collect ⟨position, t :: tail⟩ = .error ⟨position, .lengthZero⟩ := by
  obtain rfl : t = 1 := UInt32.toNat_inj.1 ht
  apply collect_of_cutBlock_error
  have hlength : blockLength 1 tail = 0 := by
    have hopcode : Token.opcode 1 ≠ .customData := by decide
    rw [blockLength, if_neg hopcode]
    decide
  simp only [cutBlock, hlength, if_true]

theorem cutBlock_append_of_blockLength (h : blockLength t (block ++ rest) = block.length + 1)
    (position : Nat) : cutBlock position t (block ++ rest) = .ok (block, rest) := by
  simp only [cutBlock, h, Nat.add_sub_cancel, List.take_left, List.drop_left,
    Nat.add_one_ne_zero, if_false, Nat.lt_irrefl]

theorem cutBlock_append_of_wellSized {b : Block} (h : b.WellSized) (position : Nat)
    (rest : List Token) : cutBlock position b.first (b.rest ++ rest) = .ok (b.rest, rest) := by
  refine cutBlock_append_of_blockLength ?_ position
  cases h with
  | plain hopcode hlength => rw [blockLength, if_neg hopcode, hlength]
  | data hopcode hlength =>
    rw [blockLength, if_pos hopcode, List.cons_append, List.head?_cons, Option.map_some,
      Option.getD_some, hlength, List.length_cons]

theorem wellSized_of_cutBlock {is : List Instruction}
    (hcut : cutBlock position t tail = .ok (block, rest))
    (hrest : collect ⟨position + (block.length + 1), rest⟩ = .ok is) :
    Block.WellSized ⟨t, block⟩ := by
  have happend := append_of_cutBlock hcut
  have hlength := length_of_cutBlock hcut
  by_cases hopcode : t.opcode = .customData
  · rw [blockLength, if_pos hopcode] at hlength
    cases block with
    | nil =>
      -- The stated length would be one, and the token that states it would begin the next block.
      rw [List.nil_append] at happend
      subst happend
      cases rest with
      | nil => cases hlength
      | cons d rest =>
        rw [collect_of_toNat_eq_one hlength.symm] at hrest
        cases hrest
    | cons d block =>
      rw [← happend, List.cons_append, List.head?_cons, Option.map_some,
        Option.getD_some] at hlength
      exact .data hopcode hlength.symm
  · rw [blockLength, if_neg hopcode] at hlength
    exact .plain hopcode hlength.symm

end InstructionStream

/-- A row of blocks, each as long as it says, that makes up a list of tokens. -/
structure IsTiling (tokens : List Token) (blocks : List Block) : Prop where
  flatMap_eq : blocks.flatMap Block.tokens = tokens
  wellSized : ∀ b ∈ blocks, b.WellSized

namespace IsTiling

variable {tokens rest : List Token} {b : Block} {blocks blocks' : List Block}

theorem nil : IsTiling [] [] := ⟨rfl, by simp⟩

theorem cons (hb : b.WellSized) (h : IsTiling rest blocks) :
    IsTiling (b.first :: (b.rest ++ rest)) (b :: blocks) := by
  constructor
  · rw [List.flatMap_cons, h.flatMap_eq]
    rfl
  · exact List.forall_mem_cons.2 ⟨hb, h.wellSized⟩

theorem of_cons (h : IsTiling tokens (b :: blocks)) :
    ∃ rest, tokens = b.first :: (b.rest ++ rest) ∧ b.WellSized ∧ IsTiling rest blocks := by
  obtain ⟨hb, hblocks⟩ := List.forall_mem_cons.1 h.wellSized
  exact ⟨_, h.flatMap_eq.symm, hb, rfl, hblocks⟩

theorem unique (h : IsTiling tokens blocks) (h' : IsTiling tokens blocks') : blocks = blocks' := by
  induction blocks generalizing tokens blocks' with
  | nil =>
    cases blocks' with
    | nil => rfl
    | cons b' blocks' =>
      obtain ⟨rest, htokens, -⟩ := h'.of_cons
      cases h.flatMap_eq.trans htokens
  | cons b blocks ih =>
    obtain ⟨rest, htokens, hb, hrest⟩ := h.of_cons
    cases blocks' with
    | nil => cases h'.flatMap_eq.trans htokens
    | cons b' blocks' =>
      obtain ⟨rest', htokens', hb', hrest'⟩ := h'.of_cons
      obtain ⟨hfirst, htail⟩ := List.cons.inj (htokens.symm.trans htokens')
      have hcut := InstructionStream.cutBlock_append_of_wellSized hb 0 rest
      have hcut' := InstructionStream.cutBlock_append_of_wellSized hb' 0 rest'
      rw [hfirst, htail, hcut'] at hcut
      obtain ⟨hbrest, rfl⟩ := Prod.mk.inj (Except.ok.inj hcut)
      have hbb' : b = b' := Block.ext hfirst hbrest.symm
      rw [hbb', ih hrest hrest']

end IsTiling

namespace InstructionStream

open Block

/-- The instructions of a row of blocks that can all be read. -/
theorem exists_collect_of_isTiling {tokens : List Token} {blocks : List Block}
    (h : IsTiling tokens blocks) (hread : ∀ b ∈ blocks, b.Readable) (position : Nat) :
    ∃ is, collect ⟨position, tokens⟩ = .ok is ∧
      List.Forall₂ Yields (blocks.filter fun b => !b.first.opcode.isSkipped) is := by
  induction blocks generalizing tokens position with
  | nil =>
    obtain rfl : [] = tokens := h.flatMap_eq
    exact ⟨[], collect_nil, .nil⟩
  | cons b blocks ih =>
    obtain ⟨rest, rfl, hb, hrest⟩ := h.of_cons
    obtain ⟨hreadb, hread⟩ := List.forall_mem_cons.1 hread
    obtain ⟨is, his, hyields⟩ := ih hrest hread (position + (b.rest.length + 1))
    rw [collect_of_cutBlock_ok (cutBlock_append_of_wellSized hb position rest)]
    cases hskipped : b.first.opcode.isSkipped with
    | true =>
      rw [blockItem?_of_isSkipped _ hskipped, List.filter_cons_of_neg (by rw [hskipped]; decide)]
      exact ⟨is, his, hyields⟩
    | false =>
      obtain ⟨i, hi, hyieldsb⟩ :=
        blockItem?_of_readable (position + (b.rest.length + 1)) hskipped hreadb
      rw [hi, List.filter_cons_of_pos (by rw [hskipped]; rfl)]
      refine ⟨i :: is, ?_, .cons hyieldsb hyields⟩
      exact bind_eq_ok_iff.2 ⟨i, rfl, bind_eq_ok_iff.2 ⟨is, his, rfl⟩⟩

theorem of_collect_eq_ok {position : Nat} {t : Token} {tail block rest : List Token}
    {is : List Instruction} (hcut : cutBlock position t tail = .ok (block, rest))
    (h : collect ⟨position, t :: tail⟩ = .ok is) :
    (∃ is', collect ⟨position + (block.length + 1), rest⟩ = .ok is') ∧
      Block.Readable ⟨t, block⟩ := by
  rw [collect_of_cutBlock_ok hcut] at h
  cases hitem : blockItem? (position + (block.length + 1)) t block with
  | none =>
    rw [hitem] at h
    refine ⟨⟨is, h⟩, readable_of_blockItem?_ne_error (position + (block.length + 1)) ?_⟩
    intro e he
    cases hitem.symm.trans he
  | some item =>
    rw [hitem] at h
    obtain ⟨i, hi, h⟩ := bind_eq_ok_iff.1 h
    obtain ⟨is', his', -⟩ := bind_eq_ok_iff.1 h
    refine ⟨⟨is', his'⟩, readable_of_blockItem?_ne_error (position + (block.length + 1)) ?_⟩
    intro e he
    cases hi.symm.trans (Option.some.inj (hitem.symm.trans he))

/-- Where all instructions can be read, the tokens are a row of blocks. -/
theorem exists_isTiling_of_collect {tokens : List Token} {position : Nat}
    {is : List Instruction} (h : collect ⟨position, tokens⟩ = .ok is) :
    ∃ blocks, IsTiling tokens blocks ∧ ∀ b ∈ blocks, b.Readable := by
  induction position, tokens using blockInduction generalizing is with
  | nil position => exact ⟨[], .nil, by simp⟩
  | uncut position t tail e hcut =>
    rw [collect_of_cutBlock_error hcut] at h
    cases h
  | cut position t tail block rest hcut ih =>
    obtain ⟨⟨is', his'⟩, hread⟩ := of_collect_eq_ok hcut h
    obtain ⟨blocks, hblocks, hreads⟩ := ih his'
    have hsized := wellSized_of_cutBlock hcut his'
    refine ⟨⟨t, block⟩ :: blocks, ?_, List.forall_mem_cons.2 ⟨hread, hreads⟩⟩
    rw [← append_of_cutBlock hcut]
    exact .cons hsized hblocks

end InstructionStream

namespace Program

/-- The instructions of a program can be read exactly if its body is a row of blocks that can all
be read. There is no other such row, and the instructions are those of its blocks in order, but
for data, declarations and empty blocks. -/
theorem exists_instructions_iff_isTiling (p : Program) :
    ((∃ is, p.instructions = .ok is) ↔
      ∃ blocks, IsTiling p.body blocks ∧ ∀ b ∈ blocks, b.Readable) ∧
    (∀ blocks blocks', IsTiling p.body blocks → IsTiling p.body blocks' → blocks = blocks') ∧
    ∀ is blocks, p.instructions = .ok is → IsTiling p.body blocks →
      List.Forall₂ Block.Yields (blocks.filter fun b => !b.first.opcode.isSkipped) is := by
  refine ⟨⟨?_, ?_⟩, fun blocks blocks' h h' => h.unique h', ?_⟩
  · rintro ⟨is, h⟩
    exact InstructionStream.exists_isTiling_of_collect h
  · rintro ⟨blocks, h, hread⟩
    obtain ⟨is, his, -⟩ := InstructionStream.exists_collect_of_isTiling h hread headerLength
    exact ⟨is, his⟩
  · intro is blocks hread h
    obtain ⟨blocks', h', hreads⟩ := InstructionStream.exists_isTiling_of_collect hread
    obtain ⟨is', his', hyields⟩ :=
      InstructionStream.exists_collect_of_isTiling h' hreads headerLength
    obtain rfl := Except.ok.inj (hread.symm.trans his')
    rw [h.unique h']
    exact hyields

/-- Data of one word, an empty block, a block of an unknown opcode and a return. -/
def mixedBlocks : List Block :=
  [⟨0x00000035, [3, 0x12345678]⟩, ⟨0x0100003A, []⟩, ⟨0x020000CF, [0xFFFFFFFF]⟩, ⟨0x0100003E, []⟩]

theorem instructions_of_mixedBlocks :
    let p : Program := ⟨.compute, ⟨5, 0⟩, 0x00050050 :: 9 :: mixedBlocks.flatMap Block.tokens⟩
    IsTiling p.body mixedBlocks ∧ (∀ b ∈ mixedBlocks, b.Readable) ∧
      ∃ is, p.instructions = .ok is ∧
        List.Forall₂ Block.Yields [⟨0x020000CF, [0xFFFFFFFF]⟩, ⟨0x0100003E, []⟩] is := by
  intro p
  have hsized : ∀ b ∈ mixedBlocks, b.WellSized := by
    refine List.forall_mem_cons.2 ⟨.data rfl rfl, List.forall_mem_cons.2 ⟨.plain (by decide) rfl,
      List.forall_mem_cons.2 ⟨.plain (by decide) rfl, ?_⟩⟩⟩
    exact List.forall_mem_cons.2 ⟨.plain (by decide) rfl, by simp⟩
  have htiling : IsTiling p.body mixedBlocks := ⟨rfl, hsized⟩
  have hread : ∀ b ∈ mixedBlocks, b.Readable := by
    have hformats : ∀ b ∈ mixedBlocks, b.first.opcode.isSkipped = false →
        b.first.opcode.format? = none ∨ b = ⟨0x0100003E, []⟩ := by decide +kernel
    intro b hb format hskipped hformat
    rcases hformats b hb hskipped with hnone | rfl
    · cases hnone.symm.trans hformat
    · obtain rfl : (⟨.controlFlow, 0, 0⟩ : InstructionFormat) = format :=
        Option.some.inj ((by decide +kernel : _ = _).trans hformat)
      exact ⟨[], rfl, [], [], [], rfl, rfl, rfl⟩
  obtain ⟨hiff, -, hyields⟩ := exists_instructions_iff_isTiling p
  obtain ⟨is, his⟩ := hiff.2 ⟨mixedBlocks, htiling, hread⟩
  have hfilter : mixedBlocks.filter (fun b => !b.first.opcode.isSkipped) =
      [⟨0x020000CF, [0xFFFFFFFF]⟩, ⟨0x0100003E, []⟩] := by decide +kernel
  have hall := hyields is mixedBlocks his htiling
  rw [hfilter] at hall
  exact ⟨htiling, hread, is, his, hall⟩

end Program

end ShaderKit

import ShaderKit.Proofs.StreamedAnalysis
import ShaderKit.Proofs.TokenReaders

/-!
# Tokens that a stream ignores

A stream does not look into data, declarations and blocks of an unknown opcode, and an instruction
may leave tokens of its block unread. Whatever these tokens are, even if they look like
instructions, the stream finds the same blocks and yields the same items. What stands behind the
first fault is ignored as well.
-/

namespace ShaderKit

namespace InstructionStream

/-- The number of tokens that state the opcode and the length of a block. -/
def headLength (t : Token) : Nat := if t.opcode = .customData then 2 else 1

/-- The number of tokens at the end of a block that do not matter to it. -/
def unreadLength (t : Token) (block : List Token) : Nat :=
  if t.opcode.isSkipped then block.length + 1 - headLength t
  else
    match t.opcode.format? with
    | none => block.length
    | some format =>
      match TokenReader.instruction format t block with
      | .ok (_, unread) => unread.length
      | .error _ => 0

/-- The positions of the tokens that a stream ignores: at the end of a block up to the first fault,
and behind that fault. -/
inductive Ignores : InstructionStream → Nat → Prop where
  | inBlock {position i : Nat} {t : Token} {tail block rest : List Token}
      (hcut : cutBlock position t tail = .ok (block, rest))
      (hstart : position + (block.length + 1) ≤ i + unreadLength t block)
      (hstop : i < position + (block.length + 1)) : Ignores ⟨position, t :: tail⟩ i
  | behindBlock {position i : Nat} {t : Token} {tail block rest : List Token}
      (hcut : cutBlock position t tail = .ok (block, rest))
      (hread : ∀ e, blockItem? (position + (block.length + 1)) t block ≠ some (.error e))
      (hrest : Ignores ⟨position + (block.length + 1), rest⟩ i) : Ignores ⟨position, t :: tail⟩ i
  | behindFault {position i : Nat} {t : Token} {tail block rest : List Token} {e : DecodeFault}
      (hcut : cutBlock position t tail = .ok (block, rest))
      (hread : blockItem? (position + (block.length + 1)) t block = some (.error e))
      (hstart : position + (block.length + 1) ≤ i) : Ignores ⟨position, t :: tail⟩ i
  | uncut {position i : Nat} {t : Token} {tail : List Token} {e : DecodeFault}
      (hcut : cutBlock position t tail = .error e)
      (hstart : position + headLength t ≤ i) : Ignores ⟨position, t :: tail⟩ i

variable {position i : Nat} {t : Token} {tail tail' block block' rest : List Token}
  {s : InstructionStream}

theorem headLength_pos (t : Token) : 0 < headLength t := by
  rw [headLength]
  split <;> decide

theorem headLength_le_two (t : Token) : headLength t ≤ 2 := by
  rw [headLength]
  split <;> decide

theorem headLength_of_isSkipped_eq_false (h : t.opcode.isSkipped = false) : headLength t = 1 := by
  rw [headLength, if_neg]
  intro hopcode
  rw [hopcode] at h
  revert h
  decide

theorem isSkipped_of_blockItem?_eq_some {stop : Nat} {item : StreamItem}
    (h : blockItem? stop t block = some item) : t.opcode.isSkipped = false := by
  rw [blockItem?] at h
  split at h
  · cases h
  · next hskipped => exact eq_false_of_ne_true hskipped

theorem unreadLength_le (t : Token) (block : List Token) : unreadLength t block ≤ block.length := by
  have hhead := headLength_pos t
  rw [unreadLength]
  split
  · omega
  · cases t.opcode.format? with
    | none => exact Nat.le_refl _
    | some format =>
      dsimp only
      cases hread : TokenReader.instruction format t block with
      | error stop => exact Nat.zero_le _
      | ok taken =>
        obtain ⟨front, hfront, -⟩ :=
          (TokenReader.readsFront_instruction format t).exists_takes (Nat.le_refl _) hread
        rw [hfront, List.length_append]
        exact Nat.le_add_left _ _

/-- The opcode and the length of a block are not among its unread tokens. -/
theorem headLength_add_unreadLength_le (h : 0 < unreadLength t block) :
    headLength t + unreadLength t block ≤ block.length + 1 := by
  cases hskipped : t.opcode.isSkipped with
  | true =>
    rw [unreadLength, if_pos hskipped] at h ⊢
    omega
  | false =>
    have hle := unreadLength_le t block
    rw [headLength_of_isSkipped_eq_false hskipped]
    omega

theorem Ignores.position_lt (h : s.Ignores i) : s.position < i := by
  induction h with
  | @inBlock position i t tail block rest hcut hstart hstop =>
    have hle := unreadLength_le t block
    dsimp only
    omega
  | behindBlock hcut hread hrest ih =>
    dsimp only at ih ⊢
    omega
  | behindFault hcut hread hstart =>
    dsimp only
    omega
  | @uncut position i t tail e hcut hstart =>
    have hhead := headLength_pos t
    dsimp only
    omega

theorem Ignores.headLength_le (h : Ignores ⟨position, t :: tail⟩ i) :
    position + headLength t ≤ i := by
  have hhead := headLength_le_two t
  cases h with
  | @inBlock _ _ _ _ block rest hcut hstart hstop =>
    have hpos : 0 < unreadLength t block := by omega
    have hle := headLength_add_unreadLength_le hpos
    omega
  | behindBlock hcut hread hrest =>
    have hlt := hrest.position_lt
    dsimp only at hlt
    omega
  | behindFault hcut hread hstart =>
    rw [headLength_of_isSkipped_eq_false (isSkipped_of_blockItem?_eq_some hread)]
    omega
  | uncut hcut hstart => exact hstart

/-- In a block, only the tokens at its end are ignored. -/
theorem Ignores.stop_le (hcut : cutBlock position t tail = .ok (block, rest))
    (h : Ignores ⟨position, t :: tail⟩ i) :
    position + (block.length + 1) ≤ i + unreadLength t block := by
  cases h with
  | inBlock hcut' hstart hstop =>
    cases hcut.symm.trans hcut'
    exact hstart
  | behindBlock hcut' hread hrest =>
    cases hcut.symm.trans hcut'
    exact Nat.le_add_right_of_le (Nat.le_of_lt hrest.position_lt)
  | behindFault hcut' hread hstart =>
    cases hcut.symm.trans hcut'
    exact Nat.le_add_right_of_le hstart
  | uncut hcut' hstart => cases hcut.symm.trans hcut'

/-- Behind a block that can be read, the stream goes on as if it began there. -/
theorem Ignores.of_behindBlock (hcut : cutBlock position t tail = .ok (block, rest))
    (hread : ∀ e, blockItem? (position + (block.length + 1)) t block ≠ some (.error e))
    (hi : position + (block.length + 1) ≤ i) (h : Ignores ⟨position, t :: tail⟩ i) :
    Ignores ⟨position + (block.length + 1), rest⟩ i := by
  cases h with
  | inBlock hcut' hstart hstop =>
    cases hcut.symm.trans hcut'
    omega
  | behindBlock hcut' hread' hrest =>
    cases hcut.symm.trans hcut'
    exact hrest
  | behindFault hcut' hread' hstart =>
    cases hcut.symm.trans hcut'
    exact absurd hread' (hread _)
  | uncut hcut' hstart => cases hcut.symm.trans hcut'

/-- What a block yields does not depend on its unread tokens. -/
theorem ofBlock_congr {format : InstructionFormat} {front unread : List Token} {i : Instruction}
    (hread : TokenReader.instruction format t (front ++ unread) = .ok (i, unread))
    (unread' : List Token) :
    Instruction.ofBlock format t (front ++ unread') =
      Instruction.ofBlock format t (front ++ unread) := by
  obtain ⟨front', hfront, htakes⟩ :=
    (TokenReader.readsFront_instruction format t).exists_takes (Nat.le_refl _) hread
  obtain rfl := List.append_cancel_right hfront
  rw [TokenReader.ofBlock_eq, TokenReader.ofBlock_eq, htakes.reads, htakes.reads]
  rfl

theorem blockItem?_congr {stop : Nat} (hlength : block'.length = block.length)
    (htake : block'.take (block.length - unreadLength t block) =
      block.take (block.length - unreadLength t block)) :
    blockItem? stop t block' = blockItem? stop t block := by
  rw [blockItem?, blockItem?]
  cases hskipped : t.opcode.isSkipped with
  | true => rfl
  | false =>
    rw [unreadLength, if_neg (by rw [hskipped]; decide)] at htake
    cases hformat : t.opcode.format? with
    | none => rfl
    | some format =>
      have hofBlock : Instruction.ofBlock format t block' = Instruction.ofBlock format t block := by
        cases hread : TokenReader.instruction format t block with
        | error e =>
          simp only [hformat, hread, Nat.sub_zero, List.take_length] at htake
          rw [← htake, List.take_of_length_le (Nat.le_of_eq hlength)]
        | ok taken =>
          obtain ⟨i, unread⟩ := taken
          obtain ⟨front, rfl, -⟩ :=
            (TokenReader.readsFront_instruction format t).exists_takes (Nat.le_refl _) hread
          simp only [hformat, hread, List.length_append, Nat.add_sub_cancel, List.take_left]
            at htake
          have hsplit := List.take_append_drop front.length block'
          rw [← hsplit, htake]
          exact ofBlock_congr hread _
      simp only [hofBlock]

/-- As many tokens, which differ only where the stream ignores them. -/
structure LooksLike (s : InstructionStream) (tokens : List Token) : Prop where
  length_eq : tokens.length = s.tokens.length
  getElem?_eq : ∀ k, ¬ s.Ignores (s.position + k) → tokens[k]? = s.tokens[k]?

namespace LooksLike

theorem exists_eq_cons {tokens : List Token} (h : LooksLike ⟨position, t :: tail⟩ tokens) :
    ∃ tail', tokens = t :: tail' := by
  cases tokens with
  | nil => cases h.length_eq
  | cons t' tail' =>
    have hfirst := h.getElem?_eq 0 fun hi => Nat.lt_irrefl _ hi.position_lt
    obtain rfl : t' = t := Option.some.inj hfirst
    exact ⟨tail', rfl⟩

variable (h : LooksLike ⟨position, t :: tail⟩ (t :: tail'))

include h

theorem length_tail_eq : tail'.length = tail.length := Nat.succ.inj h.length_eq

theorem getElem?_tail_eq {k : Nat} (hk : ¬ Ignores ⟨position, t :: tail⟩ (position + (k + 1))) :
    tail'[k]? = tail[k]? := h.getElem?_eq (k + 1) hk

theorem blockLength_eq : blockLength t tail' = blockLength t tail := by
  rw [blockLength, blockLength]
  split
  · next hopcode =>
    have hlength : tail'.head? = tail.head? := by
      rw [List.head?_eq_getElem?, List.head?_eq_getElem?]
      refine h.getElem?_tail_eq fun hi => ?_
      have hle := hi.headLength_le
      rw [headLength, if_pos hopcode] at hle
      omega
    rw [hlength]
  · rfl

/-- The stream finds the same block, or the same fault. -/
theorem cutBlock_eq : cutBlock position t tail' =
    (cutBlock position t tail).map fun cut =>
      (tail'.take cut.1.length, tail'.drop cut.1.length) := by
  simp only [cutBlock, h.blockLength_eq, h.length_tail_eq, List.length_take]
  split
  · rfl
  · split
    · rfl
    · next hle =>
      have hmin : min (blockLength t tail - 1) tail.length = blockLength t tail - 1 := by omega
      simp only [Except.map, List.length_take, hmin]

variable (hcut : cutBlock position t tail = .ok (block, rest))

include hcut

theorem length_take_eq : (tail'.take block.length).length = block.length := by
  rw [List.length_take, h.length_tail_eq, ← append_of_cutBlock hcut, List.length_append]
  omega

theorem take_eq : (tail'.take block.length).take (block.length - unreadLength t block) =
    block.take (block.length - unreadLength t block) := by
  apply List.ext_getElem?
  intro k
  rcases Nat.lt_or_ge k (block.length - unreadLength t block) with hlt | hge
  · have hk : k < block.length := by omega
    have htail : tail[k]? = block[k]? := by
      rw [← append_of_cutBlock hcut, List.getElem?_append_left hk]
    rw [List.getElem?_take_of_lt hlt, List.getElem?_take_of_lt hk, List.getElem?_take_of_lt hlt,
      ← htail]
    refine h.getElem?_tail_eq fun hi => ?_
    have hle := hi.stop_le hcut
    omega
  · rw [List.getElem?_take_eq_none hge, List.getElem?_take_eq_none hge]

theorem blockItem?_eq (stop : Nat) :
    blockItem? stop t (tail'.take block.length) = blockItem? stop t block :=
  blockItem?_congr (h.length_take_eq hcut) (h.take_eq hcut)

theorem drop (hread : ∀ e, blockItem? (position + (block.length + 1)) t block ≠ some (.error e)) :
    LooksLike ⟨position + (block.length + 1), rest⟩ (tail'.drop block.length) where
  length_eq := by
    rw [List.length_drop, h.length_tail_eq, ← append_of_cutBlock hcut, List.length_append,
      Nat.add_sub_cancel_left]
  getElem?_eq k hk := by
    have htail : tail[block.length + k]? = rest[k]? := by
      rw [← append_of_cutBlock hcut, List.getElem?_append_right (Nat.le_add_right _ _),
        Nat.add_sub_cancel_left]
    rw [List.getElem?_drop, ← htail]
    refine h.getElem?_tail_eq fun hi => hk ?_
    have hposition : position + (block.length + k + 1) = position + (block.length + 1) + k := by
      omega
    rw [hposition] at hi
    exact hi.of_behindBlock hcut hread (Nat.le_add_right _ _)

end LooksLike

theorem items_of_looksLike {tokens : List Token} (h : s.LooksLike tokens) :
    items ⟨s.position, tokens⟩ = s.items := by
  obtain ⟨position, original⟩ := s
  induction position, original using blockInduction generalizing tokens with
  | nil position => rw [List.eq_nil_of_length_eq_zero h.length_eq]
  | uncut position t tail e hcut =>
    obtain ⟨tail', rfl⟩ := h.exists_eq_cons
    have hcut' := h.cutBlock_eq
    rw [hcut] at hcut'
    rw [items_of_cutBlock_error hcut', items_of_cutBlock_error hcut]
  | cut position t tail block rest hcut ih =>
    obtain ⟨tail', rfl⟩ := h.exists_eq_cons
    have hcut' : cutBlock position t tail' =
        .ok (tail'.take block.length, tail'.drop block.length) := by
      rw [h.cutBlock_eq, hcut]
      rfl
    rw [items_of_cutBlock_ok hcut', items_of_cutBlock_ok hcut, h.length_take_eq hcut,
      h.blockItem?_eq hcut]
    have hrest := fun hread => ih (h.drop hcut hread)
    cases hitem : blockItem? (position + (block.length + 1)) t block with
    | none => exact hrest fun e he => by cases hitem.symm.trans he
    | some item =>
      cases item with
      | error e => rfl
      | ok i =>
        exact congrArg (Except.ok i :: ·) (hrest fun e he => by cases hitem.symm.trans he)

end InstructionStream

namespace Program

open InstructionStream

/-- Programs of the same length that differ only in tokens that the stream of the first ignores have
the same items in their streams, and are noted alike. -/
theorem items_eq_of_agree_unless_ignored {p q : Program}
    (hlength : q.tokens.length = p.tokens.length)
    (hagree : ∀ i, ¬ (ofProgram p).Ignores i → q.tokens[i]? = p.tokens[i]?) :
    (ofProgram q).items = (ofProgram p).items ∧
      ∀ u : ShaderUsage, u.noteStream (ofProgram q) = u.noteStream (ofProgram p) := by
  have hlooks : (ofProgram p).LooksLike q.body := by
    constructor
    · change (q.tokens.drop headerLength).length = (p.tokens.drop headerLength).length
      rw [List.length_drop, List.length_drop, hlength]
    · intro k hk
      change (q.tokens.drop headerLength)[k]? = (p.tokens.drop headerLength)[k]?
      rw [List.getElem?_drop, List.getElem?_drop]
      exact hagree _ hk
  have hitems : (ofProgram q).items = (ofProgram p).items := items_of_looksLike hlooks
  refine ⟨hitems, fun u => ?_⟩
  rw [ShaderUsage.noteStream_eq, ShaderUsage.noteStream_eq, collect, collect, hitems]

/-- Data that look like a return, an empty block and a declaration with more tokens than they need,
a block of an unknown opcode, and a discard with a token behind its operand. -/
def paddedTokens (padding : Token) : List Token :=
  [0x00050050, 16, 0x00000035, 4, padding, padding, 0x0200003A, padding, 0x02000058, padding,
    0x020000CF, padding, 0x0400000D, 0x00004001, 1, padding]

theorem items_of_paddedTokens :
    let p : Program := ⟨.compute, ⟨5, 0⟩, paddedTokens 0x0100003E⟩
    let q : Program := ⟨.compute, ⟨5, 0⟩, paddedTokens 0⟩
    q.tokens.length = p.tokens.length ∧
      (∀ i, ¬ (ofProgram p).Ignores i → q.tokens[i]? = p.tokens[i]?) ∧
      (ofProgram q).items = (ofProgram p).items := by
  intro p q
  have hlength : q.tokens.length = p.tokens.length := rfl
  have hdiscard : Ignores ⟨12, p.tokens.drop 12⟩ 15 := by
    have hoperands : TokenReader.operands 1 [0x00004001, 1, 0x0100003E] =
        .ok ([(SimpleOperand.immediateWord 1).operand], [0x0100003E]) :=
      SimpleOperand.decodeList_tokens_append [.immediateWord 1] [0x0100003E]
    have hread : TokenReader.instruction ⟨.controlFlow, 0, 1⟩ 0x0400000D
        [0x00004001, 1, 0x0100003E] =
          .ok (⟨⟨13⟩, .controlFlow, 0, false, [], [(SimpleOperand.immediateWord 1).operand]⟩,
            [0x0100003E]) := by
      rw [TokenReader.instruction, TokenReader.bind_of_ok rfl, TokenReader.bind_of_ok rfl,
        TokenReader.bind_of_ok hoperands]
      rfl
    have hformat : (Token.opcode 0x0400000D).format? = some ⟨.controlFlow, 0, 1⟩ := by
      decide +kernel
    have hskipped : (Token.opcode 0x0400000D).isSkipped = false := by decide
    have hunread : unreadLength 0x0400000D [0x00004001, 1, 0x0100003E] = 1 := by
      simp only [unreadLength, hskipped, hformat, hread]
      rfl
    have hcut : cutBlock 12 0x0400000D [0x00004001, 1, 0x0100003E] =
        .ok ([0x00004001, 1, 0x0100003E], []) := rfl
    refine .inBlock hcut ?_ (by decide)
    rw [hunread]
    decide
  have hunknown : ∀ i, i = 11 ∨ i = 15 → Ignores ⟨10, p.tokens.drop 10⟩ i := by
    have hcut : cutBlock 10 0x020000CF (p.tokens.drop 11) =
        .ok ([0x0100003E], p.tokens.drop 12) := rfl
    rintro i (rfl | rfl)
    · exact .inBlock hcut (by decide +kernel) (by decide)
    · have hformat : (Token.opcode 0x020000CF).format? = none := by decide +kernel
      refine .behindBlock hcut (fun e he => ?_) hdiscard
      simp only [blockItem?, isSkipped_of_blockItem?_eq_some he, hformat] at he
      cases he
  have hskip {position i : Nat} {t : Token} {tail block rest : List Token}
      (hcut : cutBlock position t tail = .ok (block, rest)) (h : t.opcode.isSkipped = true)
      (hrest : Ignores ⟨position + (block.length + 1), rest⟩ i) : Ignores ⟨position, t :: tail⟩ i :=
    .behindBlock hcut (fun e he => by cases h.symm.trans (isSkipped_of_blockItem?_eq_some he)) hrest
  have hdeclaration : ∀ i, i = 9 ∨ i = 11 ∨ i = 15 → Ignores ⟨8, p.tokens.drop 8⟩ i := by
    have hcut : cutBlock 8 0x02000058 (p.tokens.drop 9) =
        .ok ([0x0100003E], p.tokens.drop 10) := rfl
    rintro i (rfl | hi)
    · exact .inBlock hcut (by decide) (by decide)
    · exact hskip hcut (by decide) (hunknown i hi)
  have hempty : ∀ i, i = 7 ∨ i = 9 ∨ i = 11 ∨ i = 15 → Ignores ⟨6, p.tokens.drop 6⟩ i := by
    have hcut : cutBlock 6 0x0200003A (p.tokens.drop 7) =
        .ok ([0x0100003E], p.tokens.drop 8) := rfl
    rintro i (rfl | hi)
    · exact .inBlock hcut (by decide) (by decide)
    · exact hskip hcut (by decide) (hdeclaration i hi)
  have hdata : ∀ i, i = 4 ∨ i = 5 ∨ i = 7 ∨ i = 9 ∨ i = 11 ∨ i = 15 → (ofProgram p).Ignores i := by
    have hcut : cutBlock 2 0x00000035 (p.tokens.drop 3) =
        .ok ([4, 0x0100003E, 0x0100003E], p.tokens.drop 6) := rfl
    rintro i (rfl | rfl | hi)
    · exact .inBlock hcut (by decide) (by decide)
    · exact .inBlock hcut (by decide) (by decide)
    · exact hskip hcut (by decide) (hempty i hi)
  have hagree : ∀ i, ¬ (ofProgram p).Ignores i → q.tokens[i]? = p.tokens[i]? := by
    intro i hi
    have hsame : ∀ i < 16, ¬ (i = 4 ∨ i = 5 ∨ i = 7 ∨ i = 9 ∨ i = 11 ∨ i = 15) →
        q.tokens[i]? = p.tokens[i]? := by decide
    rcases Nat.lt_or_ge i 16 with hlt | hge
    · exact hsame i hlt (mt (hdata i) hi)
    · rw [List.getElem?_eq_none hge, List.getElem?_eq_none hge]
  exact ⟨hlength, hagree, (items_eq_of_agree_unless_ignored hlength hagree).1⟩

end Program

end ShaderKit

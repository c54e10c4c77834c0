import Mathlib.Logic.Relation
import ShaderKit.Proofs.BlockTiling
import ShaderKit.Proofs.TokenReaders

/-!
# Where a fault shows

A stream passes over the blocks that it can read, and stops in front of the first one that it
cannot. The fault belongs to that block. A block without a length and one that is longer than the
program are faulty at their start. Otherwise the fault is that of an operand: tokens that are
missing show at the end of the block, and an encoding without a meaning shows inside of it, behind
the token that holds it.
-/

namespace ShaderKit

/-- How the reading of an operand may stop: at the end of the tokens, or at an encoding that stands
for nothing. -/
inductive Stop.Expected : Stop → Prop where
  | truncated : Expected .truncated
  | componentCount {left : Nat} : Expected ⟨.componentCount 3, left⟩
  | indexRepresentation {representation left : Nat} (hle : 5 ≤ representation)
      (hlt : representation < 8) : Expected ⟨.indexRepresentation representation, left⟩

namespace TokenReader

/-- On lists of up to `n` tokens, a reader stops only as expected. -/
def StopsAsExpected {α : Type} (read : TokenReader α) (n : Nat) : Prop :=
  ∀ tokens s, tokens.length ≤ n → read tokens = .error s → s.Expected

section Readers

variable {α β : Type} {read : TokenReader α} {f : α → TokenReader β} {n : Nat}

theorem stopsAsExpected_pure (a : α) : StopsAsExpected (pure a) n := by
  intro tokens s _ h
  cases h

theorem stopsAsExpected_stop {fault : OperandFault} (h : ∀ left, Stop.Expected ⟨fault, left⟩) :
    StopsAsExpected (stop fault : TokenReader α) n := by
  intro tokens s _ hread
  cases hread
  exact h _

theorem stopsAsExpected_part (take? : List Token → Option (α × List Token)) :
    StopsAsExpected (part take?) n := by
  intro tokens s _ h
  rw [part] at h
  cases htake : take? tokens with
  | none =>
    rw [htake] at h
    cases h
    exact .truncated
  | some taken =>
    rw [htake] at h
    cases h

theorem StopsAsExpected.bind (h : StopsAsExpected read n) (hread : ReadsFront read n)
    (hf : ∀ a, StopsAsExpected (f a) n) : StopsAsExpected (read >>= f) n := by
  intro tokens s htokens hbind
  cases hfirst : read tokens with
  | error s' =>
    cases (bind_of_error hfirst).symm.trans hbind
    exact h _ _ htokens hfirst
  | ok taken =>
    obtain ⟨a, rest⟩ := taken
    obtain ⟨front, rfl, -⟩ := hread.exists_takes htokens hfirst
    rw [bind_of_ok hfirst] at hbind
    rw [List.length_append] at htokens
    exact hf a _ _ (by omega) hbind

theorem StopsAsExpected.bind_pure {g : α → β} (h : StopsAsExpected read n)
    (hread : ReadsFront read n) : StopsAsExpected (do let a ← read; return g a) n :=
  h.bind hread fun a => stopsAsExpected_pure (g a)

/-- What comes behind a token is read from fewer tokens. -/
theorem stopsAsExpected_token_bind {f : Token → TokenReader α}
    (h : ∀ m < n, ∀ t, StopsAsExpected (f t) m) : StopsAsExpected (token >>= f) n := by
  intro tokens s htokens hread
  cases tokens with
  | nil =>
    cases hread
    exact .truncated
  | cons t tokens =>
    rw [token_bind_cons] at hread
    exact h _ htokens t _ _ (Nat.le_refl _) hread

end Readers

section Operands

variable {n : Nat}

theorem stopsAsExpected_index (h : StopsAsExpected operand n) {form : Nat} (hform : form < 8) :
    StopsAsExpected (index form) n := by
  rw [index_eq]
  cases hknown : IndexForm.ofField? form with
  | none =>
    have hle : 5 ≤ form := by
      by_contra hlt
      have htable : ∀ k < 5, IndexForm.ofField? k ≠ none := by decide
      exact htable form (by omega) hknown
    exact stopsAsExpected_stop fun left => .indexRepresentation hle hform
  | some known =>
    refine (stopsAsExpected_part _).bind (readsFront_offset known) fun offset => ?_
    cases known.hasBase with
    | false => exact stopsAsExpected_pure _
    | true => exact h.bind_pure (readsFront_operand n)

theorem stopsAsExpected_indices (h : StopsAsExpected operand n) {forms : List Nat}
    (hforms : ∀ form ∈ forms, form < 8) : StopsAsExpected (indices forms) n := by
  induction forms with
  | nil =>
    intro tokens s _ hread
    cases (Operand.decodeIndices_nil tokens).symm.trans hread
  | cons form forms ih =>
    obtain ⟨hform, hforms⟩ := List.forall_mem_cons.1 hforms
    rw [indices_cons]
    exact (stopsAsExpected_index h hform).bind (readsFront_index (readsFront_operand n) form)
      fun i => (ih hforms).bind_pure (readsFront_indices (readsFront_operand n) forms)

theorem stopsAsExpected_operand (n : Nat) : StopsAsExpected operand n := by
  induction n using Nat.strongRecOn with
  | ind n ih =>
    rw [operand_eq]
    refine stopsAsExpected_token_bind fun m hm t => ?_
    cases hcount : ComponentCount.ofField? (t.field 0 2) with
    | none =>
      have hlt := t.field_lt 0 2
      have hle := ComponentCount.ofField?_eq_none_iff.1 hcount
      -- Of the four values of the field only this one has no meaning.
      have hfield : t.field 0 2 = 3 := by omega
      rw [hfield]
      exact stopsAsExpected_stop fun left => .componentCount
    | some components =>
      have hforms : ∀ form ∈ Operand.indexFields t, form < 8 := by
        intro form hform
        obtain ⟨i, -, rfl⟩ := List.mem_map.1 hform
        exact t.field_lt _ 3
      exact (stopsAsExpected_part _).bind (readsFront_chain _) fun chain =>
        (stopsAsExpected_indices (ih m hm) hforms).bind
          (readsFront_indices (readsFront_operand m) _) fun is =>
            (stopsAsExpected_part _).bind_pure (readsFront_values _ _)

theorem stopsAsExpected_operands (count : Nat) : StopsAsExpected (operands count) n := by
  induction count with
  | zero => exact stopsAsExpected_pure []
  | succ count ih =>
    exact (stopsAsExpected_operand n).bind (readsFront_operand n) fun o =>
      ih.bind_pure (readsFront_operands count)

theorem stopsAsExpected_instruction (format : InstructionFormat) (t : Token) :
    StopsAsExpected (instruction format t) n :=
  (stopsAsExpected_part _).bind (readsFront_chain _) fun _ =>
    (stopsAsExpected_operands _).bind (readsFront_operands _) fun _ =>
      (stopsAsExpected_operands _).bind_pure (readsFront_operands _)

end Operands

end TokenReader

/-- What a fault says of the block that has it: where the block starts and how long it is, and how
many tokens there are. The dimension of an index is never at fault. -/
inductive DecodeFault.IsLocated (start length available : Nat) : DecodeFault → Prop where
  | lengthZero (hlength : length = 0) : IsLocated start length available ⟨start, .lengthZero⟩
  | outOfBounds (hstop : available < start + length) :
      IsLocated start length available ⟨start, .outOfBounds start length available⟩
  | truncated (hstop : start + length ≤ available) :
      IsLocated start length available ⟨start + length, .operand .truncated⟩
  | componentCount {position : Nat} (hstart : start < position) (hle : position ≤ start + length)
      (hstop : start + length ≤ available) :
      IsLocated start length available ⟨position, .operand (.componentCount 3)⟩
  | indexRepresentation {position representation : Nat} (hstart : start < position)
      (hle : position ≤ start + length) (hstop : start + length ≤ available)
      (hrepresentation : representation = 5 ∨ representation = 6 ∨ representation = 7) :
      IsLocated start length available ⟨position, .operand (.indexRepresentation representation)⟩

namespace InstructionStream

/-- A stream passes over a block that is as long as it says and that can be read. -/
inductive Passes : InstructionStream → InstructionStream → Prop where
  | block {position : Nat} {t : Token} {block rest : List Token}
      (hlength : blockLength t (block ++ rest) = block.length + 1)
      (hread : Block.Readable ⟨t, block⟩) :
      Passes ⟨position, t :: (block ++ rest)⟩ ⟨position + (block.length + 1), rest⟩

/-- The stream that is left where a stream can pass over no more blocks. -/
structure StopsAt (s : InstructionStream) (start : Nat) (t : Token) (tail : List Token) : Prop where
  reached : Relation.ReflTransGen Passes s ⟨start, t :: tail⟩
  stuck : ∀ s', ¬ Passes ⟨start, t :: tail⟩ s'

variable {s s' : InstructionStream} {position start : Nat} {t : Token}
  {tail block rest : List Token} {e : DecodeFault}

theorem passes_iff_of_cutBlock (hcut : cutBlock position t tail = .ok (block, rest)) :
    Passes ⟨position, t :: tail⟩ s' ↔
      Block.Readable ⟨t, block⟩ ∧ s' = ⟨position + (block.length + 1), rest⟩ := by
  constructor
  · intro h
    cases h with
    | @block _ _ block' rest' hlength hread =>
      cases hcut.symm.trans (cutBlock_append_of_blockLength hlength position)
      exact ⟨hread, rfl⟩
  · rintro ⟨hread, rfl⟩
    have hlength := length_of_cutBlock hcut
    obtain rfl := append_of_cutBlock hcut
    exact .block hlength.symm hread

/-- A fault of a stream is one behind the blocks that it passes. -/
theorem Passes.collect_eq_error_iff (h : Passes s s') :
    s.collect = .error e ↔ s'.collect = .error e := by
  cases h with
  | @block position t block rest hlength hread =>
    rw [collect_of_cutBlock_ok (cutBlock_append_of_blockLength hlength position)]
    cases hskipped : t.opcode.isSkipped with
    | true =>
      have hitem := Block.blockItem?_of_isSkipped (b := ⟨t, block⟩)
        (position + (block.length + 1)) hskipped
      rw [hitem]
    | false =>
      obtain ⟨i, hitem, -⟩ := Block.blockItem?_of_readable (b := ⟨t, block⟩)
        (position + (block.length + 1)) hskipped hread
      rw [hitem]
      cases collect ⟨position + (block.length + 1), rest⟩ <;>
        simp [bind, Except.bind, pure, Except.pure]

theorem exists_stopsAt (h : collect ⟨position, tail⟩ = .error e) :
    ∃ start t rest, StopsAt ⟨position, tail⟩ start t rest := by
  induction position, tail using blockInduction with
  | nil position => cases collect_nil.symm.trans h
  | uncut position t tail e' hcut =>
    refine ⟨position, t, tail, .refl, fun s' hs' => ?_⟩
    cases hs' with
    | block hlength hread =>
      cases hcut.symm.trans (cutBlock_append_of_blockLength hlength position)
  | cut position t tail block rest hcut ih =>
    by_cases hread : Block.Readable ⟨t, block⟩
    · have hpasses : Passes ⟨position, t :: tail⟩ ⟨position + (block.length + 1), rest⟩ :=
        (passes_iff_of_cutBlock hcut).2 ⟨hread, rfl⟩
      obtain ⟨start, t', rest', hreached, hstuck⟩ := ih (hpasses.collect_eq_error_iff.1 h)
      exact ⟨start, t', rest', .head hpasses hreached, hstuck⟩
    · exact ⟨position, t, tail, .refl, fun s' hs' => hread ((passes_iff_of_cutBlock hcut).1 hs').1⟩

theorem isLocated_of_cutBlock_error (h : cutBlock start t tail = .error e) :
    e.IsLocated start (blockLength t tail) (start + (tail.length + 1)) := by
  simp only [cutBlock] at h
  split at h
  · next hzero =>
    cases h
    exact .lengthZero hzero
  · split at h
    · next hlt =>
      cases h
      rw [List.length_take] at hlt
      exact .outOfBounds (by omega)
    · cases h

/-- The fault of an operand is counted back from the end of its block. -/
theorem isLocated_of_blockItem?_error {stop available : Nat}
    (hstop : stop = start + (block.length + 1)) (hle : stop ≤ available)
    (h : blockItem? stop t block = some (.error e)) :
    e.IsLocated start (block.length + 1) available := by
  rw [blockItem?] at h
  split at h
  · cases h
  · cases hformat : t.opcode.format? with
    | none =>
      rw [hformat] at h
      cases h
    | some format =>
      simp only [hformat, TokenReader.ofBlock_eq] at h
      cases hread : TokenReader.instruction format t block with
      | ok taken =>
        rw [hread] at h
        cases h
      | error s =>
        have hleft : s.left ≤ block.length :=
          (TokenReader.readsFront_instruction format t).left_le (Nat.le_refl _) hread
        have hexpected : s.Expected :=
          TokenReader.stopsAsExpected_instruction format t _ _ (Nat.le_refl _) hread
        rw [hread] at h
        obtain rfl := Except.error.inj (Option.some.inj h)
        subst hstop
        -- A truncated operand leaves nothing of the block, and no other fault leaves more than all
        -- of it.
        cases hexpected with
        | truncated => exact .truncated hle
        | componentCount => exact .componentCount (by omega) (by omega) hle
        | indexRepresentation => exact .indexRepresentation (by omega) (by omega) hle (by omega)

/-- Where a stream is stuck in front of a block, the fault is that of the block. -/
theorem isLocated_of_stuck (hstuck : ∀ s', ¬ Passes ⟨start, t :: tail⟩ s')
    (h : collect ⟨start, t :: tail⟩ = .error e) :
    e.IsLocated start (blockLength t tail) (start + (tail.length + 1)) := by
  cases hcut : cutBlock start t tail with
  | error e' =>
    obtain rfl := Except.error.inj ((collect_of_cutBlock_error hcut).symm.trans h)
    exact isLocated_of_cutBlock_error hcut
  | ok parts =>
    obtain ⟨block, rest⟩ := parts
    have hread : ¬ Block.Readable ⟨t, block⟩ := fun hread =>
      hstuck _ ((passes_iff_of_cutBlock hcut).2 ⟨hread, rfl⟩)
    have hitem : ∃ e', blockItem? (start + (block.length + 1)) t block = some (.error e') := by
      by_contra hnone
      exact hread (Block.readable_of_blockItem?_ne_error (b := ⟨t, block⟩) _
        fun e' he' => hnone ⟨e', he'⟩)
    obtain ⟨e', he'⟩ := hitem
    rw [collect_of_cutBlock_ok hcut, he'] at h
    obtain rfl : e' = e := Except.error.inj h
    have hle : start + (block.length + 1) ≤ start + (tail.length + 1) := by
      rw [← append_of_cutBlock hcut, List.length_append]
      omega
    rw [← length_of_cutBlock hcut]
    exact isLocated_of_blockItem?_error rfl hle he'

/-- A stream keeps its place in the tokens while it passes over blocks. -/
theorem drop_of_reaches {tokens : List Token} (h : Relation.ReflTransGen Passes s s')
    (hs : tokens.drop s.position = s.tokens) :
    tokens.drop s'.position = s'.tokens ∧ s.position ≤ s'.position := by
  induction h with
  | refl => exact ⟨hs, Nat.le_refl _⟩
  | tail _ hpasses ih =>
    cases hpasses with
    | @block position t block rest hlength hread =>
      obtain ⟨hdrop, hle⟩ := ih
      refine ⟨?_, Nat.le_add_right_of_le hle⟩
      rw [← List.drop_drop, hdrop, List.drop_succ_cons, List.drop_left]

theorem collect_of_reaches (h : Relation.ReflTransGen Passes s s') :
    s.collect = .error e ↔ s'.collect = .error e := by
  induction h with
  | refl => rfl
  | tail _ hpasses ih => exact ih.trans hpasses.collect_eq_error_iff

end InstructionStream

namespace Program

open InstructionStream

/-- If the instructions of a program cannot be read, its stream stops in front of a block, which is
behind the header and before the end of the tokens, and the fault is located in that block. -/
theorem fault_is_located_in_block {p : Program} {e : DecodeFault} (h : p.instructions = .error e) :
    (∃ start t tail, (ofProgram p).StopsAt start t tail) ∧
    ∀ start t tail, (ofProgram p).StopsAt start t tail →
      p.tokens.drop start = t :: tail ∧ headerLength ≤ start ∧ start < p.tokens.length ∧
        e.IsLocated start (blockLength t tail) p.tokens.length := by
  have hcollect : (ofProgram p).collect = .error e := h
  refine ⟨exists_stopsAt hcollect, fun start t tail hstops => ?_⟩
  have hheader : p.tokens.drop (ofProgram p).position = (ofProgram p).tokens := rfl
  obtain ⟨hdrop, hle⟩ := drop_of_reaches hstops.reached hheader
  have hlength : p.tokens.length = start + (tail.length + 1) := by
    have hlength := congrArg List.length hdrop
    simp only [List.length_drop, List.length_cons] at hlength
    omega
  refine ⟨hdrop, hle, by omega, ?_⟩
  rw [hlength]
  exact isLocated_of_stuck hstops.stuck ((collect_of_reaches hstops.reached).1 hcollect)

/-- An empty block, and a move whose first operand has a number of components without a meaning. -/
def faultyProgram : Program :=
  ⟨.compute, ⟨5, 0⟩, [0x00050050, 6, 0x0100003A, 0x03000036, 3, 0]⟩

theorem fault_is_located_in_second_block :
    let e : DecodeFault := ⟨5, .operand (.componentCount 3)⟩
    faultyProgram.instructions = .error e ∧
      (ofProgram faultyProgram).StopsAt 3 0x03000036 [3, 0] ∧ e.IsLocated 3 3 6 := by
  intro e
  have hmove : Instruction.ofBlock ⟨.vectorAlu, 1, 1⟩ 0x03000036 [3, 0] =
      .error ⟨.componentCount 3, 1⟩ := by cbv
  have hformat : (Token.opcode 0x03000036).format? = some ⟨.vectorAlu, 1, 1⟩ := by decide +kernel
  have hcut : cutBlock 3 0x03000036 [3, 0] = .ok ([3, 0], []) := rfl
  have hpasses : Passes (ofProgram faultyProgram) ⟨3, [0x03000036, 3, 0]⟩ :=
    @Passes.block 2 0x0100003A [] [0x03000036, 3, 0] rfl fun format hskipped => by cases hskipped
  have hstops : (ofProgram faultyProgram).StopsAt 3 0x03000036 [3, 0] := by
    refine ⟨.single hpasses, fun s' hs' => ?_⟩
    have hread := ((passes_iff_of_cutBlock hcut).1 hs').1
    obtain ⟨i, hi⟩ := Block.readable_iff.1 hread _ (by decide) hformat
    cases hmove.symm.trans hi
  have hfault : faultyProgram.instructions = .error e := by
    refine hpasses.collect_eq_error_iff.2 ?_
    have hskipped : (Token.opcode 0x03000036).isSkipped = false := by decide
    rw [collect_of_cutBlock_ok hcut, blockItem?, if_neg (by rw [hskipped]; decide), hformat]
    simp only [hmove]
    rfl
  exact ⟨hfault, hstops, ((fault_is_located_in_block hfault).2 _ _ _ hstops).2.2.2⟩

end Program

end ShaderKit

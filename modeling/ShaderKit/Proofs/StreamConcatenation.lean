import ShaderKit.Proofs.StreamedAnalysis
import ShaderKit.Proofs.TokenReaders

/-!
# Streams of concatenated bodies

A stream keeps nothing of a block but the position behind it. The items of two bodies one behind
the other are those of the first and then those of the second, at positions further on. If the first
body ends in a fault, so do both together, and in the same one; only a block that the first body
cuts short may find its tokens in the second, so that the stream takes it up again.
-/

namespace ShaderKit

/-- The fault as it shows `k` tokens further on. -/
def BlockFault.shift (k : Nat) : BlockFault → BlockFault
  | lengthZero => lengthZero
  | outOfBounds start length available => outOfBounds (start + k) length (available + k)
  | operand fault => operand fault

def DecodeFault.shift (k : Nat) (e : DecodeFault) : DecodeFault := ⟨e.position + k, e.fault.shift k⟩

def StreamItem.shift (k : Nat) (item : StreamItem) : StreamItem := item.mapError (.shift k)

namespace InstructionStream

variable {position k : Nat} {t : Token} {tail block rest : List Token}

theorem cutBlock_shift (position k : Nat) (t : Token) (tail : List Token) :
    cutBlock (position + k) t tail = (cutBlock position t tail).mapError (.shift k) := by
  simp only [cutBlock]
  split
  · rfl
  · split
    · have havailable : position + k + (tail.length + 1) = position + (tail.length + 1) + k := by
        omega
      rw [havailable]
      rfl
    · rfl

theorem blockItem?_shift {stop : Nat} (h : block.length ≤ stop) :
    blockItem? (stop + k) t block = (blockItem? stop t block).map (StreamItem.shift k) := by
  rw [blockItem?, blockItem?]
  split
  · rfl
  · cases t.opcode.format? with
    | none => rfl
    | some format =>
      dsimp only
      cases hread : TokenReader.instruction format t block with
      | error s =>
        -- The fault is counted back from the end of the block, and shows inside of it.
        have hleft : s.left ≤ block.length :=
          (TokenReader.readsFront_instruction format t).left_le (Nat.le_refl _) hread
        have hsub : stop + k - s.left = stop - s.left + k := by omega
        rw [TokenReader.ofBlock_eq, hread]
        simp only [Except.map, Except.mapError, Option.map_some, hsub]
        rfl
      | ok taken =>
        rw [TokenReader.ofBlock_eq, hread]
        rfl

theorem items_shift (position k : Nat) (tokens : List Token) :
    items ⟨position + k, tokens⟩ = (items ⟨position, tokens⟩).map (StreamItem.shift k) := by
  induction position, tokens using blockInduction with
  | nil position =>
    rw [items_nil, items_nil]
    rfl
  | uncut position t tail e hcut =>
    have hshift := cutBlock_shift position k t tail
    rw [hcut] at hshift
    rw [items_of_cutBlock_error hshift, items_of_cutBlock_error hcut]
    rfl
  | cut position t tail block rest hcut ih =>
    have hshift := cutBlock_shift position k t tail
    rw [hcut] at hshift
    have hstop : position + k + (block.length + 1) = position + (block.length + 1) + k := by omega
    have hle : block.length ≤ position + (block.length + 1) := by omega
    rw [items_of_cutBlock_ok hshift, items_of_cutBlock_ok hcut, hstop, blockItem?_shift hle]
    cases blockItem? (position + (block.length + 1)) t block with
    | none => exact ih
    | some item =>
      cases item with
      | error e => rfl
      | ok i => exact congrArg (Except.ok i :: ·) ih

/-- Only a data block that ends in front of its length takes its length from what follows. -/
theorem blockLength_append (h : t.opcode = .customData → tail ≠ []) (back : List Token) :
    blockLength t (tail ++ back) = blockLength t tail := by
  by_cases hopcode : t.opcode = .customData
  · cases tail with
    | nil => exact absurd rfl (h hopcode)
    | cons d tail =>
      rw [blockLength, blockLength, List.cons_append, List.head?_cons, List.head?_cons]
  · rw [blockLength, blockLength, if_neg hopcode, if_neg hopcode]

theorem blockLength_of_nil (h : t.opcode = .customData) : blockLength t [] = 2 := by
  rw [blockLength, if_pos h]
  rfl

theorem cutBlock_append (h : cutBlock position t tail = .ok (block, rest)) (back : List Token) :
    cutBlock position t (tail ++ back) = .ok (block, rest ++ back) := by
  have hlength := length_of_cutBlock h
  have happend := append_of_cutBlock h
  have hblock : blockLength t (tail ++ back) = block.length + 1 := by
    rw [hlength]
    refine blockLength_append (fun hopcode hnil => ?_) back
    -- A data block of one token counts as two tokens long, and could not have been cut off.
    rw [hnil, blockLength_of_nil hopcode] at hlength
    rw [hnil, List.append_eq_nil_iff] at happend
    rw [happend.1] at hlength
    cases hlength
  rw [← happend, List.append_assoc] at hblock ⊢
  exact cutBlock_append_of_blockLength hblock position

/-- A block that cannot be cut off has no length or ends behind the tokens. -/
theorem cutBlock_error_cases {e : DecodeFault} (h : cutBlock position t tail = .error e) :
    (e = ⟨position, .lengthZero⟩ ∧ ∀ back, cutBlock position t (tail ++ back) = .error e) ∨
    ∃ length, e = ⟨position, .outOfBounds position length (position + (tail.length + 1))⟩ := by
  simp only [cutBlock] at h
  split at h
  · next hzero =>
    cases h
    refine .inl ⟨rfl, fun back => ?_⟩
    have hnil : t.opcode = .customData → tail ≠ [] := by
      rintro hopcode rfl
      cases hzero.symm.trans (blockLength_of_nil hopcode)
    simp only [cutBlock, blockLength_append hnil, hzero, if_true]
  · split at h
    · cases h
      exact .inr ⟨_, rfl⟩
    · cases h

theorem exists_operand_of_blockItem?_error {stop : Nat} {e : DecodeFault}
    (h : blockItem? stop t block = some (.error e)) :
    ∃ left fault, e = ⟨stop - left, .operand fault⟩ := by
  rw [blockItem?] at h
  split at h
  · cases h
  · cases hformat : t.opcode.format? with
    | none =>
      rw [hformat] at h
      cases h
    | some format =>
      rw [hformat] at h
      cases hread : Instruction.ofBlock format t block with
      | error s =>
        simp only [hread, Except.mapError, Option.some.injEq, Except.error.injEq] at h
        exact ⟨s.left, s.fault, h.symm⟩
      | ok i =>
        simp only [hread, Except.mapError, Option.some.injEq, reduceCtorEq] at h

/-- If the fault is that of a block that overruns the tokens, the block starts where the fault
shows, at the first position or behind it, and in front of the last, where the tokens end. -/
def OverrunsWithin (first last : Nat) (e : DecodeFault) : Prop :=
  ∀ start length available, e.fault = .outOfBounds start length available →
    e.position = start ∧ first ≤ start ∧ start < last ∧ available = last

theorem OverrunsWithin.mono {first first' last : Nat} {e : DecodeFault} (hle : first' ≤ first)
    (h : OverrunsWithin first last e) : OverrunsWithin first' last e := by
  intro start length available hfault
  obtain ⟨hposition, hstart, hlt⟩ := h start length available hfault
  exact ⟨hposition, Nat.le_trans hle hstart, hlt⟩

/-- What comes behind the instructions of a stream once more tokens follow, given the fault that
ends it without them. -/
def resumed (s : InstructionStream) (back : List Token) : Option DecodeFault → List StreamItem
  | none => items ⟨s.position + s.tokens.length, back⟩
  | some ⟨_, .outOfBounds start _ _⟩ => items ⟨start, (s.tokens ++ back).drop (start - s.position)⟩
  | some fault => [.error fault]

/-- Where a stream stops inside of what is behind its first block, it is taken up there. -/
theorem resumed_cons_append (position : Nat) (t : Token) (block rest back : List Token)
    {fault? : Option DecodeFault} {last : Nat}
    (h : ∀ e ∈ fault?, OverrunsWithin (position + (block.length + 1)) last e) :
    resumed ⟨position, t :: (block ++ rest)⟩ back fault? =
      resumed ⟨position + (block.length + 1), rest⟩ back fault? := by
  rcases fault? with _ | ⟨at', _ | ⟨start, length, available⟩ | fault⟩
  · have hend : position + (t :: (block ++ rest)).length =
        position + (block.length + 1) + rest.length := by
      rw [List.length_cons, List.length_append]
      omega
    rw [resumed, resumed, hend]
  · rfl
  · obtain ⟨-, hle, -⟩ := h _ rfl start length available rfl
    have hsub : start - position =
        (t :: block).length + (start - (position + (block.length + 1))) := by
      rw [List.length_cons]
      omega
    have htokens : t :: (block ++ rest) ++ back = (t :: block) ++ (rest ++ back) := by
      rw [List.cons_append, List.cons_append, List.append_assoc]
    rw [resumed, resumed, htokens, hsub, List.drop_length_add_append]
  · rfl

theorem exists_items_append (position : Nat) (front : List Token) :
    ∃ is fault?, items ⟨position, front⟩ = endedBy is fault? ∧
      (∀ back, items ⟨position, front ++ back⟩ =
        is.map Except.ok ++ resumed ⟨position, front⟩ back fault?) ∧
      ∀ e ∈ fault?, OverrunsWithin position (position + front.length) e := by
  induction position, front using blockInduction with
  | nil position => exact ⟨[], none, items_nil, fun back => rfl, by simp⟩
  | uncut position t tail e hcut =>
    refine ⟨[], some e, items_of_cutBlock_error hcut, ?_⟩
    rcases cutBlock_error_cases hcut with ⟨rfl, hback⟩ | ⟨length, rfl⟩
    · refine ⟨fun back => items_of_cutBlock_error (hback back), ?_⟩
      rintro _ ⟨⟩ start length available ⟨⟩
    · refine ⟨fun back => ?_, ?_⟩
      · rw [resumed, Nat.sub_self, List.drop_zero]
        rfl
      · rintro _ ⟨⟩ start length available ⟨⟩
        exact ⟨rfl, Nat.le_refl _, Nat.lt_add_of_pos_right (Nat.succ_pos _), rfl⟩
  | cut position t tail block rest hcut ih =>
    obtain ⟨is, fault?, hitems, hback, hwithin⟩ := ih
    have hresumed : ∀ back, resumed ⟨position, t :: tail⟩ back fault? =
        resumed ⟨position + (block.length + 1), rest⟩ back fault? := fun back => by
      rw [← append_of_cutBlock hcut]
      exact resumed_cons_append position t block rest back hwithin
    have hstop : position + (block.length + 1) + rest.length = position + (t :: tail).length := by
      rw [← append_of_cutBlock hcut, List.length_cons, List.length_append]
      omega
    rw [hstop] at hwithin
    have hwithin' : ∀ e ∈ fault?, OverrunsWithin position (position + (t :: tail).length) e :=
      fun e he => (hwithin e he).mono (Nat.le_add_right _ _)
    have hfront := items_of_cutBlock_ok hcut
    have hwhole := fun back => items_of_cutBlock_ok (cutBlock_append hcut back)
    cases hitem : blockItem? (position + (block.length + 1)) t block with
    | none =>
      simp only [hitem] at hfront hwhole
      refine ⟨is, fault?, hfront.trans hitems, fun back => ?_, hwithin'⟩
      rw [hresumed, List.cons_append, hwhole, hback]
    | some item =>
      cases item with
      | error e =>
        simp only [hitem] at hfront hwhole
        obtain ⟨left, fault, rfl⟩ := exists_operand_of_blockItem?_error hitem
        refine ⟨[], some _, hfront, hwhole, ?_⟩
        rintro _ ⟨⟩ start length available ⟨⟩
      | ok i =>
        simp only [hitem] at hfront hwhole
        refine ⟨i :: is, fault?, ?_, fun back => ?_, hwithin'⟩
        · rw [hfront, hitems]
          rfl
        · rw [hresumed, List.cons_append, hwhole, hback]
          rfl

end InstructionStream

namespace Program

/-- The program of a body with a version token. -/
def ofBody (version : Token) (body : List Token) : Program where
  stage := version.stage
  model := version.model
  tokens := version :: UInt32.ofNat (body.length + headerLength) :: body

def items (p : Program) : List StreamItem := (InstructionStream.ofProgram p).items

/-- The stream of two bodies, one behind the other. If that of the first ends without a fault, the
items of the second follow, as many tokens further on. If it ends in a fault, so does the stream of
both; but a block that overruns the first body is read again where it starts, with all the tokens
behind it. -/
theorem items_ofBody_append (version : Token) (front back : List Token) :
    ∃ is fault?, (ofBody version front).items = InstructionStream.endedBy is fault? ∧
      match fault? with
      | none =>
        (ofBody version (front ++ back)).items =
          (ofBody version front).items ++
            (ofBody version back).items.map (StreamItem.shift front.length)
      | some ⟨position, .outOfBounds start _ available⟩ =>
        position = start ∧ headerLength ≤ start ∧ start < available ∧
          available = headerLength + front.length ∧
          (ofBody version (front ++ back)).items =
            is.map Except.ok ++
              InstructionStream.items ⟨start, (ofBody version (front ++ back)).tokens.drop start⟩
      | some _ => (ofBody version (front ++ back)).items = (ofBody version front).items := by
  obtain ⟨is, fault?, hfront, hback, hwithin⟩ :=
    InstructionStream.exists_items_append headerLength front
  refine ⟨is, fault?, hfront, ?_⟩
  have hwhole : (ofBody version (front ++ back)).items =
      is.map Except.ok ++ InstructionStream.resumed ⟨headerLength, front⟩ back fault? := hback back
  have hitems : (ofBody version front).items = InstructionStream.endedBy is fault? := hfront
  rw [hwhole, hitems]
  rcases fault? with _ | ⟨position, _ | ⟨start, length, available⟩ | fault⟩
  · have hshift : InstructionStream.items ⟨headerLength + front.length, back⟩ =
        (ofBody version back).items.map (StreamItem.shift front.length) :=
      InstructionStream.items_shift headerLength front.length back
    rw [InstructionStream.resumed, hshift, InstructionStream.endedBy, Option.toList_none,
      List.map_nil, List.append_nil]
  · rfl
  · obtain ⟨hposition, hle, hlt, havailable⟩ := hwithin _ rfl start length available rfl
    refine ⟨hposition, hle, havailable ▸ hlt, havailable, ?_⟩
    obtain ⟨k, rfl⟩ := Nat.exists_eq_add_of_le hle
    have hdrop : (ofBody version (front ++ back)).tokens.drop (headerLength + k) =
        (front ++ back).drop k := by
      rw [Nat.add_comm headerLength k]
      rfl
    rw [InstructionStream.resumed, hdrop, Nat.add_sub_cancel_left]
  · rfl

end Program

end ShaderKit

import ShaderKit.ShaderAnalysis
import ShaderKit.Proofs.NestedOperands
import ShaderKit.Proofs.OperandParts
import ShaderKit.Proofs.StreamedAnalysis

/-!
# Well-formed instructions

What the fields of tokens leave open is all that an instruction can be: its opcode and its operands,
and those inside of operands, are within the ranges of their fields. The format of an opcode asks
for as many operands as the analysis looks for, so that no instruction of a stream lacks one.
-/

namespace ShaderKit

/-- One value stands in all places. -/
def Immediate.IsSplat (v : Immediate) : Prop :=
  (∃ x, v = .words x x x x) ∨ ∃ x, v = .longs x x

/-- Nothing but zeros. -/
def Immediate.IsZero (v : Immediate) : Prop := v = .words 0 0 0 0 ∨ v = .longs 0 0

/-- What holds of an operand apart from those inside of it. -/
structure Operand.WellFormed (o : Operand) : Prop where
  components : o.components.toNat = 0 ∨ o.components.toNat = 1 ∨ o.components.toNat = 4
  selection_lt : o.selection < 2 ^ 10
  exists_code : ∃ code < 2 ^ 8, o.type = .ofCode code
  dimension_le : o.indices.length ≤ indexPlaces
  vacant : ∀ k, (hk : k < indexPlaces) → o.indices.length ≤ k → o.places[k] = ⟨0, none⟩
  words_iff : (∃ x y z w, o.immediate = some (.words x y z w)) ↔ o.type = .imm32
  longs_iff : (∃ x y, o.immediate = some (.longs x y)) ↔ o.type = .imm64
  splat : o.components = .one → ∀ v ∈ o.immediate, v.IsSplat
  zero : o.components = .zero → ∀ v ∈ o.immediate, v.IsZero

namespace Instruction

/-- What holds of an instruction, of its operands and of all that are nested in them. -/
structure WellFormed (i : Instruction) : Prop where
  code_lt : i.opcode.code < 2 ^ 11
  ne_nop : i.opcode ≠ .nop
  ne_customData : i.opcode ≠ .customData
  not_declaration : i.opcode.isDeclaration = false
  controls_lt : i.controls < 2 ^ 13
  operands : ∀ o ∈ i.destinations ++ i.sources, ∀ path inner, o.nested? path = some inner →
    inner.WellFormed

/-- An operand is missing that the analysis looks for. -/
inductive LacksOperand (i : Instruction) : Prop where
  | destination (hkind : i.kind = .atomic) (hnone : i.destinations.getLast? = none)
  | resource (hkind : i.kind = .typedUavLoad) (hnone : i.sources[1]? = none)
  | texture (hkind : i.samplesTexture = true) (hnone : i.textureOperands? = none)

theorem samplesTexture_iff {i : Instruction} :
    i.samplesTexture = true ↔
      i.kind = .textureSample ∨ i.kind = .textureQueryLod ∨ i.kind = .textureGather := by
  rw [samplesTexture]
  cases i.kind <;> decide

end Instruction

/-- Of an instruction that lacks an operand, only the derivatives are noted that it takes anyway. -/
theorem ShaderUsage.note_of_lacksOperand {i : Instruction} (h : i.LacksOperand) (u : ShaderUsage) :
    u.note i =
      if i.kind = .textureSample ∨ i.kind = .textureQueryLod then u.noteDerivatives else u := by
  cases h with
  | destination hkind hnone => simp [note, hkind, atomicSlot?, hnone]
  | resource hkind hnone => simp [note, hkind, typedLoadSlot?, hnone]
  | texture hkind hnone =>
    have hpair : ∀ u : ShaderUsage, u.notePair i = u := by
      intro u
      rw [notePair, Instruction.slotPair?, hnone]
      rfl
    rcases Instruction.samplesTexture_iff.1 hkind with hkind | hkind | hkind <;>
      simp [note, hkind, hpair]

namespace WrittenImmediate

variable {type : OperandType} {components : ComponentCount}

theorem exists_of_takeImmediate {tokens rest : List Token} {immediate : Option Immediate}
    (h : Operand.takeImmediate type components tokens = some (immediate, rest)) :
    ∃ w : WrittenImmediate type components, w.immediate = immediate := by
  rw [Operand.takeImmediate.eq_def] at h
  split at h <;> cases h
  next => exact ⟨.noWord, rfl⟩
  next x => exact ⟨.word x, rfl⟩
  next x y z w => exact ⟨.words x y z w, rfl⟩
  next => exact ⟨.noLong, rfl⟩
  next high low => exact ⟨.long (Operand.joinLong high low), rfl⟩
  next h₀ l₀ h₁ l₁ => exact ⟨.longs (Operand.joinLong h₀ l₀) (Operand.joinLong h₁ l₁), rfl⟩
  next => exact ⟨.nothing (by assumption) (by assumption), rfl⟩

theorem words_iff (w : WrittenImmediate type components) :
    (∃ x y z w', w.immediate = some (.words x y z w')) ↔ type = .imm32 := by
  cases w <;> simp_all [immediate]

theorem longs_iff (w : WrittenImmediate type components) :
    (∃ x y, w.immediate = some (.longs x y)) ↔ type = .imm64 := by
  cases w <;> simp_all [immediate]

theorem isSplat (w : WrittenImmediate type components) (h : components = .one) :
    ∀ v ∈ w.immediate, v.IsSplat := by
  cases w with
  | word x => exact fun v hv => .inl ⟨x, (Option.some.inj hv).symm⟩
  | long x => exact fun v hv => .inr ⟨x, (Option.some.inj hv).symm⟩
  | nothing => simp [immediate]
  | _ => cases h

theorem isZero (w : WrittenImmediate type components) (h : components = .zero) :
    ∀ v ∈ w.immediate, v.IsZero := by
  cases w with
  | noWord => exact fun v hv => .inl (Option.some.inj hv).symm
  | noLong => exact fun v hv => .inr (Option.some.inj hv).symm
  | nothing => simp [immediate]
  | _ => cases h

end WrittenImmediate

namespace TokenReader

theorem length_of_takes_indices {forms : List Nat} {front : List Token}
    {is : List (OperandIndex Operand)} (h : Takes (indices forms) front is) :
    is.length = forms.length := by
  induction forms generalizing front is with
  | nil => exact congrArg List.length (takes_indices_nil_iff.1 h).2
  | cons form forms ih =>
    obtain ⟨_, i, front', is', -, rfl, -, his⟩ := takes_indices_cons_iff.1 h
    rw [List.length_cons, List.length_cons, ih his]

theorem wellFormed_of_takes {front : List Token} {o : Operand} (h : Takes operand front o) :
    o.WellFormed := by
  obtain ⟨t, chain, indexTokens, valueTokens, rfl, hparts⟩ := takes_operand_iff.1 h
  have hdimension : o.indices.length = t.field 20 2 := by
    rw [length_of_takes_indices hparts.indices, Operand.indexFields, List.length_map,
      List.length_range]
  have hvalues : ∃ w : WrittenImmediate o.type o.components, w.immediate = o.immediate := by
    have hread := (takes_iff fun n => readsFront_values _ _).1 hparts.values
    rw [part, ← hparts.type_eq] at hread
    cases htake : Operand.takeImmediate o.type o.components valueTokens with
    | none =>
      rw [htake] at hread
      cases hread
    | some taken =>
      rw [htake] at hread
      obtain rfl := Except.ok.inj hread
      exact WrittenImmediate.exists_of_takeImmediate htake
  obtain ⟨w, hw⟩ := hvalues
  constructor
  case components => cases o.components <;> simp [ComponentCount.toNat]
  case selection_lt => exact hparts.selection_eq ▸ t.field_lt 2 10
  case exists_code => exact ⟨t.field 12 8, t.field_lt 12 8, hparts.type_eq⟩
  case dimension_le => exact hdimension ▸ Nat.le_of_lt_succ (t.field_lt 20 2)
  case vacant =>
    intro k hk hle
    rw [o.getElem_places hk, List.getElem?_eq_none hle, Option.getD_none]
  case words_iff => exact hw ▸ w.words_iff
  case longs_iff => exact hw ▸ w.longs_iff
  case splat => exact fun h => hw ▸ w.isSplat h
  case zero => exact fun h => hw ▸ w.isZero h

theorem exists_takes_of_mem {n : Nat} {tokens unread : List Token} {os : List Operand}
    (h : Operand.decodeList n tokens = .ok (os, unread)) :
    ∀ o ∈ os, ∃ front, Takes operand front o := by
  induction n generalizing tokens os with
  | zero =>
    obtain ⟨rfl, -⟩ := Operand.decodeList_zero_eq_ok_iff.1 h
    exact fun o ho => absurd ho List.not_mem_nil
  | succ n ih =>
    obtain ⟨o, rest, os', ho, hos, rfl⟩ := Operand.decodeList_succ_eq_ok_iff.1 h
    obtain ⟨front, -, htakes⟩ := (readsFront_operand _).exists_takes (Nat.le_refl _) ho
    exact List.forall_mem_cons.2 ⟨⟨front, htakes⟩, ih hos⟩

/-- An operand in another one was taken from tokens of its own. -/
theorem wellFormed_of_nested? {front : List Token} {o inner : Operand} {path : List Nat}
    (h : Takes operand front o) (hinner : o.nested? path = some inner) : inner.WellFormed := by
  obtain ⟨_, own, _, -, hown, -⟩ := exists_takes_replace h hinner
  exact wellFormed_of_takes hown

end TokenReader

namespace Opcode

/-- Whatever opcode the class belongs to, the analysis finds its operands among those of the
format. -/
theorem operandCounts_of_format? {op : Opcode} {f : InstructionFormat} (h : op.format? = some f) :
    (f.kind = .atomic → 0 < f.destinations) ∧ (f.kind = .typedUavLoad → 1 < f.sources) ∧
      (f.kind = .textureSample ∨ f.kind = .textureQueryLod ∨ f.kind = .textureGather →
        (if op = .gatherOffset ∨ op = .gatherOffsetCompare then 2 else 1) + 1 < f.sources) := by
  have rows : ∀ row ∈ formatTable, ∀ code ∈ row.2,
      (row.1.kind = .atomic → 0 < row.1.destinations) ∧
        (row.1.kind = .typedUavLoad → 1 < row.1.sources) ∧
        (row.1.kind = .textureSample ∨ row.1.kind = .textureQueryLod ∨
            row.1.kind = .textureGather →
          (if (⟨code⟩ : Opcode) = .gatherOffset ∨ (⟨code⟩ : Opcode) = .gatherOffsetCompare
            then 2 else 1) + 1 < row.1.sources) := by
    decide +kernel
  exact format?_of_rows (P := fun code f =>
    (f.kind = .atomic → 0 < f.destinations) ∧ (f.kind = .typedUavLoad → 1 < f.sources) ∧
      (f.kind = .textureSample ∨ f.kind = .textureQueryLod ∨ f.kind = .textureGather →
        (if (⟨code⟩ : Opcode) = .gatherOffset ∨ (⟨code⟩ : Opcode) = .gatherOffsetCompare
          then 2 else 1) + 1 < f.sources)) rows h

end Opcode

namespace Block

variable {b : Block} {i : Instruction}

/-- The opcode and the controls of an instruction that is not left out fit their fields. -/
theorem wellFormed_of_operands (hopcode : i.opcode = b.first.opcode)
    (hcontrols : i.controls = b.first.controls) (hskipped : b.first.opcode.isSkipped = false)
    (hoperands : ∀ o ∈ i.destinations ++ i.sources,
      ∃ front, TokenReader.Takes TokenReader.operand front o) : i.WellFormed := by
  simp only [Opcode.isSkipped, Bool.or_eq_false_iff, decide_eq_false_iff_not] at hskipped
  obtain ⟨⟨hdata, hnop⟩, hdeclaration⟩ := hskipped
  constructor
  case code_lt => exact hopcode ▸ b.first.field_lt 0 11
  case ne_nop => exact hopcode ▸ hnop
  case ne_customData => exact hopcode ▸ hdata
  case not_declaration => exact hopcode ▸ hdeclaration
  case controls_lt => exact hcontrols ▸ b.first.field_lt 11 13
  case operands =>
    intro o ho path inner hinner
    obtain ⟨front, htakes⟩ := hoperands o ho
    exact TokenReader.wellFormed_of_nested? htakes hinner

/-- An instruction with all operands of its format has those that the analysis looks for. -/
theorem not_lacksOperand {format : InstructionFormat} (hformat : i.opcode.format? = some format)
    (hkind : i.kind = format.kind) (hdestinations : i.destinations.length = format.destinations)
    (hsources : i.sources.length = format.sources) : ¬ i.LacksOperand := by
  obtain ⟨hatomic, hload, hsamples⟩ := Opcode.operandCounts_of_format? hformat
  rw [← hkind, ← hdestinations] at hatomic
  rw [← hkind, ← hsources] at hload hsamples
  intro h
  cases h with
  | destination hkind hnone =>
    have hpos := hatomic hkind
    rw [List.getLast?_eq_none_iff.1 hnone] at hpos
    exact Nat.lt_irrefl 0 hpos
  | resource hkind hnone =>
    exact Nat.not_le_of_lt (hload hkind) (List.getElem?_eq_none_iff.1 hnone)
  | texture hkind hnone =>
    have hlt : i.textureIndex + 1 < i.sources.length :=
      hsamples (Instruction.samplesTexture_iff.1 hkind)
    rw [Instruction.textureOperands?, List.getElem?_eq_getElem (Nat.lt_of_succ_lt hlt),
      List.getElem?_eq_getElem hlt] at hnone
    cases hnone

theorem wellFormed_of_blockItem? {stop : Nat}
    (h : InstructionStream.blockItem? stop b.first b.rest = some (.ok i)) :
    i.WellFormed ∧ ¬ i.LacksOperand := by
  rw [InstructionStream.blockItem?] at h
  split at h
  · cases h
  · next hskipped =>
    rw [Bool.not_eq_true] at hskipped
    cases hformat : b.first.opcode.format? with
    | none =>
      rw [hformat] at h
      obtain rfl := Except.ok.inj (Option.some.inj h)
      refine ⟨wellFormed_of_operands rfl rfl hskipped (by simp [Instruction.unformatted]), ?_⟩
      intro hlacks
      cases hlacks <;> contradiction
    | some format =>
      simp only [hformat] at h
      cases hread : Instruction.ofBlock format b.first b.rest with
      | error s =>
        rw [hread] at h
        cases h
      | ok j =>
        rw [hread] at h
        obtain rfl := Except.ok.inj (Option.some.inj h)
        obtain ⟨hopcode, hkind, hcontrols, -, hdestinations, hsources, chain, rest, unread, -, -,
          hoperands⟩ := ofBlock_eq_ok_iff.1 hread
        rw [← hopcode] at hformat
        exact ⟨wellFormed_of_operands hopcode hcontrols hskipped
            (TokenReader.exists_takes_of_mem hoperands),
          not_lacksOperand hformat hkind hdestinations hsources⟩

end Block

namespace InstructionStream

theorem wellFormed_of_mem_items {position : Nat} {tokens : List Token} {i : Instruction}
    (h : .ok i ∈ items ⟨position, tokens⟩) : i.WellFormed ∧ ¬ i.LacksOperand := by
  induction position, tokens using blockInduction with
  | nil position =>
    rw [items_nil] at h
    cases h
  | uncut position t tail e hcut =>
    rw [items_of_cutBlock_error hcut] at h
    cases List.mem_singleton.1 h
  | cut position t tail block rest hcut ih =>
    rw [items_of_cutBlock_ok hcut] at h
    split at h
    · exact ih h
    · next j hitem =>
      rcases List.mem_cons.1 h with hself | hrest
      · obtain rfl := Except.ok.inj hself
        exact Block.wellFormed_of_blockItem? (b := ⟨t, block⟩) hitem
      · exact ih hrest
    · cases List.mem_singleton.1 h

end InstructionStream

namespace Program

/-- Every instruction that the stream of a program yields is well formed, whether or not a fault
comes behind it, and the analysis finds in it all operands that it looks for. -/
theorem yielded_instructions_are_wellFormed (p : Program) :
    (∀ i, .ok i ∈ (InstructionStream.ofProgram p).items → i.WellFormed ∧ ¬ i.LacksOperand) ∧
      ∀ is, p.instructions = .ok is → ∀ i ∈ is, i.WellFormed ∧ ¬ i.LacksOperand := by
  have hitems : ∀ i, .ok i ∈ (InstructionStream.ofProgram p).items →
      i.WellFormed ∧ ¬ i.LacksOperand := fun i =>
    InstructionStream.wellFormed_of_mem_items
  refine ⟨hitems, fun is his i hi => hitems i ?_⟩
  obtain ⟨is', fault?, hended, hcollect⟩ :=
    (InstructionStream.ofProgram p).exists_items_eq_endedBy
  rw [← instructions_eq_collect, his] at hcollect
  cases fault? with
  | some e => cases hcollect
  | none =>
    obtain rfl := Except.ok.inj hcollect
    rw [hended]
    exact List.mem_append_left _ (List.mem_map_of_mem hi)

/-- A typed load whose address adds a register to its number, in front of a block without a
length. -/
def loadingProgram : Program :=
  ⟨.compute, ⟨5, 0⟩, [0x00050050, 12, 0x090000A3, 0x001000F2, 0, 0x00D00002, 4, 0x00100001, 0,
    0x0011E002, 1, 0x00000036]⟩

def addressRegister : Operand := ⟨.temp, .one, 0, .none, [⟨0, none⟩], none⟩

def loadInstruction : Instruction where
  opcode := ⟨163⟩
  kind := .typedUavLoad
  controls := 0
  saturate := false
  destinations := [⟨.temp, .four, 60, .none, [⟨0, none⟩], none⟩]
  sources := [⟨.temp, .four, 0, .none, [⟨4, some addressRegister⟩], none⟩,
    ⟨.unorderedAccessView, .four, 0, .none, [⟨1, none⟩], none⟩]

theorem wellFormed_of_loadingProgram :
    let items := (InstructionStream.ofProgram loadingProgram).items
    items = [.ok loadInstruction, .error ⟨11, .lengthZero⟩] ∧ loadInstruction.WellFormed ∧
      addressRegister.WellFormed ∧ ¬ loadInstruction.LacksOperand := by
  intro items
  have hread : Instruction.ofBlock ⟨.typedUavLoad, 1, 2⟩ 0x090000A3
      [0x001000F2, 0, 0x00D00002, 4, 0x00100001, 0, 0x0011E002, 1] = .ok loadInstruction := by cbv
  have hformat : (Token.opcode 0x090000A3).format? = some ⟨.typedUavLoad, 1, 2⟩ := by
    decide +kernel
  have hskipped : (Token.opcode 0x090000A3).isSkipped = false := by decide
  have hcut : InstructionStream.cutBlock 2 0x090000A3 [0x001000F2, 0, 0x00D00002, 4, 0x00100001, 0,
      0x0011E002, 1, 0x00000036] =
        .ok ([0x001000F2, 0, 0x00D00002, 4, 0x00100001, 0, 0x0011E002, 1], [0x00000036]) := rfl
  have hfault : InstructionStream.cutBlock 11 0x00000036 [] = .error ⟨11, .lengthZero⟩ := rfl
  have hitems : items = [.ok loadInstruction, .error ⟨11, .lengthZero⟩] := by
    refine (InstructionStream.items_of_cutBlock_ok hcut).trans ?_
    rw [InstructionStream.blockItem?, if_neg (by rw [hskipped]; decide), hformat]
    simp only [hread, Except.mapError]
    exact congrArg _ (InstructionStream.items_of_cutBlock_error hfault)
  have hmem : .ok loadInstruction ∈ items := by
    rw [hitems]
    exact List.mem_cons_self
  obtain ⟨hinstruction, hlacks⟩ :=
    (yielded_instructions_are_wellFormed loadingProgram).1 loadInstruction hmem
  exact ⟨hitems, hinstruction,
    hinstruction.operands _ (List.mem_cons_of_mem _ List.mem_cons_self) [0] _ rfl, hlacks⟩

end Program

end ShaderKit

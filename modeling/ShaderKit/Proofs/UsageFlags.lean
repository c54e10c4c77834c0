import ShaderKit.ShaderAnalysis

/-!
# Flags of a shader

Each flag of a shader stands for one kind of instruction. Noting an instruction of that kind raises
the flag, and no instruction clears it or raises it for another reason, so that in the end the flags
tell which kinds of instructions the shader has.
-/

namespace ShaderKit

theorem Operand.accessSlot?_eq_some_iff {o : Operand} {k : Fin accessSlots} :
    o.accessSlot? = some k ↔ o.slot? = some k.val := by
  rw [accessSlot?]
  cases o.slot? with
  | none => simp
  | some n =>
    rw [Option.bind_eq_bind, Option.bind_some]
    split
    · simp [Fin.ext_iff]
    · next hn =>
      simp only [reduceCtorEq, Option.some.injEq, false_iff]
      rintro rfl
      exact hn k.isLt

namespace Instruction

/-- A sample, a query for the level of detail or a derivative, whatever its operands are. -/
def TakesDerivatives (i : Instruction) : Prop :=
  i.kind = .textureSample ∨ i.kind = .textureQueryLod ∨ i.kind = .vectorDeriv

def DiscardsPixels (i : Instruction) : Prop := i.kind = .controlFlow ∧ i.opcode = .discard

/-- An atomic instruction whose last destination names a slot for unordered access. -/
def IsAtomicOn (i : Instruction) (k : Fin accessSlots) : Prop :=
  i.kind = .atomic ∧ ∃ o, i.destinations.getLast? = some o ∧ o.type = .unorderedAccessView ∧
    o.slot? = some k.val

/-- A typed load whose second source names a slot. -/
def LoadsTypedFrom (i : Instruction) (k : Fin accessSlots) : Prop :=
  i.kind = .typedUavLoad ∧ ∃ o, i.sources[1]? = some o ∧ o.slot? = some k.val

theorem isAtomicOn_iff {i : Instruction} {k : Fin accessSlots} :
    i.IsAtomicOn k ↔ i.kind = .atomic ∧ ShaderUsage.atomicSlot? i = some k := by
  rw [IsAtomicOn, ShaderUsage.atomicSlot?, Option.bind_eq_bind, Option.bind_eq_some_iff]
  refine and_congr_right fun _ => exists_congr fun o => and_congr_right fun _ => ?_
  split
  · next htype => simp [htype, Operand.accessSlot?_eq_some_iff]
  · next htype => simp [htype]

theorem loadsTypedFrom_iff {i : Instruction} {k : Fin accessSlots} :
    i.LoadsTypedFrom k ↔ i.kind = .typedUavLoad ∧ ShaderUsage.typedLoadSlot? i = some k := by
  simp only [LoadsTypedFrom, ShaderUsage.typedLoadSlot?, Option.bind_eq_bind,
    Option.bind_eq_some_iff, Operand.accessSlot?_eq_some_iff]

end Instruction

namespace ShaderUsage

/-- The flags of `v` are those of `u` and the ones that an instruction raises. -/
structure Raises (i : Instruction) (u v : ShaderUsage) : Prop where
  derivatives_iff : v.derivatives = true ↔ u.derivatives = true ∨ i.TakesDerivatives
  discards_iff : v.discards = true ↔ u.discards = true ∨ i.DiscardsPixels
  atomic_iff : ∀ k, (v.accesses.get k).atomic = true ↔
    (u.accesses.get k).atomic = true ∨ i.IsAtomicOn k
  typedLoad_iff : ∀ k, (v.accesses.get k).typedLoad = true ↔
    (u.accesses.get k).typedLoad = true ∨ i.LoadsTypedFrom k

section Fields

variable (u : ShaderUsage) (i : Instruction) (j k : Fin accessSlots)

theorem get_accesses_set (a : AccessUse) :
    (u.accesses.set j.val a j.isLt).get k = if k = j then a else u.accesses.get k := by
  change (u.accesses.set j.val a j.isLt)[k.val] = if k = j then a else u.accesses[k.val]
  simp [Vector.getElem_set, Fin.ext_iff, eq_comm]

theorem get_accesses_noteAtomic : (u.noteAtomic j).accesses.get k =
    if k = j then { u.accesses.get j with atomic := true } else u.accesses.get k :=
  u.get_accesses_set j k _

theorem get_accesses_noteTypedLoad : (u.noteTypedLoad j).accesses.get k =
    if k = j then { u.accesses.get j with typedLoad := true } else u.accesses.get k :=
  u.get_accesses_set j k _

@[simp] theorem atomic_noteAtomic_iff : ((u.noteAtomic j).accesses.get k).atomic = true ↔
    (u.accesses.get k).atomic = true ∨ j = k := by
  rw [get_accesses_noteAtomic]
  split
  · next h => simp [h]
  · next h => simp [Ne.symm h]

@[simp] theorem typedLoad_noteAtomic : ((u.noteAtomic j).accesses.get k).typedLoad =
    (u.accesses.get k).typedLoad := by
  rw [get_accesses_noteAtomic]
  split
  · next h => rw [h]
  · rfl

@[simp] theorem typedLoad_noteTypedLoad_iff :
    ((u.noteTypedLoad j).accesses.get k).typedLoad = true ↔
      (u.accesses.get k).typedLoad = true ∨ j = k := by
  rw [get_accesses_noteTypedLoad]
  split
  · next h => simp [h]
  · next h => simp [Ne.symm h]

@[simp] theorem atomic_noteTypedLoad : ((u.noteTypedLoad j).accesses.get k).atomic =
    (u.accesses.get k).atomic := by
  rw [get_accesses_noteTypedLoad]
  split
  · next h => rw [h]
  · rfl

@[simp] theorem derivatives_noteAtomic : (u.noteAtomic j).derivatives = u.derivatives := rfl

@[simp] theorem discards_noteAtomic : (u.noteAtomic j).discards = u.discards := rfl

@[simp] theorem derivatives_noteTypedLoad : (u.noteTypedLoad j).derivatives = u.derivatives := rfl

@[simp] theorem discards_noteTypedLoad : (u.noteTypedLoad j).discards = u.discards := rfl

@[simp] theorem derivatives_noteDerivatives : u.noteDerivatives.derivatives = true := rfl

@[simp] theorem discards_noteDerivatives : u.noteDerivatives.discards = u.discards := rfl

@[simp] theorem accesses_noteDerivatives : u.noteDerivatives.accesses = u.accesses := rfl

@[simp] theorem derivatives_notePair : (u.notePair i).derivatives = u.derivatives := by
  rw [notePair]
  split <;> rfl

@[simp] theorem discards_notePair : (u.notePair i).discards = u.discards := by
  rw [notePair]
  split <;> rfl

@[simp] theorem accesses_notePair : (u.notePair i).accesses = u.accesses := by
  rw [notePair]
  split <;> rfl

end Fields

/-- The flags that one instruction raises. -/
theorem raises_note (u : ShaderUsage) (i : Instruction) : Raises i u (u.note i) := by
  have hatomic := @Instruction.isAtomicOn_iff i
  have hload := @Instruction.loadsTypedFrom_iff i
  cases hk : i.kind with
  | atomic =>
    cases hslot : atomicSlot? i <;> constructor <;>
      simp [note, hk, hslot, hatomic, hload, Instruction.TakesDerivatives,
        Instruction.DiscardsPixels]
  | typedUavLoad =>
    cases hslot : typedLoadSlot? i <;> constructor <;>
      simp [note, hk, hslot, hatomic, hload, Instruction.TakesDerivatives,
        Instruction.DiscardsPixels]
  | controlFlow =>
    by_cases hdiscard : i.opcode = .discard <;> constructor <;>
      simp [note, hk, hdiscard, hatomic, hload, Instruction.TakesDerivatives,
        Instruction.DiscardsPixels]
  | _ =>
    constructor <;> simp [note, hk, hatomic, hload, Instruction.TakesDerivatives,
      Instruction.DiscardsPixels]

/-- A flag that some instructions raise and none clears is raised in the end exactly if it was
raised before or one of these instructions is among those noted. -/
theorem flag_noteAll_iff {f : ShaderUsage → Bool} {P : Instruction → Prop}
    (hstep : ∀ u i, f (u.note i) = true ↔ f u = true ∨ P i) (u : ShaderUsage)
    (is : List Instruction) :
    f (u.noteAll is) = true ↔ f u = true ∨ ∃ i ∈ is, P i := by
  induction is generalizing u with
  | nil => simp [noteAll]
  | cons i is ih =>
    have hrest := ih (u.note i)
    rw [hstep, or_assoc] at hrest
    simpa [noteAll] using hrest

theorem get_accesses_ofSignatures (signatures : ShaderSignatures) (k : Fin accessSlots) :
    (ofSignatures signatures).accesses.get k = ⟨false, false⟩ :=
  Vector.getElem_replicate k.isLt

/-- The flags of a shader tell exactly which of these instructions it has, however many it has and
in which order: those that take derivatives, that discard pixels, and, for each noted slot for
unordered access, the atomic ones on it and the typed loads from it. A slot that an operand names is
its first index, if it has one to which no register is added. -/
theorem flags_describe_instructions (signatures : ShaderSignatures) (is : List Instruction) :
    let u := (ofSignatures signatures).noteAll is
    (u.derivatives = true ↔ ∃ i ∈ is, i.TakesDerivatives) ∧
    (u.discards = true ↔ ∃ i ∈ is, i.DiscardsPixels) ∧
    (∀ k : Fin accessSlots,
      ((u.accesses.get k).atomic = true ↔ ∃ i ∈ is, i.IsAtomicOn k) ∧
      ((u.accesses.get k).typedLoad = true ↔ ∃ i ∈ is, i.LoadsTypedFrom k)) ∧
    ∀ (o : Operand) (n : Nat), o.slot? = some n ↔
      ∃ i, o.indices.head? = some i ∧ i.base.isNone ∧ i.offset.toNat = n := by
  intro u
  have hderivatives : (ofSignatures signatures).derivatives = false := rfl
  have hdiscards : (ofSignatures signatures).discards = false := rfl
  refine ⟨?_, ?_, fun k => ⟨?_, ?_⟩, fun o n => Operand.slot?_eq_some_iff⟩
  · have hflag := flag_noteAll_iff (fun u i => (raises_note u i).derivatives_iff)
      (ofSignatures signatures) is
    simpa [hderivatives] using hflag
  · have hflag := flag_noteAll_iff (fun u i => (raises_note u i).discards_iff)
      (ofSignatures signatures) is
    simpa [hdiscards] using hflag
  · have hflag := flag_noteAll_iff (f := fun u => (u.accesses.get k).atomic)
      (fun u i => (raises_note u i).atomic_iff k) (ofSignatures signatures) is
    simpa [get_accesses_ofSignatures] using hflag
  · have hflag := flag_noteAll_iff (f := fun u => (u.accesses.get k).typedLoad)
      (fun u i => (raises_note u i).typedLoad_iff k) (ofSignatures signatures) is
    simpa [get_accesses_ofSignatures] using hflag

end ShaderUsage

end ShaderKit

import ShaderKit.Token

/-!
# Operands

An operand names a register by its type and up to three indices, selects components of it
and may negate it or take its absolute value. An index is a number to which the value of
another register may be added, so operands nest. Immediate operands carry their values.
-/

namespace ShaderKit

inductive OperandType where
  | temp
  | input
  | output
  | indexableTemp
  | imm32
  | imm64
  | sampler
  | resource
  | constantBuffer
  | immediateConstantBuffer
  | label
  | inputPrimitiveId
  | outputDepth
  | null
  | rasterizer
  | outputCoverageMask
  | stream
  | functionBody
  | functionTable
  | interface
  | functionInput
  | functionOutput
  | outputControlPointId
  | inputForkInstanceId
  | inputJoinInstanceId
  | inputControlPoint
  | outputControlPoint
  | inputPatchConstant
  | inputDomainPoint
  | thisPointer
  | unorderedAccessView
  | threadGroupSharedMemory
  | inputThreadId
  | inputThreadGroupId
  | inputThreadIdInGroup
  | inputCoverageMask
  | inputThreadIndexInGroup
  | inputGsInstanceId
  | outputDepthGe
  | outputDepthLe
  | cycleCounter
  | other (code : Nat)
  deriving DecidableEq, Repr

namespace OperandType

def known : List OperandType :=
  [temp, input, output, indexableTemp, imm32, imm64, sampler, resource, constantBuffer,
    immediateConstantBuffer, label, inputPrimitiveId, outputDepth, null, rasterizer,
    outputCoverageMask, stream, functionBody, functionTable, interface, functionInput,
    functionOutput, outputControlPointId, inputForkInstanceId, inputJoinInstanceId,
    inputControlPoint, outputControlPoint, inputPatchConstant, inputDomainPoint, thisPointer,
    unorderedAccessView, threadGroupSharedMemory, inputThreadId, inputThreadGroupId,
    inputThreadIdInGroup, inputCoverageMask, inputThreadIndexInGroup, inputGsInstanceId,
    outputDepthGe, outputDepthLe, cycleCounter]

def ofCode (code : Nat) : OperandType := known[code]?.getD (other code)

def code : OperandType → Nat
  | other code => code
  | t => known.idxOf t

theorem code_ofCode (n : Nat) : (ofCode n).code = n := by
  by_cases h : n < known.length
  · have table : ∀ i : Fin known.length, (ofCode i).code = i := by decide
    exact table ⟨n, h⟩
  · simp [ofCode, List.getElem?_eq_none (Nat.le_of_not_lt h), code]

end OperandType

inductive ComponentCount where
  | zero
  | one
  | four
  deriving DecidableEq, Repr

namespace ComponentCount

def toNat : ComponentCount → Nat
  | zero => 0
  | one => 1
  | four => 4

/-- The count of an encoded field; the fourth encoding stands for no count. -/
def ofField? : Nat → Option ComponentCount
  | 0 => some zero
  | 1 => some one
  | 2 => some four
  | _ => none

def toField : ComponentCount → Nat
  | zero => 0
  | one => 1
  | four => 2

theorem ofField?_eq_some_iff {n : Nat} {c : ComponentCount} :
    ofField? n = some c ↔ n = c.toField := by
  unfold ofField?
  split <;> cases c <;> simp_all [toField]

theorem ofField?_eq_none_iff {n : Nat} : ofField? n = none ↔ 3 ≤ n := by
  match n with
  | 0 | 1 | 2 => simp [ofField?]
  | n + 3 => simp [ofField?]

end ComponentCount

inductive OperandModifier where
  | none
  | neg
  | abs
  | absNeg
  deriving DecidableEq, Repr

namespace OperandModifier

def ofField : Nat → OperandModifier
  | 1 => neg
  | 2 => abs
  | 3 => absNeg
  | _ => none

def isStatedBy (t : Token) : Bool := t.field 0 6 == 1

/-- The modifier of a chain of extended tokens: the last of the modifier kind decides. -/
def ofChain (chain : List Token) : OperandModifier :=
  match (chain.filter isStatedBy).getLast? with
  | some t => ofField (t.field 6 8)
  | Option.none => none

end OperandModifier

/-- The values of an immediate operand: four words or two long words. A single value that is
stored stands in all places. -/
inductive Immediate where
  | words (x y z w : UInt32)
  | longs (x y : UInt64)
  deriving DecidableEq, Repr

/-- An index: a number, to which the value of the base register is added if there is one. -/
structure OperandIndex (α : Type) where
  offset : UInt64
  base : Option α
  deriving DecidableEq, Repr

/-- An operand. The selection holds the raw bits that choose its components. -/
structure Operand where
  type : OperandType
  components : ComponentCount
  selection : Nat
  modifier : OperandModifier
  indices : List (OperandIndex Operand)
  immediate : Option Immediate

abbrev indexPlaces : Nat := 3

namespace Operand

def ofType (type : OperandType) : Operand := ⟨type, .zero, 0, .none, [], none⟩

/-- The indices in their places, into which they are put one by one. A place that no index takes
holds the plain number zero. -/
def places (o : Operand) : Vector (OperandIndex Operand) indexPlaces :=
  o.indices.zipIdx.foldl (fun places (i, k) => places.setIfInBounds k i)
    (Vector.replicate _ ⟨0, none⟩)

/-- The slot that an operand refers to whatever the registers hold: its first index, if that
is a plain number. -/
def slot? (o : Operand) : Option Nat :=
  match o.indices with
  | ⟨offset, none⟩ :: _ => some offset.toNat
  | _ => none

theorem getElem_foldl_setIfInBounds {α : Type} {n : Nat} (xs : List α) (first : Nat)
    (places : Vector α n) {k : Nat} (hk : k < n) :
    ((xs.zipIdx first).foldl (fun places (x, k) => places.setIfInBounds k x) places)[k] =
      if first ≤ k then xs[k - first]?.getD places[k] else places[k] := by
  induction xs generalizing first places with
  | nil => simp
  | cons x xs ih =>
    rw [List.zipIdx_cons, List.foldl_cons, ih]
    rcases Nat.lt_trichotomy first k with hlt | rfl | hgt
    · have hk' : k - first = (k - (first + 1)) + 1 := by omega
      simp only [Nat.le_of_lt hlt, Nat.succ_le_of_lt hlt, if_true, hk', List.getElem?_cons_succ,
        Vector.getElem_setIfInBounds, Nat.ne_of_lt hlt, if_false]
    · rw [if_neg (Nat.not_succ_le_self first)]
      simp
    · have hle : ¬ first ≤ k := by omega
      have hle' : ¬ first + 1 ≤ k := by omega
      simp [hle, hle', Nat.ne_of_gt hgt]

theorem getElem_places (o : Operand) {k : Nat} (hk : k < indexPlaces) :
    o.places[k] = o.indices[k]?.getD ⟨0, none⟩ := by
  rw [places, getElem_foldl_setIfInBounds o.indices 0 _ hk, if_pos (Nat.zero_le k), Nat.sub_zero,
    Vector.getElem_replicate]

theorem slot?_eq_some_iff {o : Operand} {n : Nat} :
    o.slot? = some n ↔
      ∃ i, o.indices.head? = some i ∧ i.base.isNone ∧ i.offset.toNat = n := by
  unfold slot?
  split
  · next h => simp [h]
  · next h =>
    match hi : o.indices, h with
    | [], _ => simp
    | ⟨_, some _⟩ :: _, _ => simp
    | ⟨offset, none⟩ :: is, h => exact absurd rfl (h offset is)

end Operand

end ShaderKit

/-!
# Opcodes

An instruction's opcode fixes its class and how many operands it writes and reads. The table
below lists these for every opcode of shader models 4 and 5 that computes something. The
others are declarations, data blocks that carry no operands, and numbers without a meaning.
-/

namespace ShaderKit

structure Opcode where
  code : Nat
  deriving DecidableEq, Repr

inductive InstructionClass where
  | declaration
  | customData
  | noOperation
  | atomic
  | atomicCounter
  | barrier
  | bitExtract
  | bitInsert
  | bitScan
  | bufferQuery
  | bufferLoad
  | bufferStore
  | convertFloat16
  | controlFlow
  | geometryEmit
  | hullShaderPhase
  | textureQuery
  | textureQueryLod
  | textureQueryMs
  | textureQueryMsPos
  | textureFetch
  | textureGather
  | textureSample
  | typedUavLoad
  | typedUavStore
  | vectorAlu
  | vectorCmov
  | vectorCmp
  | vectorDeriv
  | vectorDot
  | vectorIdiv
  | vectorImul
  | vectorSinCos
  | undefined
  deriving DecidableEq, Repr

/-- The class of an opcode and the numbers of operands that it writes and reads. -/
structure InstructionFormat where
  kind : InstructionClass
  destinations : Nat
  sources : Nat
  deriving DecidableEq, Repr

namespace Opcode

def discard : Opcode := ⟨13⟩

/-- A block of data whose length stands in the token behind the opcode. -/
def customData : Opcode := ⟨53⟩

def nop : Opcode := ⟨58⟩

/-- The two gathers with an offset operand in front of the texture. -/
def gatherOffset : Opcode := ⟨127⟩
def gatherOffsetCompare : Opcode := ⟨128⟩

/-- Declarations have layouts of their own, which are not read. -/
def isDeclaration (op : Opcode) : Bool :=
  (88 ≤ op.code && op.code ≤ 106) || (143 ≤ op.code && op.code ≤ 162) || op.code == 206

/-- Whether a block of this opcode holds no instruction: it is data, a declaration or empty. -/
def isSkipped (op : Opcode) : Bool :=
  op = customData || op = nop || op.isDeclaration

def formatTable : List (InstructionFormat × List Nat) :=
  [ -- arithmetic and logic of two operands: add and div iadd imax imin ishl ishr min max mul or
    -- umax umin ushr xor
    (⟨.vectorAlu, 1, 2⟩, [0, 1, 14, 30, 36, 37, 41, 42, 51, 52, 56, 60, 83, 84, 85, 87]),
    -- of one operand: exp frc ftoi ftou ineg itof log mov not round_ne round_ni round_pi round_z
    -- rsq sqrt utof rcp
    (⟨.vectorAlu, 1, 1⟩, [25, 26, 27, 28, 40, 43, 47, 54, 59, 64, 65, 66, 67, 68, 75, 86, 129]),
    -- of three operands: imad mad umad
    (⟨.vectorAlu, 1, 3⟩, [35, 50, 82]),
    -- with carry or borrow: uaddc usubb
    (⟨.vectorAlu, 2, 2⟩, [132, 133]),
    -- dp2 dp3 dp4
    (⟨.vectorDot, 1, 2⟩, [15, 16, 17]),
    -- comparisons: eq ge ieq ige ilt ine lt ne ult uge
    (⟨.vectorCmp, 1, 2⟩, [24, 29, 32, 33, 34, 39, 49, 57, 79, 80]),
    -- movc swapc
    (⟨.vectorCmov, 1, 3⟩, [55]),
    (⟨.vectorCmov, 2, 3⟩, [142]),
    -- imul umul udiv
    (⟨.vectorImul, 2, 2⟩, [38, 81]),
    (⟨.vectorIdiv, 2, 2⟩, [78]),
    -- sincos
    (⟨.vectorSinCos, 2, 1⟩, [77]),
    -- f32tof16 f16tof32
    (⟨.convertFloat16, 1, 1⟩, [130, 131]),
    -- countbits firstbit_hi firstbit_lo firstbit_shi bfrev
    (⟨.bitScan, 1, 1⟩, [134, 135, 136, 137, 141]),
    -- ubfe ibfe bfi
    (⟨.bitExtract, 1, 3⟩, [138, 139]),
    (⟨.bitInsert, 1, 4⟩, [140]),
    -- derivatives in both directions: plain, coarse and fine
    (⟨.vectorDeriv, 1, 1⟩, [11, 12, 122, 123, 124, 125]),
    -- break continue default else endif endloop endswitch loop ret
    (⟨.controlFlow, 0, 0⟩, [2, 7, 10, 18, 21, 22, 23, 48, 62]),
    -- breakc call case continuec discard if label retc switch
    (⟨.controlFlow, 0, 1⟩, [3, 4, 6, 8, 13, 31, 44, 63, 76]),
    -- callc
    (⟨.controlFlow, 0, 2⟩, [5]),
    -- emit cut emit_then_cut, and the same to a stream
    (⟨.geometryEmit, 0, 0⟩, [19, 9, 20]),
    (⟨.geometryEmit, 0, 1⟩, [117, 118, 119]),
    -- hs_decls hs_control_point_phase hs_fork_phase hs_join_phase
    (⟨.hullShaderPhase, 0, 0⟩, [113, 114, 115, 116]),
    -- ld ld_ms
    (⟨.textureFetch, 1, 2⟩, [45]),
    (⟨.textureFetch, 1, 3⟩, [46]),
    -- resinfo
    (⟨.textureQuery, 1, 2⟩, [61]),
    -- sample, sample_c sample_c_lz sample_l sample_b, sample_d
    (⟨.textureSample, 1, 3⟩, [69]),
    (⟨.textureSample, 1, 4⟩, [70, 71, 72, 74]),
    (⟨.textureSample, 1, 5⟩, [73]),
    -- lod
    (⟨.textureQueryLod, 1, 3⟩, [108]),
    -- gather4, gather4_c gather4_po, gather4_po_c
    (⟨.textureGather, 1, 3⟩, [109]),
    (⟨.textureGather, 1, 4⟩, [126, 127]),
    (⟨.textureGather, 1, 5⟩, [128]),
    -- sampleinfo samplepos bufinfo
    (⟨.textureQueryMs, 1, 1⟩, [111]),
    (⟨.textureQueryMsPos, 1, 2⟩, [110]),
    (⟨.bufferQuery, 1, 1⟩, [121]),
    -- ld_uav_typed store_uav_typed
    (⟨.typedUavLoad, 1, 2⟩, [163]),
    (⟨.typedUavStore, 1, 2⟩, [164]),
    -- ld_raw ld_structured store_raw store_structured
    (⟨.bufferLoad, 1, 2⟩, [165]),
    (⟨.bufferLoad, 1, 3⟩, [167]),
    (⟨.bufferStore, 1, 2⟩, [166]),
    (⟨.bufferStore, 1, 3⟩, [168]),
    -- atomic_and atomic_or atomic_xor atomic_iadd atomic_imax atomic_imin atomic_umax atomic_umin
    (⟨.atomic, 1, 2⟩, [169, 170, 171, 173, 174, 175, 176, 177]),
    -- atomic_cmp_store
    (⟨.atomic, 1, 3⟩, [172]),
    -- imm_atomic_iadd and or xor exch imax imin umax umin
    (⟨.atomic, 2, 2⟩, [180, 181, 182, 183, 184, 186, 187, 188, 189]),
    -- imm_atomic_cmp_exch
    (⟨.atomic, 2, 3⟩, [185]),
    -- imm_atomic_alloc imm_atomic_consume, whose operands are both written
    (⟨.atomicCounter, 2, 0⟩, [178, 179]),
    -- sync nop
    (⟨.barrier, 0, 0⟩, [190]),
    (⟨.noOperation, 0, 0⟩, [58]) ]

def format? (op : Opcode) : Option InstructionFormat :=
  (formatTable.find? (·.2.contains op.code)).map (·.1)

/-- What holds of every row of the table holds of every opcode with a format. -/
theorem format?_of_rows {P : Nat → InstructionFormat → Prop}
    (rows : ∀ row ∈ formatTable, ∀ code ∈ row.2, P code row.1) {op : Opcode}
    {f : InstructionFormat} (h : op.format? = some f) : P op.code f := by
  obtain ⟨row, hrow, rfl⟩ := Option.map_eq_some_iff.1 h
  have hcode : op.code ∈ row.2 := by simpa using List.find?_some hrow
  exact rows row (List.mem_of_find?_eq_some hrow) op.code hcode

/-- An opcode with a format fits the opcode field, and of the skipped ones only `nop` has
a format. -/
theorem format?_lt_or_nop {op : Opcode} {f : InstructionFormat} (h : op.format? = some f) :
    op.code < 2048 ∧ (op.isSkipped → op = nop) := by
  have rows : ∀ row ∈ formatTable, ∀ code ∈ row.2,
      code < 2048 ∧ ((⟨code⟩ : Opcode).isSkipped → (⟨code⟩ : Opcode) = nop) := by
    decide +kernel
  exact format?_of_rows (P := fun code _ =>
    code < 2048 ∧ ((⟨code⟩ : Opcode).isSkipped → (⟨code⟩ : Opcode) = nop)) rows h

def debugText (op : Opcode) : String := s!"DxbcOpcode({op.code})"

end Opcode

end ShaderKit

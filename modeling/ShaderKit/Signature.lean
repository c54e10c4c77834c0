import ShaderKit.Bytes

/-!
# Signatures

A signature describes one side of a shader stage's interface: which register carries which
semantic, which of its four components are used, and which system value it is, if any.
-/

namespace ShaderKit

/-- A set of the components `x`, `y`, `z`, `w`, with `x` the lowest bit. -/
abbrev ComponentMask := BitVec 4

namespace ComponentMask

/-- The set in the four low bits of a byte. -/
def ofByte (b : UInt8) : ComponentMask := BitVec.ofNat 4 b.toNat

def count (m : ComponentMask) : Nat := (List.range 4).countP (m.getLsbD ·)

def meets (m n : ComponentMask) : Bool := m &&& n != 0

theorem count_le (m : ComponentMask) : m.count ≤ 4 := by
  exact Nat.le_trans List.countP_le_length (Nat.le_of_eq List.length_range)

theorem toNat_ofByte (b : UInt8) : (ofByte b).toNat = b.toNat % 16 := by
  simp [ofByte]

end ComponentMask

inductive SystemValue where
  | none
  | position
  | clipDistance
  | cullDistance
  | renderTargetArrayIndex
  | viewportArrayIndex
  | vertexId
  | primitiveId
  | instanceId
  | isFrontFace
  | sampleIndex
  | finalQuadEdgeTessFactor
  | finalQuadInsideTessFactor
  | finalTriEdgeTessFactor
  | finalTriInsideTessFactor
  | finalLineDetailTessFactor
  | finalLineDensityTessFactor
  | target
  | depth
  | coverage
  | depthGreaterEqual
  | depthLessEqual
  | other (code : UInt32)
  deriving DecidableEq, Repr

namespace SystemValue

def codes : List (UInt32 × SystemValue) :=
  [(0, none), (1, position), (2, clipDistance), (3, cullDistance), (4, renderTargetArrayIndex),
    (5, viewportArrayIndex), (6, vertexId), (7, primitiveId), (8, instanceId), (9, isFrontFace),
    (10, sampleIndex), (11, finalQuadEdgeTessFactor), (12, finalQuadInsideTessFactor),
    (13, finalTriEdgeTessFactor), (14, finalTriInsideTessFactor),
    (15, finalLineDetailTessFactor), (16, finalLineDensityTessFactor), (64, target),
    (65, depth), (66, coverage), (67, depthGreaterEqual), (68, depthLessEqual)]

def ofCode (code : UInt32) : SystemValue := (codes.lookup code).getD (other code)

def code : SystemValue → UInt32
  | other code => code
  | v => ((codes.find? (·.2 = v)).map (·.1)).getD 0

theorem code_ofCode (c : UInt32) : (ofCode c).code = c := by
  unfold ofCode
  cases h : codes.lookup c with
  | none => rfl
  | some v =>
    obtain ⟨_, _, h, _⟩ := List.lookup_eq_some_iff.1 h
    have hm : (c, v) ∈ codes := h ▸ by simp
    have table : ∀ p ∈ codes, p.2.code = p.1 := by decide
    exact table _ hm

end SystemValue

structure SignatureElement where
  name : String
  index : UInt32
  systemValue : SystemValue
  componentType : UInt32
  register : UInt32
  mask : ComponentMask
  readWriteMask : ComponentMask
  stream : UInt32
  deriving DecidableEq, Repr

def SignatureElement.occupies (e : SignatureElement) (register : UInt32)
    (mask : ComponentMask) : Bool :=
  e.register = register && e.mask.meets mask

structure Signature where
  elements : List SignatureElement
  deriving DecidableEq, Repr

namespace Signature

def empty : Signature := ⟨[]⟩

/-- The first element bound to the register that uses one of the components. -/
def find? (s : Signature) (register : UInt32) (mask : ComponentMask) :
    Option SignatureElement :=
  s.elements.find? (·.occupies register mask)

def findIndex? (s : Signature) (register : UInt32) (mask : ComponentMask) : Option Nat :=
  s.elements.findIdx? (·.occupies register mask)

/-- The number of used components over all elements of a system value. -/
def componentsOf (s : Signature) (v : SystemValue) : Nat :=
  (s.elements.filter (·.systemValue = v)).foldr (·.mask.count + ·) 0

end Signature

end ShaderKit

import ShaderKit.SpecConstants

/-!
# Specialization constants in a block

Specialization constants are stored as the compiler gets them: in one list the values, and in
another one, in step with it, what stands where among them.
-/

namespace ShaderKit

/-- The map of some constants and the block of their values. -/
structure SpecBlock where
  map : List SpecMapEntry
  data : List UInt32
  deriving DecidableEq, Repr

namespace SpecBlock

def empty : SpecBlock := ⟨[], []⟩

/-- Sets the value of an identifier: in its place in the block, or behind the other values if it has
none. An offset is stored in 32 bits. -/
def set (b : SpecBlock) (id : Nat) (value : UInt32) : SpecBlock :=
  match b.map.findIdx? (·.id == id) with
  | some k => { b with data := b.data.set k value }
  | none => ⟨b.map ++ [⟨id, 4 * b.data.length % UInt32.size, 4⟩], b.data ++ [value]⟩

def setBool (b : SpecBlock) (id : Nat) (value : Bool) : SpecBlock :=
  b.set id (if value then 1 else 0)

def entries (b : SpecBlock) : List (Nat × UInt32) := b.map.zipWith (fun e v => (e.id, v)) b.data

def get? (b : SpecBlock) (id : Nat) : Option UInt32 :=
  b.entries.findSome? fun e => if e.1 = id then some e.2 else none

def size (b : SpecBlock) : Nat := b.map.length

def isEmpty (b : SpecBlock) : Bool := b.map.isEmpty

end SpecBlock

end ShaderKit

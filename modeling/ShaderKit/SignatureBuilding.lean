import ShaderKit.Signature

/-!
# Writing a signature

Elements are written in the short form of 24 bytes, their table right behind the header and
their names behind the table, each ended by a zero byte.
-/

namespace ShaderKit.Signature

/-- What is written for one element. The masks and the stream are whole bytes. -/
structure Description where
  name : String
  index : UInt32
  systemValue : UInt32
  componentType : UInt32
  register : UInt32
  mask : UInt8
  readWriteMask : UInt8
  stream : UInt8
  deriving DecidableEq, Repr

/-- An element of floating-point type with index and stream zero, and one mask for both. -/
def describe (name : String) (systemValue register : UInt32) (mask : UInt8) : Description where
  name := name
  index := 0
  systemValue := systemValue
  componentType := 3
  register := register
  mask := mask
  readWriteMask := mask
  stream := 0

def nameBytes (d : Description) : Bytes := Bytes.ofText d.name ++ [0]

def entryBytes (d : Description) (nameOffset : Nat) : Bytes :=
  Bytes.ofDwords [UInt32.ofNat nameOffset, d.index, d.systemValue, d.componentType, d.register] ++
    [d.mask, d.readWriteMask, d.stream, 0]

@[simp] theorem length_entryBytes (d : Description) (nameOffset : Nat) :
    (entryBytes d nameOffset).length = 24 := by
  simp [entryBytes]

/-- The table entries of elements whose names are stored one after another from a given
offset on. -/
def tableBytes (nameOffset : Nat) : List Description → Bytes
  | [] => []
  | d :: ds => entryBytes d nameOffset ++ tableBytes (nameOffset + (nameBytes d).length) ds

@[simp] theorem length_tableBytes (nameOffset : Nat) (ds : List Description) :
    (tableBytes nameOffset ds).length = 24 * ds.length := by
  induction ds generalizing nameOffset with
  | nil => rfl
  | cons d ds ih =>
    simp only [tableBytes, List.length_append, length_entryBytes, ih, List.length_cons]
    omega

def build (ds : List Description) : Bytes :=
  Bytes.ofDword (UInt32.ofNat ds.length) ++ Bytes.ofDword 8 ++
    tableBytes (8 + 24 * ds.length) ds ++ ds.flatMap nameBytes

end ShaderKit.Signature

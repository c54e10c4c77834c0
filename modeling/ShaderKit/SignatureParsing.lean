import ShaderKit.FormatFault
import ShaderKit.Requirement
import ShaderKit.Signature

/-!
# Reading a signature

The payload starts with the number of elements and the offset of their table. An element has
24 bytes, or 32 in the chunks whose name ends in `1`: the offset of its name, its index,
system value, component type and register as dwords, its two masks as bytes, and its stream,
which is the byte behind the masks or, in the long form, the next dword. Names stand
anywhere behind the payload's header.
-/

namespace ShaderKit.Signature

def headerLength : Nat := 8

def elementLength (name : FourCC) : Nat := if name.hasLongEntries then 32 else 24

/-- A field of an element, its absence being a fault of that element. -/
def readElementField {α : Type} (entry : Nat) (read : Except FieldFault α) :
    Except SignatureFault α :=
  read.mapError (.entryField entry)

def readElement (name : FourCC) (bytes : Bytes) (entry base : Nat) :
    Except SignatureFault SignatureElement := do
  let dword field offset := readElementField entry (bytes.readDword field (base + offset))
  let byte field offset := readElementField entry (bytes.readByte field (base + offset))
  let nameOffset ← dword "semantic_name_offset" 0
  let index ← dword "semantic_index" 4
  let systemValue ← dword "system_value_type" 8
  let componentType ← dword "component_type" 12
  let register ← dword "register" 16
  let mask ← byte "mask" 20
  let readWriteMask ← byte "read_write_mask" 21
  let stream ←
    if name.hasLongEntries then dword "stream" 24
    else (·.toUInt32) <$> byte "stream" 22
  require (headerLength ≤ nameOffset.toNat) (.nameInsideHeader entry nameOffset.toNat)
  let semantic ← readElementField entry (bytes.readText "semantic_name" nameOffset.toNat)
  return {
    name := semantic
    index := index
    systemValue := .ofCode systemValue
    componentType := componentType
    register := register
    mask := .ofByte mask
    readWriteMask := .ofByte readWriteMask
    stream := stream }

def parse (name : FourCC) (bytes : Bytes) : Except SignatureFault Signature := do
  require (headerLength ≤ bytes.length) (.headerTruncated bytes.length)
  let count ← (bytes.readDword "param_count" 0).mapError .header
  let table ← (bytes.readDword "param_offset" 4).mapError .header
  if count = 0 then
    return .empty
  let start := table.toNat
  require (headerLength ≤ start) (.tableInsideHeader start)
  let stop := start + count.toNat * elementLength name
  require (stop < UInt64.size) .tableUnaddressable
  require (stop ≤ bytes.length) (.tableOutside start stop bytes.length)
  let elements ← (List.range count.toNat).mapM fun entry =>
    readElement name bytes entry (start + entry * elementLength name)
  return ⟨elements⟩

end ShaderKit.Signature

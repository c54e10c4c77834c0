import ShaderKit.Bytes
import ShaderKit.FourCC

/-!
# Faults of containers and signatures

Each way in which a container or a signature payload breaks its format has a constructor
that carries the numbers involved. Faults fall into four families, and a message starts with
its family.
-/

namespace ShaderKit

inductive SignatureFault where
  | headerTruncated (length : Nat)
  | header (fault : FieldFault)
  | tableInsideHeader (start : Nat)
  | tableUnaddressable
  | tableOutside (start stop length : Nat)
  | nameInsideHeader (entry offset : Nat)
  | entryField (entry : Nat) (fault : FieldFault)
  deriving DecidableEq, Repr

def SignatureFault.message : SignatureFault → String
  | headerTruncated length =>
    s!"signature chunk is truncated: need 8 bytes for header, got {length}"
  | header fault => fault.message
  | tableInsideHeader start => s!"param_offset {start} points into signature header"
  | tableUnaddressable => "signature table size overflows"
  | tableOutside start stop length =>
    s!"signature table at {start}..{stop} is outside chunk length {length}"
  | nameInsideHeader entry offset =>
    s!"entry {entry}: semantic_name_offset {offset} points into signature header"
  | entryField entry fault => s!"entry {entry}: {fault.message}"

/-- How a container, or a signature in it, breaks its format. -/
inductive FormatFault where
  | headerTruncated (length : Nat)
  | magicMismatch (found : FourCC)
  | field (fault : FieldFault)
  | chunkCountExcessive (count : Nat)
  | totalBelowHeader (total : Nat)
  | totalBeyondInput (total length : Nat)
  | tableBeyondTotal (tableEnd total : Nat)
  | chunkInsideTable (index start tableEnd : Nat)
  | chunkHeaderOutside (index start total : Nat)
  | payloadOutside (index : Nat) (name : FourCC) (size start total : Nat)
  | signature (fault : SignatureFault)
  | signatureChunk (name : FourCC) (fault : SignatureFault)
  deriving DecidableEq, Repr

namespace FormatFault

inductive Family where
  | malformedHeader
  | malformedOffsets
  | outOfBounds
  | invalidChunk
  deriving DecidableEq, Repr

def Family.heading : Family → String
  | malformedHeader => "malformed DXBC header: "
  | malformedOffsets => "malformed DXBC chunk offsets: "
  | outOfBounds => "DXBC data out of bounds: "
  | invalidChunk => "invalid DXBC chunk: "

def familyOfField : FieldFault → Family
  | .dwordOutside .. | .byteOutside .. | .textOutside .. => .outOfBounds
  | .textUnterminated .. | .textNotUtf8 .. => .invalidChunk

def family : FormatFault → Family
  | headerTruncated _ | magicMismatch _ | totalBelowHeader _ => .malformedHeader
  | chunkCountExcessive _ | tableBeyondTotal .. | chunkInsideTable .. => .malformedOffsets
  | totalBeyondInput .. | chunkHeaderOutside .. | payloadOutside .. => .outOfBounds
  | field fault => familyOfField fault
  | signature _ | signatureChunk .. => .invalidChunk

/-- The fault in words, without its family. -/
def detail : FormatFault → String
  | headerTruncated length => s!"need at least 32 bytes, got {length}"
  | magicMismatch found => s!"bad magic {found.debugText}, expected {FourCC.dxbc.debugText}"
  | field fault => fault.message
  | chunkCountExcessive count => s!"chunk_count {count} exceeds maximum 4096"
  | totalBelowHeader total => s!"total_size {total} is smaller than header size 32"
  | totalBeyondInput total length => s!"total_size {total} exceeds buffer length {length}"
  | tableBeyondTotal tableEnd total =>
    s!"chunk offset table ends at {tableEnd}, but total_size is {total}"
  | chunkInsideTable index start tableEnd =>
    s!"chunk #{index} starts at {start}, inside the offset table ending at {tableEnd}"
  | chunkHeaderOutside index start total =>
    s!"chunk #{index} header {start}..{start + 8} exceeds container size {total}"
  | payloadOutside index name size start total =>
    s!"chunk #{index} ({name.text}) declares {size} bytes at {start}, past container size {total}"
  | signature fault => fault.message
  | signatureChunk name fault => s!"{name.text} signature chunk: {fault.message}"

def message (fault : FormatFault) : String := fault.family.heading ++ fault.detail

end FormatFault

end ShaderKit

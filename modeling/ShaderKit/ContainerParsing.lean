import ShaderKit.Container
import ShaderKit.Requirement

/-!
# Reading a container

The header of 32 bytes holds the magic code, a checksum of 16 bytes, a version, the total
size and the chunk count. A table of chunk offsets follows it. A chunk is its name, the
length of its payload and the payload. The first check that fails decides the fault: those of
the header come first, then each chunk in the order of the table. Bytes past the total size
are ignored.
-/

namespace ShaderKit.Container

def readField (bytes : Bytes) (field : String) (offset : Nat) : Except FormatFault Nat :=
  match bytes.readDword field offset with
  | .ok w => .ok w.toNat
  | .error fault => .error (.field fault)

/-- The code at an offset, with zeros for bytes that are missing. -/
def codeAt (bytes : Bytes) (offset : Nat) : FourCC :=
  ⟨bytes.getD offset 0, bytes.getD (offset + 1) 0, bytes.getD (offset + 2) 0,
    bytes.getD (offset + 3) 0⟩

/-- Reads one chunk through its entry of the offset table. The chunk must start behind the
table, and its header and payload must lie inside the container. -/
def readChunk (bytes : Bytes) (tableEnd index : Nat) : Except FormatFault Chunk := do
  let total := bytes.length
  let start ← readField bytes "chunk offset" (headerLength + 4 * index)
  require (tableEnd ≤ start) (.chunkInsideTable index start tableEnd)
  require (start + 8 ≤ total) (.chunkHeaderOutside index start total)
  let name := codeAt bytes start
  let size ← readField bytes "chunk size" (start + 4)
  require (start + 8 + size ≤ total) (.payloadOutside index name size (start + 8) total)
  return ⟨name, (bytes.drop (start + 8)).take size⟩

def parse (input : Bytes) : Except FormatFault Container := do
  require (headerLength ≤ input.length) (.headerTruncated input.length)
  let magic := codeAt input 0
  require (magic = .dxbc) (.magicMismatch magic)
  let total ← readField input "total_size" 24
  let count ← readField input "chunk_count" 28
  require (count ≤ maxChunkCount) (.chunkCountExcessive count)
  require (headerLength ≤ total) (.totalBelowHeader total)
  require (total ≤ input.length) (.totalBeyondInput total input.length)
  let bytes := input.take total
  let tableEnd := headerLength + 4 * count
  require (tableEnd ≤ total) (.tableBeyondTotal tableEnd total)
  let chunks ← (List.range count).mapM (readChunk bytes tableEnd)
  return ⟨(input.drop 4).take 16, total, count, chunks⟩

end ShaderKit.Container

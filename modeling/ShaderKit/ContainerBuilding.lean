import ShaderKit.Container

/-!
# Writing a container

The counterpart of reading: chunks are laid out one after another behind the offset table,
with a zero checksum.
-/

namespace ShaderKit.Container

/-- A chunk in its written form: name, payload length, payload. -/
def chunkBytes (c : Chunk) : Bytes :=
  c.name.bytes ++ Bytes.ofDword (UInt32.ofNat c.payload.length) ++ c.payload

@[simp] theorem length_chunkBytes (c : Chunk) :
    (chunkBytes c).length = c.payload.length + 8 := by
  simp only [chunkBytes, List.length_append, FourCC.length_bytes, Bytes.length_ofDword]
  omega

def chunkOffsets (start : Nat) : List Chunk → List Nat
  | [] => []
  | c :: cs => start :: chunkOffsets (start + (chunkBytes c).length) cs

@[simp] theorem length_chunkOffsets (start : Nat) (cs : List Chunk) :
    (chunkOffsets start cs).length = cs.length := by
  induction cs generalizing start with
  | nil => rfl
  | cons c cs ih => simp [chunkOffsets, ih]

def build (chunks : List Chunk) : Bytes :=
  let tableEnd := headerLength + 4 * chunks.length
  let body := chunks.flatMap chunkBytes
  FourCC.dxbc.bytes ++ List.replicate 16 0 ++ Bytes.ofDword 1 ++
    Bytes.ofDword (UInt32.ofNat (tableEnd + body.length)) ++
    Bytes.ofDword (UInt32.ofNat chunks.length) ++
    Bytes.ofDwords ((chunkOffsets tableEnd chunks).map UInt32.ofNat) ++ body

/-- The length of a written container. -/
theorem length_build (chunks : List Chunk) :
    (build chunks).length =
      headerLength + 4 * chunks.length + (chunks.flatMap chunkBytes).length := by
  simp only [build, headerLength, List.length_append, FourCC.length_bytes,
    List.length_replicate, Bytes.length_ofDword, Bytes.length_ofDwords, List.length_map,
    length_chunkOffsets]

end ShaderKit.Container

import ShaderKit.FormatFault

/-!
# Containers

A container is a header and a list of chunks, each a name and a payload. Chunks are looked
up by name, and of several with one name the first in file order counts.
-/

namespace ShaderKit

structure Chunk where
  name : FourCC
  payload : Bytes
  deriving DecidableEq, Repr

/-- The chunk as it appears in diagnostic output, with its length in place of its bytes. -/
def Chunk.debugText (c : Chunk) : String :=
  "DxbcChunk \x7b fourcc: " ++ c.name.debugText ++ ", data_len: " ++
    toString c.payload.length ++ " \x7d"

/-- A container: the header's checksum, size and count, and the chunks in file order. -/
structure Container where
  checksum : Bytes
  totalSize : Nat
  chunkCount : Nat
  chunks : List Chunk
  deriving DecidableEq, Repr

namespace Container

def headerLength : Nat := 32

def maxChunkCount : Nat := 4096

/-- The first chunk of a name. -/
def chunk? (c : Container) (name : FourCC) : Option Chunk :=
  c.chunks.find? (·.name = name)

/-- The chunk that holds the program: that of shader model 5 if there is one, or else that of
shader model 4. -/
def programChunk? (c : Container) : Option Chunk :=
  (c.chunk? .shex).or (c.chunk? .shdr)

end Container

end ShaderKit

import ShaderKit.ContainerBuilding
import ShaderKit.Proofs.ContainerAcceptance

/-!
# Reading back a written container

The writer lays out header, table and chunks one behind the other, and the entry of a chunk in
the table is the length of all that is written before it. Read back, with whatever bytes behind
it, a written container is well formed and has the chunks from which it was written, in their
order; chunks of one name and empty payloads stay what they are.
-/

namespace ShaderKit

open Bytes

namespace Container

variable {chunks : List Chunk} {tail : Bytes} {i : Nat}

def headBytes (chunks : List Chunk) : Bytes :=
  FourCC.dxbc.bytes ++ (List.replicate 16 0 ++ (ofDword 1 ++
    (ofDword (UInt32.ofNat (build chunks).length) ++ ofDword (UInt32.ofNat chunks.length))))

/-- Where a chunk is laid out: behind the header, the table and the chunks before it. -/
def writtenOffset (chunks : List Chunk) (i : Nat) : Nat :=
  headerLength + 4 * chunks.length + ((chunks.take i).flatMap chunkBytes).length

theorem getElem_chunkOffsets (start : Nat) (chunks : List Chunk)
    (h : i < (chunkOffsets start chunks).length) :
    (chunkOffsets start chunks)[i] = start + ((chunks.take i).flatMap chunkBytes).length := by
  induction chunks generalizing start i with
  | nil => cases h
  | cons c chunks ih =>
    cases i with
    | zero => rfl
    | succ i =>
      have hrest := ih (start + (chunkBytes c).length) (Nat.lt_of_succ_lt_succ h)
      simp only [chunkOffsets, List.getElem_cons_succ, List.take_succ_cons, List.flatMap_cons,
        List.length_append]
      omega

section Written

variable (h : i < chunks.length)

theorem length_headBytes (chunks : List Chunk) : (headBytes chunks).length = headerLength := rfl

theorem build_append (chunks : List Chunk) (tail : Bytes) :
    build chunks ++ tail = headBytes chunks ++
      (ofDwords ((chunkOffsets (headerLength + 4 * chunks.length) chunks).map UInt32.ofNat) ++
        (chunks.flatMap chunkBytes ++ tail)) := by
  rw [headBytes, length_build]
  simp only [build, List.append_assoc]

include h

theorem slice_entry : (build chunks ++ tail).slice (headerLength + 4 * i) 4 =
    ofDword (UInt32.ofNat (writtenOffset chunks i)) := by
  rw [build_append, ← length_headBytes chunks, slice_append_right,
    slice_ofDwords (by simpa using h), List.getElem_map, getElem_chunkOffsets]
  rfl

theorem slice_chunk : (build chunks ++ tail).slice (writtenOffset chunks i)
    (chunkBytes chunks[i]).length = chunkBytes chunks[i] := by
  have hoffset : writtenOffset chunks i = (headBytes chunks).length +
      ((ofDwords ((chunkOffsets (headerLength + 4 * chunks.length) chunks).map
        UInt32.ofNat)).length + ((chunks.take i).flatMap chunkBytes).length) := by
    rw [writtenOffset, length_headBytes, length_ofDwords, List.length_map, length_chunkOffsets,
      Nat.add_assoc]
  rw [build_append, hoffset, slice_append_right, slice_append_right, slice_flatMap chunkBytes h]

/-- The stretches of a written chunk: its name, the length of its payload, and its payload. -/
theorem slice_chunk_parts :
    (build chunks ++ tail).slice (writtenOffset chunks i) 4 = chunks[i].name.bytes ∧
    (build chunks ++ tail).slice (writtenOffset chunks i + 4) 4 =
      ofDword (UInt32.ofNat chunks[i].payload.length) ∧
    (build chunks ++ tail).slice (writtenOffset chunks i + 8) chunks[i].payload.length =
      chunks[i].payload := by
  have hpart : ∀ offset length, offset + length ≤ (chunkBytes chunks[i]).length →
      (build chunks ++ tail).slice (writtenOffset chunks i + offset) length =
        (chunkBytes chunks[i]).slice offset length :=
    fun _ _ hle => slice_of_slice_eq (slice_chunk h) hle
  rw [length_chunkBytes] at hpart
  refine ⟨?_, ?_, ?_⟩
  · exact (hpart 0 4 (by omega)).trans rfl
  · exact (hpart 4 4 (by omega)).trans rfl
  · rw [hpart 8 _ (by omega)]
    exact List.take_length

theorem writtenOffset_add_le :
    writtenOffset chunks i + 8 + chunks[i].payload.length ≤ (build chunks).length := by
  have hchunk := length_chunkBytes chunks[i]
  have hslice : (build chunks ++ []).slice (writtenOffset chunks i)
      (chunkBytes chunks[i]).length = chunkBytes chunks[i] := slice_chunk h
  have hle := le_of_slice_eq hslice (by omega)
  rw [List.append_nil] at hle
  omega

end Written

section Fields

variable (hlength : (build chunks).length < 2 ^ 32) (tail : Bytes)

include hlength

theorem statedTotal_build : statedTotal (build chunks ++ tail) = (build chunks).length := by
  refine dword_of_slice_eq ?_ hlength
  rw [build_append]
  rfl

theorem statedCount_build : statedCount (build chunks ++ tail) = chunks.length := by
  have hle : chunks.length ≤ (build chunks).length := by
    rw [length_build]
    omega
  refine dword_of_slice_eq ?_ (Nat.lt_of_le_of_lt hle hlength)
  rw [build_append]
  rfl

theorem chunkStart_build (h : i < chunks.length) :
    chunkStart (build chunks ++ tail) i = writtenOffset chunks i := by
  have hle := writtenOffset_add_le h
  exact dword_of_slice_eq (slice_entry h) (by omega)

theorem chunkLength_build (h : i < chunks.length) :
    chunkLength (build chunks ++ tail) i = chunks[i].payload.length := by
  have hle := writtenOffset_add_le h
  rw [chunkLength, chunkStart_build hlength tail h]
  exact dword_of_slice_eq (slice_chunk_parts h).2.1 (by omega)

theorem wellFormed_build (hcount : chunks.length ≤ maxChunkCount) :
    WellFormed (build chunks ++ tail) := by
  have hheader : headerLength + 4 * chunks.length ≤ (build chunks).length := by
    rw [length_build]
    omega
  have htotal := statedTotal_build hlength tail
  have hchunks := statedCount_build hlength tail
  have htable : tableEnd (build chunks ++ tail) = headerLength + 4 * chunks.length := by
    rw [tableEnd, hchunks]
  constructor
  · rw [List.length_append]
    omega
  · rw [build_append, headBytes, List.append_assoc]
    exact List.prefix_append _ _
  · rw [hchunks]
    exact hcount
  · omega
  · rw [htotal, List.length_append]
    omega
  · omega
  · intro i hi
    rw [hchunks] at hi
    rw [htable, chunkStart_build hlength tail hi, writtenOffset]
    omega
  · intro i hi
    rw [hchunks] at hi
    have hle := writtenOffset_add_le hi
    rw [chunkStart_build hlength tail hi]
    omega
  · intro i hi
    rw [hchunks] at hi
    have hle := writtenOffset_add_le hi
    rw [chunkStart_build hlength tail hi, chunkLength_build hlength tail hi, htotal]
    exact hle

theorem isContents_build :
    IsContents ⟨List.replicate 16 0, (build chunks).length, chunks.length, chunks⟩
      (build chunks ++ tail) where
  checksum_eq := by
    rw [build_append]
    rfl
  totalSize_eq := (statedTotal_build hlength tail).symm
  chunkCount_eq := (statedCount_build hlength tail).symm
  length_chunks := (statedCount_build hlength tail).symm
  name_eq i hi := by
    rw [chunkStart_build hlength tail hi]
    exact (slice_chunk_parts hi).1.symm
  payload_eq i hi := by
    rw [chunkStart_build hlength tail hi, chunkLength_build hlength tail hi]
    exact (slice_chunk_parts hi).2.2.symm
  length_payload i hi := (chunkLength_build hlength tail hi).symm

end Fields

/-- A written container that fits into 32 bits, with any bytes behind it, is read as the chunks
from which it was written. -/
theorem parse_build_append (chunks : List Chunk) (tail : Bytes) (hcount : chunks.length ≤ 4096)
    (hlength : (build chunks).length < 2 ^ 32) :
    parse (build chunks ++ tail) =
      .ok ⟨List.replicate 16 0, (build chunks).length, chunks.length, chunks⟩ :=
  parse_eq_ok_iff.2 ⟨wellFormed_build hlength tail hcount, isContents_build hlength tail⟩

/-- Two chunks of one name, the second without a payload, at the end of the container. -/
theorem parse_build_repeated :
    [(⟨.shex, [7]⟩ : Chunk), ⟨.shex, []⟩].length ≤ 4096 ∧
    (build [⟨.shex, [7]⟩, ⟨.shex, []⟩]).length < 2 ^ 32 ∧
    parse (build [⟨.shex, [7]⟩, ⟨.shex, []⟩] ++ [1, 2]) =
      .ok ⟨List.replicate 16 0, 57, 2, [⟨.shex, [7]⟩, ⟨.shex, []⟩]⟩ :=
  ⟨by decide, by decide, parse_build_append [⟨.shex, [7]⟩, ⟨.shex, []⟩] [1, 2] (by decide)
    (by decide)⟩

end Container

end ShaderKit

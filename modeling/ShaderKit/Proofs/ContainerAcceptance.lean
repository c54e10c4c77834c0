import ShaderKit.ContainerParsing
import ShaderKit.Proofs.ByteSlices
import ShaderKit.Proofs.OrderedChecks

/-!
# Which byte strings are containers

The fields of a container are numbers that the input may choose at will. Reading makes six checks
of the header and three of each chunk, and accepts the well-formed inputs, in which all of these
numbers stay inside the total size. No field is ever missing when it is read: the checks that were
made before see to that.
-/

namespace ShaderKit.Container

open Check

variable {input other : Bytes} {index : Nat}

def statedTotal (input : Bytes) : Nat := input.dword 24

def statedCount (input : Bytes) : Nat := input.dword 28

def tableEnd (input : Bytes) : Nat := headerLength + 4 * statedCount input

/-- The offset of a chunk, which its entry of the table states. -/
def chunkStart (input : Bytes) (index : Nat) : Nat := input.dword (headerLength + 4 * index)

/-- The length of a chunk's payload, which the chunk states behind its name. -/
def chunkLength (input : Bytes) (index : Nat) : Nat := input.dword (chunkStart input index + 4)

/-- The header is whole, and the table and the chunks lie inside the total size. Chunks may lie in
any order, leave gaps and overlap. -/
structure WellFormed (input : Bytes) : Prop where
  header_le_length : headerLength ≤ input.length
  magic : FourCC.dxbc.bytes <+: input
  count_le : statedCount input ≤ maxChunkCount
  header_le_total : headerLength ≤ statedTotal input
  total_le_length : statedTotal input ≤ input.length
  table_le_total : tableEnd input ≤ statedTotal input
  table_le_start : ∀ i < statedCount input, tableEnd input ≤ chunkStart input i
  chunk_le_total : ∀ i < statedCount input, chunkStart input i + 8 ≤ statedTotal input
  payload_le_total : ∀ i < statedCount input,
    chunkStart input i + 8 + chunkLength input i ≤ statedTotal input

/-- What a container says, byte for byte. -/
structure IsContents (c : Container) (input : Bytes) : Prop where
  checksum_eq : c.checksum = input.slice 4 16
  totalSize_eq : c.totalSize = statedTotal input
  chunkCount_eq : c.chunkCount = statedCount input
  length_chunks : c.chunks.length = statedCount input
  name_eq : ∀ i, (h : i < c.chunks.length) →
    c.chunks[i].name.bytes = input.slice (chunkStart input i) 4
  payload_eq : ∀ i, (h : i < c.chunks.length) →
    c.chunks[i].payload = input.slice (chunkStart input i + 8) (chunkLength input i)
  length_payload : ∀ i, (h : i < c.chunks.length) →
    c.chunks[i].payload.length = chunkLength input i

def headerChecks (input : Bytes) : List (Check FormatFault) :=
  [⟨decide (headerLength ≤ input.length), .headerTruncated input.length⟩,
    ⟨decide (FourCC.dxbc.bytes <+: input), .magicMismatch (codeAt input 0)⟩,
    ⟨decide (statedCount input ≤ maxChunkCount), .chunkCountExcessive (statedCount input)⟩,
    ⟨decide (headerLength ≤ statedTotal input), .totalBelowHeader (statedTotal input)⟩,
    ⟨decide (statedTotal input ≤ input.length),
      .totalBeyondInput (statedTotal input) input.length⟩,
    ⟨decide (tableEnd input ≤ statedTotal input),
      .tableBeyondTotal (tableEnd input) (statedTotal input)⟩]

def chunkChecks (input : Bytes) (index : Nat) : List (Check FormatFault) :=
  let start := chunkStart input index
  let length := chunkLength input index
  let total := statedTotal input
  [⟨decide (tableEnd input ≤ start), .chunkInsideTable index start (tableEnd input)⟩,
    ⟨decide (start + 8 ≤ total), .chunkHeaderOutside index start total⟩,
    ⟨decide (start + 8 + length ≤ total),
      .payloadOutside index (codeAt input start) length (start + 8) total⟩]

/-- All checks in order: those of the header, and then those of one chunk after the other. -/
def checks (input : Bytes) : List (Check FormatFault) :=
  headerChecks input ++ (List.range (statedCount input)).flatMap (chunkChecks input)

/-- The families of the faults of the checks in order. -/
def faultFamilies (chunkCount : Nat) : List FormatFault.Family :=
  [.malformedHeader, .malformedHeader, .malformedOffsets, .malformedHeader, .outOfBounds,
      .malformedOffsets] ++
    (List.range chunkCount).flatMap fun _ => [.malformedOffsets, .outOfBounds, .outOfBounds]

/-- The chunk that an entry of the table points to. -/
def chunkIn (input : Bytes) (index : Nat) : Chunk :=
  ⟨codeAt input (chunkStart input index),
    input.slice (chunkStart input index + 8) (chunkLength input index)⟩

def contents (input : Bytes) : Container :=
  ⟨input.slice 4 16, statedTotal input, statedCount input,
    (List.range (statedCount input)).map (chunkIn input)⟩

section Reading

variable {bytes : Bytes} {offset total : Nat}

theorem readField_of_le (field : String) (h : offset + 4 ≤ bytes.length) :
    readField bytes field offset = .ok (bytes.dword offset) := by
  rw [readField, Bytes.readDword_of_le field h]
  rfl

theorem bytes_codeAt (h : offset + 4 ≤ bytes.length) :
    (codeAt bytes offset).bytes = bytes.slice offset 4 := by
  have hget : ∀ k, bytes.getD (offset + k) 0 = (bytes.drop offset).getD k 0 := by
    intro k
    rw [List.getD_eq_getElem?_getD, List.getD_eq_getElem?_getD, List.getElem?_drop]
  have hfirst : bytes.getD offset 0 = (bytes.drop offset).getD 0 0 := hget 0
  have hlength : 4 ≤ (bytes.drop offset).length := by
    rw [List.length_drop]
    omega
  simp only [codeAt, FourCC.bytes, Bytes.slice, hfirst, hget]
  generalize bytes.drop offset = rest at hlength ⊢
  obtain ⟨a, b, c, d, behind, rfl⟩ : ∃ a b c d behind, rest = a :: b :: c :: d :: behind := by
    rcases rest with _ | ⟨a, _ | ⟨b, _ | ⟨c, _ | ⟨d, behind⟩⟩⟩⟩
    all_goals first
      | exact ⟨a, b, c, d, behind, rfl⟩
      | simp at hlength
  rfl

theorem codeAt_take (h : offset + 4 ≤ total) (htotal : total ≤ bytes.length) :
    codeAt (bytes.take total) offset = codeAt bytes offset := by
  apply FourCC.bytes_injective
  rw [bytes_codeAt (by rw [List.length_take]; omega), bytes_codeAt (by omega),
    Bytes.slice_take h]

theorem codeAt_zero_eq_iff (h : 4 ≤ input.length) :
    codeAt input 0 = .dxbc ↔ FourCC.dxbc.bytes <+: input := by
  have hslice : (codeAt input 0).bytes = input.take 4 := bytes_codeAt (by omega)
  rw [List.prefix_iff_eq_take, FourCC.length_bytes, ← hslice]
  exact ⟨fun heq => by rw [heq], fun heq => FourCC.bytes_injective heq.symm⟩

/-- Inside a total size that the table does not leave, a chunk is read as its three checks. -/
theorem readChunk_eq_judge (htotal : statedTotal input ≤ input.length)
    (htable : tableEnd input ≤ statedTotal input) (hindex : index < statedCount input) :
    readChunk (input.take (statedTotal input)) (tableEnd input) index =
      judge (chunkChecks input index) (chunkIn input index) := by
  have hlength : (input.take (statedTotal input)).length = statedTotal input := by
    rw [List.length_take, Nat.min_eq_left htotal]
  have hfield : ∀ field offset, offset + 4 ≤ statedTotal input →
      readField (input.take (statedTotal input)) field offset = .ok (input.dword offset) := by
    intro field offset hoffset
    rw [readField_of_le field (by rw [hlength]; exact hoffset), Bytes.dword_take hoffset]
  have hstart : readField (input.take (statedTotal input)) "chunk offset"
      (headerLength + 4 * index) = .ok (chunkStart input index) := by
    refine hfield _ _ ?_
    rw [tableEnd] at htable
    omega
  simp only [readChunk, chunkChecks, hlength, hstart]
  rw [judge_cons_eq_require decide_eq_true_iff]
  refine require_bind_congr fun _ => ?_
  rw [judge_cons_eq_require decide_eq_true_iff]
  refine require_bind_congr fun hhead => ?_
  have hlen : readField (input.take (statedTotal input)) "chunk size"
      (chunkStart input index + 4) = .ok (chunkLength input index) := hfield _ _ (by omega)
  rw [hlen, codeAt_take (by omega) htotal, judge_cons_eq_require decide_eq_true_iff]
  refine require_bind_congr fun hpayload => ?_
  exact congrArg (fun payload => Except.ok (Chunk.mk _ payload)) (Bytes.slice_take hpayload)

/-- Reading is making the checks in order and, if all pass, taking the contents. -/
theorem parse_eq_judge (input : Bytes) : parse input = judge (checks input) (contents input) := by
  rw [parse, checks, headerChecks, List.cons_append, judge_cons_eq_require decide_eq_true_iff]
  refine require_bind_congr fun hlength => ?_
  rw [headerLength] at hlength
  rw [List.cons_append, judge_cons_eq_require
    (decide_eq_true_iff.trans (codeAt_zero_eq_iff (by omega)).symm)]
  refine require_bind_congr fun _ => ?_
  have htotal : readField input "total_size" 24 = .ok (statedTotal input) :=
    readField_of_le _ (by omega)
  have hcount : readField input "chunk_count" 28 = .ok (statedCount input) :=
    readField_of_le _ (by omega)
  simp only [htotal, hcount]
  rw [List.cons_append, judge_cons_eq_require decide_eq_true_iff]
  refine require_bind_congr fun _ => ?_
  rw [List.cons_append, judge_cons_eq_require decide_eq_true_iff]
  refine require_bind_congr fun _ => ?_
  rw [List.cons_append, judge_cons_eq_require decide_eq_true_iff]
  refine require_bind_congr fun hinput => ?_
  rw [List.cons_append, judge_cons_eq_require decide_eq_true_iff]
  refine require_bind_congr fun htable => ?_
  have hchunks : (List.range (statedCount input)).mapM
      (readChunk (input.take (statedTotal input)) (tableEnd input)) =
        judge ((List.range (statedCount input)).flatMap (chunkChecks input))
          ((List.range (statedCount input)).map (chunkIn input)) :=
    mapM_eq_judge fun _ hindex => readChunk_eq_judge hinput htable (List.mem_range.1 hindex)
  change (_ >>= fun chunks => pure (Container.mk _ _ _ chunks)) = _
  rw [← tableEnd, hchunks, judge_bind_pure]
  rfl

end Reading

theorem wellFormed_iff : WellFormed input ↔ ∀ check ∈ checks input, check.passes := by
  have hchecks : (∀ check ∈ checks input, check.passes) ↔
      (∀ check ∈ headerChecks input, check.passes) ∧
        ∀ i < statedCount input, ∀ check ∈ chunkChecks input i, check.passes := by
    simp only [checks, List.forall_mem_append, List.forall_mem_flatMap, List.mem_range]
  rw [hchecks]
  simp only [headerChecks, chunkChecks, List.forall_mem_cons, decide_eq_true_iff,
    List.not_mem_nil, false_imp_iff, implies_true, and_true]
  constructor
  · intro h
    exact ⟨⟨h.header_le_length, h.magic, h.count_le, h.header_le_total, h.total_le_length,
      h.table_le_total⟩, fun i hi => ⟨h.table_le_start i hi, h.chunk_le_total i hi,
        h.payload_le_total i hi⟩⟩
  · rintro ⟨⟨hlength, hmagic, hcount, htotal, hinput, htable⟩, hchunks⟩
    exact ⟨hlength, hmagic, hcount, htotal, hinput, htable, fun i hi => (hchunks i hi).1,
      fun i hi => (hchunks i hi).2.1, fun i hi => (hchunks i hi).2.2⟩

theorem WellFormed.isContents (h : WellFormed input) : (contents input).IsContents input where
  checksum_eq := rfl
  totalSize_eq := rfl
  chunkCount_eq := rfl
  length_chunks := by rw [contents, List.length_map, List.length_range]
  name_eq i hi := by
    have hindex : i < statedCount input := by simpa [contents] using hi
    have hinside := h.chunk_le_total i hindex
    have htotal := h.total_le_length
    simp only [contents, chunkIn, List.getElem_map, List.getElem_range]
    exact bytes_codeAt (by omega)
  payload_eq i hi := by
    simp only [contents, chunkIn, List.getElem_map, List.getElem_range]
  length_payload i hi := by
    have hindex : i < statedCount input := by simpa [contents] using hi
    have hinside := h.payload_le_total i hindex
    have htotal := h.total_le_length
    simp only [contents, chunkIn, List.getElem_map, List.getElem_range]
    exact Bytes.length_slice (by omega)

theorem IsContents.unique {c d : Container} (hc : c.IsContents input) (hd : d.IsContents input) :
    c = d := by
  have hchunks : c.chunks = d.chunks := by
    refine List.ext_getElem (hc.length_chunks.trans hd.length_chunks.symm) fun i hi hi' => ?_
    have hname := FourCC.bytes_injective ((hc.name_eq i hi).trans (hd.name_eq i hi').symm)
    have hpayload := (hc.payload_eq i hi).trans (hd.payload_eq i hi').symm
    exact congr (congrArg Chunk.mk hname) hpayload
  calc c = ⟨c.checksum, c.totalSize, c.chunkCount, c.chunks⟩ := rfl
    _ = ⟨d.checksum, d.totalSize, d.chunkCount, d.chunks⟩ := by
      rw [hc.checksum_eq, hc.totalSize_eq, hc.chunkCount_eq, hchunks, hd.checksum_eq,
        hd.totalSize_eq, hd.chunkCount_eq]

theorem parse_eq_ok_iff {c : Container} :
    parse input = .ok c ↔ WellFormed input ∧ c.IsContents input := by
  rw [parse_eq_judge, judge_eq_ok_iff, ← wellFormed_iff]
  constructor
  · rintro ⟨h, rfl⟩
    exact ⟨h, h.isContents⟩
  · rintro ⟨h, hc⟩
    exact ⟨h, hc.unique h.isContents⟩

section Behind

structure SameFields (input other : Bytes) : Prop where
  total_eq : statedTotal other = statedTotal input
  count_eq : statedCount other = statedCount input
  start_eq : ∀ i < statedCount input, chunkStart other i = chunkStart input i
  length_eq : ∀ i < statedCount input, chunkLength other i = chunkLength input i

theorem SameFields.tableEnd_eq (h : SameFields input other) : tableEnd other = tableEnd input := by
  rw [tableEnd, tableEnd, h.count_eq]

variable (h : WellFormed input)
  (hsame : other.take (statedTotal input) = input.take (statedTotal input))

include h hsame

theorem WellFormed.sameFields : SameFields input other := by
  have hheader : 32 ≤ statedTotal input := h.header_le_total
  have hdword : ∀ {offset}, offset + 4 ≤ statedTotal input →
      other.dword offset = input.dword offset := Bytes.dword_eq_of_take_eq hsame
  have hstart : ∀ i < statedCount input, chunkStart other i = chunkStart input i := by
    intro i hi
    have hle := h.table_le_total
    rw [tableEnd] at hle
    exact hdword (by omega)
  refine ⟨hdword (by omega), hdword (by omega), hstart, fun i hi => ?_⟩
  have hle := h.chunk_le_total i hi
  rw [chunkLength, chunkLength, hstart i hi]
  exact hdword (by omega)

/-- An input that begins like a container, as far as its total size goes, is a container. -/
theorem WellFormed.of_take_eq : WellFormed other := by
  have hfields := h.sameFields hsame
  have hheader : 32 ≤ statedTotal input := h.header_le_total
  have hlength : statedTotal input ≤ other.length := by
    have hlengths := congrArg List.length hsame
    rw [List.length_take, List.length_take, Nat.min_eq_left h.total_le_length] at hlengths
    omega
  constructor
  · exact Nat.le_trans hheader hlength
  · have hinside : 0 + 4 ≤ statedTotal input := by omega
    have hmagic : other.take 4 = input.take 4 := Bytes.slice_eq_of_take_eq hsame hinside
    rw [List.prefix_iff_eq_take, FourCC.length_bytes, hmagic]
    exact List.prefix_iff_eq_take.1 h.magic
  · rw [hfields.count_eq]
    exact h.count_le
  · rw [hfields.total_eq]
    exact h.header_le_total
  · rw [hfields.total_eq]
    exact hlength
  · rw [hfields.tableEnd_eq, hfields.total_eq]
    exact h.table_le_total
  · intro i hi
    rw [hfields.count_eq] at hi
    rw [hfields.tableEnd_eq, hfields.start_eq i hi]
    exact h.table_le_start i hi
  · intro i hi
    rw [hfields.count_eq] at hi
    rw [hfields.start_eq i hi, hfields.total_eq]
    exact h.chunk_le_total i hi
  · intro i hi
    rw [hfields.count_eq] at hi
    rw [hfields.start_eq i hi, hfields.length_eq i hi, hfields.total_eq]
    exact h.payload_le_total i hi

theorem IsContents.of_take_eq {c : Container} (hc : c.IsContents input) : c.IsContents other := by
  have hfields := h.sameFields hsame
  have hheader : 32 ≤ statedTotal input := h.header_le_total
  have hslice : ∀ {offset length}, offset + length ≤ statedTotal input →
      other.slice offset length = input.slice offset length := Bytes.slice_eq_of_take_eq hsame
  constructor
  · rw [hslice (by omega)]
    exact hc.checksum_eq
  · rw [hfields.total_eq]
    exact hc.totalSize_eq
  · rw [hfields.count_eq]
    exact hc.chunkCount_eq
  · rw [hfields.count_eq]
    exact hc.length_chunks
  · intro i hi
    have hindex : i < statedCount input := hc.length_chunks ▸ hi
    have hle := h.chunk_le_total i hindex
    rw [hfields.start_eq i hindex, hslice (by omega)]
    exact hc.name_eq i hi
  · intro i hi
    have hindex : i < statedCount input := hc.length_chunks ▸ hi
    rw [hfields.start_eq i hindex, hfields.length_eq i hindex,
      hslice (h.payload_le_total i hindex)]
    exact hc.payload_eq i hi
  · intro i hi
    rw [hfields.length_eq i (hc.length_chunks ▸ hi)]
    exact hc.length_payload i hi

end Behind

/-- Exactly the well-formed inputs are read, and what is read is what they say. Of any other input
the first check that it fails is reported, the checks of the header coming before those of the
chunks, and no check reports a chunk as invalid. Bytes behind the total size do not matter. -/
theorem accepts_exactly_wellFormed (input : Bytes) :
    ((∃ c, parse input = .ok c) ↔ WellFormed input) ∧
    (∀ c, parse input = .ok c → c.IsContents input) ∧
    (∀ fault, parse input = .error fault ↔
      ∃ check, firstFailing? (checks input) = some check ∧ check.fault = fault) ∧
    (checks input).map (·.fault.family) = faultFamilies (statedCount input) ∧
    (∀ fault, parse input = .error fault → fault.family ≠ .invalidChunk) ∧
    (∀ c other, parse input = .ok c → other.take c.totalSize = input.take c.totalSize →
      parse other = .ok c) := by
  have hfault : ∀ fault, parse input = .error fault ↔
      ∃ check, firstFailing? (checks input) = some check ∧ check.fault = fault := by
    intro fault
    rw [parse_eq_judge, judge_eq_error_iff]
  have hfamilies : (checks input).map (·.fault.family) = faultFamilies (statedCount input) := by
    rw [checks, List.map_append, List.map_flatMap]
    rfl
  refine ⟨⟨?_, ?_⟩, ?_, hfault, hfamilies, ?_, ?_⟩
  · rintro ⟨c, hc⟩
    exact (parse_eq_ok_iff.1 hc).1
  · intro h
    exact ⟨contents input, parse_eq_ok_iff.2 ⟨h, h.isContents⟩⟩
  · intro c hc
    exact (parse_eq_ok_iff.1 hc).2
  · intro fault h
    obtain ⟨check, hcheck, rfl⟩ := (hfault fault).1 h
    have hmem : check.fault.family ∈ (checks input).map (·.fault.family) :=
      List.mem_map.2 ⟨check, List.mem_of_find?_eq_some hcheck, rfl⟩
    rintro hinvalid
    rw [hfamilies, hinvalid] at hmem
    simp [faultFamilies] at hmem
  · intro c other hc hsame
    obtain ⟨hwellFormed, hcontents⟩ := parse_eq_ok_iff.1 hc
    rw [hcontents.totalSize_eq] at hsame
    exact parse_eq_ok_iff.2
      ⟨hwellFormed.of_take_eq hsame, hcontents.of_take_eq hwellFormed hsame⟩

/-- Both entries of the table point to one chunk, and three bytes stand behind the container. -/
def sharedChunkBytes : Bytes :=
  FourCC.dxbc.bytes ++ List.replicate 16 5 ++ Bytes.ofDwords [1, 50, 2, 40, 40] ++
    FourCC.shex.bytes ++ Bytes.ofDword 2 ++ [7, 9] ++ [1, 2, 3]

theorem parse_sharedChunkBytes :
    let c : Container :=
      ⟨List.replicate 16 5, 50, 2, [⟨.shex, [7, 9]⟩, ⟨.shex, [7, 9]⟩]⟩
    parse sharedChunkBytes = .ok c ∧ WellFormed sharedChunkBytes ∧ c.IsContents sharedChunkBytes ∧
      parse (sharedChunkBytes.take 50) = .ok c := by
  intro c
  have hparse : parse sharedChunkBytes = .ok c := rfl
  obtain ⟨hwellFormed, hcontents, -, -, -, hbehind⟩ := accepts_exactly_wellFormed sharedChunkBytes
  exact ⟨hparse, hwellFormed.1 ⟨c, hparse⟩, hcontents c hparse,
    hbehind c (sharedChunkBytes.take 50) hparse (by decide +kernel)⟩

end ShaderKit.Container

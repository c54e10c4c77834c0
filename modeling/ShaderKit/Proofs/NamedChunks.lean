import ShaderKit.Proofs.ContainerAcceptance
import ShaderKit.Proofs.NameTexts
import ShaderKit.Proofs.SignatureChoice

/-!
# Chunks named in messages

Two faults name a chunk: one of a chunk whose payload leaves the container, and one of a chunk that
cannot be read as a signature. No text of a name has a space in it, and in both messages a space
follows the name. The words of a message thus say which fault it is and which four bytes the chunk
is named by.
-/

namespace ShaderKit

section Words

variable {v w rest rest' : List Char}

/-- The first word of a text ends in front of its first space. -/
theorem eq_of_words_eq (hv : ' ' ∉ v) (hw : ' ' ∉ w) (h : v ++ ' ' :: rest = w ++ ' ' :: rest') :
    v = w ∧ rest = rest' := by
  have hfirst : ∀ u more : List Char, ' ' ∉ u →
      (u ++ ' ' :: more).takeWhile (· != ' ') = u := by
    intro u more hu
    have hword : ∀ c ∈ u, (c != ' ') = true := by
      intro c hc
      rw [bne_iff_ne]
      rintro rfl
      exact hu hc
    rw [List.takeWhile_append_of_pos hword]
    exact List.append_nil u
  have hword := congrArg (List.takeWhile (· != ' ')) h
  rw [hfirst v rest hv, hfirst w rest' hw] at hword
  subst hword
  exact ⟨rfl, (List.cons.inj (List.append_cancel_left h)).2⟩

theorem space_notMem_toString (n : Nat) : ' ' ∉ (toString n).toList := by
  intro hspace
  rw [Nat.toString_eq_repr, Nat.toList_repr] at hspace
  exact absurd (Nat.isDigit_of_mem_toDigits (by decide) (by decide) hspace) (by decide)

theorem rest_eq_of_numbered_eq {heading : List Char} {m n : Nat}
    (h : heading ++ ((toString m).toList ++ ' ' :: rest) =
      heading ++ ((toString n).toList ++ ' ' :: rest')) : rest = rest' :=
  (eq_of_words_eq (space_notMem_toString m) (space_notMem_toString n)
    (List.append_cancel_left h)).2

end Words

namespace FormatFault

variable {fault fault' : FormatFault} {name : FourCC} {index size start total : Nat}

def chunkName? : FormatFault → Option FourCC
  | payloadOutside _ name _ _ _ | signatureChunk name _ => some name
  | _ => none

/-- The faults that belong to a container or to one of its chunks. Its only fields are dwords, and
a signature is read from a chunk. -/
def IsOfContainer : FormatFault → Prop
  | field (.dwordOutside ..) => True
  | field _ | signature _ => False
  | _ => True

section Messages

theorem Family.eq_of_heading_prefix {a b : Family}
    (h : a.heading.toList <+: b.heading.toList) : a = b := by
  cases a <;> cases b <;> simp [heading] at h ⊢

/-- No heading begins another one, so that a message can be divided in one way only. -/
theorem family_and_detail_of_message_eq (h : fault.message = fault'.message) :
    fault.family = fault'.family ∧ fault.detail = fault'.detail := by
  have hchars := congrArg String.toList h
  rw [message, message, String.toList_append, String.toList_append] at hchars
  have hfamily : fault.family = fault'.family := by
    have hprefix := List.prefix_append fault'.family.heading.toList fault'.detail.toList
    rw [← hchars] at hprefix
    rcases List.prefix_or_prefix_of_prefix (List.prefix_append _ _) hprefix with h | h
    · exact Family.eq_of_heading_prefix h
    · exact (Family.eq_of_heading_prefix h).symm
  rw [message, message, hfamily] at h
  exact ⟨hfamily, (String.append_right_inj _).1 h⟩

theorem detail_payloadOutside (index : Nat) (name : FourCC) (size start total : Nat) :
    (payloadOutside index name size start total).detail =
      "chunk #" ++ toString index ++ " (" ++ name.text ++ ") declares " ++ toString size ++
        " bytes at " ++ toString start ++ ", past container size " ++ toString total := rfl

theorem detail_signatureChunk (name : FourCC) (why : SignatureFault) :
    (signatureChunk name why).detail = name.text ++ " signature chunk: " ++ why.message := rfl

/-- A fault that names a chunk has the text of the name in its message. -/
theorem exists_message_eq (h : fault.chunkName? = some name) :
    ∃ front behind, fault.message = front ++ name.text ++ behind := by
  cases fault with
  | payloadOutside index _ size start total =>
    obtain rfl := Option.some.inj h
    refine ⟨Family.outOfBounds.heading ++ "chunk #" ++ toString index ++ " (",
      ") declares " ++ toString size ++ " bytes at " ++ toString start ++
        ", past container size " ++ toString total, ?_⟩
    rw [message, detail_payloadOutside, family]
    simp only [String.append_assoc]
  | signatureChunk _ why =>
    obtain rfl := Option.some.inj h
    refine ⟨Family.invalidChunk.heading, " signature chunk: " ++ why.message, ?_⟩
    rw [message, detail_signatureChunk, family]
    simp only [String.append_assoc]
  | _ => cases h

/-- The words of the fault of a payload, as far as the name. -/
theorem toList_detail_payloadOutside (index : Nat) (name : FourCC) (size start total : Nat) :
    ∃ behind, (payloadOutside index name size start total).detail.toList =
      "chunk #".toList ++ ((toString index).toList ++
        ' ' :: ('(' :: name.text.toList ++ [')'] ++ ' ' :: behind)) := by
  refine ⟨("declares " ++ toString size ++ " bytes at " ++ toString start ++
    ", past container size " ++ toString total).toList, ?_⟩
  simp [detail_payloadOutside, String.toList_append]

theorem toList_detail_chunkHeaderOutside (index start total : Nat) :
    ∃ behind, (chunkHeaderOutside index start total).detail.toList =
      "chunk #".toList ++ ((toString index).toList ++ ' ' :: 'h' :: behind) := by
  have hdetail : (chunkHeaderOutside index start total).detail =
      "chunk #" ++ toString index ++ " header " ++ toString start ++ ".." ++
        toString (start + 8) ++ " exceeds container size " ++ toString total := rfl
  refine ⟨("eader " ++ toString start ++ ".." ++ toString (start + 8) ++
    " exceeds container size " ++ toString total).toList, ?_⟩
  simp [hdetail, String.toList_append]

theorem toList_detail_signatureChunk (name : FourCC) (why : SignatureFault) :
    ∃ behind, (signatureChunk name why).detail.toList = name.text.toList ++ ' ' :: behind := by
  refine ⟨("signature chunk: " ++ why.message).toList, ?_⟩
  simp [detail_signatureChunk, String.toList_append]

/-- Signatures that cannot be read are told apart by the first word. -/
theorem name_eq_of_signatureChunk {name' : FourCC} {why why' : SignatureFault}
    (h : (signatureChunk name why).detail = (signatureChunk name' why').detail) :
    name = name' := by
  obtain ⟨behind, hnamed⟩ := toList_detail_signatureChunk name why
  obtain ⟨behind', hnamed'⟩ := toList_detail_signatureChunk name' why'
  rw [h, hnamed'] at hnamed
  obtain ⟨htext, -⟩ := eq_of_words_eq name'.space_notMem_text name.space_notMem_text hnamed
  exact (FourCC.eq_of_text_eq (String.toList_inj.1 htext)).symm

/-- Payloads outside of the container are told apart by the word behind the number. -/
theorem name_eq_of_payloadOutside {name' : FourCC} {index' size' start' total' : Nat}
    (h : (payloadOutside index name size start total).detail =
      (payloadOutside index' name' size' start' total').detail) : name = name' := by
  obtain ⟨behind, hnamed⟩ := toList_detail_payloadOutside index name size start total
  obtain ⟨behind', hnamed'⟩ := toList_detail_payloadOutside index' name' size' start' total'
  rw [h, hnamed'] at hnamed
  have hrest := rest_eq_of_numbered_eq hnamed
  have hspace : ∀ f : FourCC, ' ' ∉ '(' :: f.text.toList ++ [')'] := by
    intro f
    simp [f.space_notMem_text]
  obtain ⟨hword, -⟩ := eq_of_words_eq (hspace name') (hspace name) hrest
  have htext := List.append_cancel_right (List.cons.inj hword).2
  exact (FourCC.eq_of_text_eq (String.toList_inj.1 htext)).symm

/-- The fault of a header has another word where that of a payload has the name. -/
theorem detail_payloadOutside_ne_chunkHeaderOutside {index' start' total' : Nat} :
    (payloadOutside index name size start total).detail ≠
      (chunkHeaderOutside index' start' total').detail := by
  intro h
  obtain ⟨behind, hnamed⟩ := toList_detail_payloadOutside index name size start total
  obtain ⟨behind', hother⟩ := toList_detail_chunkHeaderOutside index' start' total'
  rw [h, hother] at hnamed
  have hrest := rest_eq_of_numbered_eq hnamed
  exact absurd (List.cons.inj hrest).1 (by decide)

theorem detail_payloadOutside_ne_totalBeyondInput {stated length : Nat} :
    (payloadOutside index name size start total).detail ≠
      (totalBeyondInput stated length).detail := by
  intro h
  obtain ⟨behind, hnamed⟩ := toList_detail_payloadOutside index name size start total
  have hother : (totalBeyondInput stated length).detail =
      "total_size " ++ toString stated ++ " exceeds buffer length " ++ toString length := rfl
  simp [h, hother] at hnamed

theorem detail_payloadOutside_ne_dwordOutside {what : String} {offset length : Nat} :
    (payloadOutside index name size start total).detail ≠
      (FormatFault.field (.dwordOutside what offset length)).detail := by
  intro h
  obtain ⟨behind, hnamed⟩ := toList_detail_payloadOutside index name size start total
  have hother : (FormatFault.field (.dwordOutside what offset length)).detail =
      "need 4 bytes for " ++ what ++ " at " ++ toString offset ++ ".." ++
        toString (offset + 4) ++ ", but length is " ++ toString length := rfl
  simp [h, hother] at hnamed

/-- A fault of a container with the message of one that names a chunk names the same chunk. -/
theorem IsOfContainer.chunkName?_of_message_eq (h' : fault'.IsOfContainer)
    (hmessage : fault.message = fault'.message) (hname : fault.chunkName? = some name) :
    fault'.chunkName? = some name := by
  obtain ⟨hfamily, hdetail⟩ := family_and_detail_of_message_eq hmessage
  cases fault with
  | payloadOutside index _ size start total =>
    obtain rfl := Option.some.inj hname
    -- Only faults of the same family are left, and each of them has words of its own.
    cases fault' with
    | payloadOutside => exact congrArg some (name_eq_of_payloadOutside hdetail).symm
    | chunkHeaderOutside => exact absurd hdetail detail_payloadOutside_ne_chunkHeaderOutside
    | totalBeyondInput => exact absurd hdetail detail_payloadOutside_ne_totalBeyondInput
    | field fault =>
      cases fault with
      | dwordOutside => exact absurd hdetail detail_payloadOutside_ne_dwordOutside
      | _ => exact h'.elim
    | signature _ => exact h'.elim
    | _ => cases hfamily
  | signatureChunk _ why =>
    obtain rfl := Option.some.inj hname
    cases fault' with
    | signatureChunk => exact congrArg some (name_eq_of_signatureChunk hdetail).symm
    | field fault =>
      cases fault with
      | dwordOutside => cases hfamily
      | _ => exact h'.elim
    | signature _ => exact h'.elim
    | _ => cases hfamily
  | _ => cases hname

end Messages

end FormatFault

namespace Container

open FormatFault

variable {bytes input : Bytes} {c : Container} {tableEnd index offset n : Nat} {what : String}
  {kind name : FourCC} {fault : FormatFault}

section Faults

theorem eq_dword_of_readField_eq_ok (h : readField bytes what offset = .ok n) :
    offset + 4 ≤ bytes.length ∧ n = bytes.dword offset := by
  rw [readField, Bytes.readDword] at h
  rw [← Bytes.dwordAt?_isSome_iff, Bytes.dword]
  cases hword : bytes.dwordAt? offset with
  | none => simp [hword] at h
  | some w => simpa [hword, eq_comm] using h

theorem eq_field_of_readField_eq_error (h : readField bytes what offset = .error fault) :
    fault = .field (.dwordOutside what offset bytes.length) := by
  rw [readField, Bytes.readDword] at h
  cases hword : bytes.dwordAt? offset with
  | none => simpa [hword, eq_comm] using h
  | some w => simp [hword] at h

/-- The entry and the header of a chunk are where they may be, but its payload leaves the bytes. -/
structure LosesPayload (bytes : Bytes) (tableEnd index : Nat) : Prop where
  entry_le : headerLength + 4 * index + 4 ≤ bytes.length
  table_le : tableEnd ≤ chunkStart bytes index
  header_le : chunkStart bytes index + 8 ≤ bytes.length
  length_lt : bytes.length < chunkStart bytes index + 8 + chunkLength bytes index

inductive ChunkFault (bytes : Bytes) (tableEnd index : Nat) : FormatFault → Prop
  | field (what : String) (offset : Nat) :
      ChunkFault bytes tableEnd index (.field (.dwordOutside what offset bytes.length))
  | insideTable (start : Nat) :
      ChunkFault bytes tableEnd index (.chunkInsideTable index start tableEnd)
  | headerOutside (start : Nat) :
      ChunkFault bytes tableEnd index (.chunkHeaderOutside index start bytes.length)
  | payloadOutside (size start : Nat) (h : LosesPayload bytes tableEnd index) :
      ChunkFault bytes tableEnd index
        (.payloadOutside index (codeAt bytes (chunkStart bytes index)) size start bytes.length)

theorem chunkFault_of_readChunk (h : readChunk bytes tableEnd index = .error fault) :
    ChunkFault bytes tableEnd index fault := by
  rcases bind_eq_error_iff.1 h with hfield | ⟨start, hstart, h⟩
  · rw [eq_field_of_readField_eq_error hfield]
    exact .field _ _
  obtain ⟨hentry, rfl⟩ := eq_dword_of_readField_eq_ok hstart
  rcases bind_eq_error_iff.1 h with hcheck | ⟨_, htable, h⟩
  · obtain ⟨-, rfl⟩ := require_eq_error_iff.1 hcheck
    exact .insideTable _
  rcases bind_eq_error_iff.1 h with hcheck | ⟨_, hheader, h⟩
  · obtain ⟨-, rfl⟩ := require_eq_error_iff.1 hcheck
    exact .headerOutside _
  rcases bind_eq_error_iff.1 h with hfield | ⟨size, hsize, h⟩
  · rw [eq_field_of_readField_eq_error hfield]
    exact .field _ _
  obtain ⟨-, rfl⟩ := eq_dword_of_readField_eq_ok hsize
  rcases bind_eq_error_iff.1 h with hcheck | ⟨_, -, h⟩
  · obtain ⟨hlong, rfl⟩ := require_eq_error_iff.1 hcheck
    exact .payloadOutside _ _ ⟨hentry, require_eq_ok_iff.1 htable, require_eq_ok_iff.1 hheader,
      Nat.lt_of_not_le hlong⟩
  · cases h

theorem LosesPayload.readChunk_eq (h : LosesPayload bytes tableEnd index) :
    readChunk bytes tableEnd index = .error (.payloadOutside index
      (codeAt bytes (chunkStart bytes index)) (chunkLength bytes index)
        (chunkStart bytes index + 8) bytes.length) := by
  have hheader := h.header_le
  have hstart : readField bytes "chunk offset" (headerLength + 4 * index) =
      .ok (chunkStart bytes index) := readField_of_le _ h.entry_le
  have hsize : readField bytes "chunk size" (chunkStart bytes index + 4) =
      .ok (chunkLength bytes index) := readField_of_le _ (by omega)
  refine bind_eq_error_iff.2 (.inr ⟨_, hstart, ?_⟩)
  refine bind_eq_error_iff.2 (.inr ⟨(), require_of h.table_le, ?_⟩)
  refine bind_eq_error_iff.2 (.inr ⟨(), require_of h.header_le, ?_⟩)
  refine bind_eq_error_iff.2 (.inr ⟨_, hsize, ?_⟩)
  exact bind_eq_error_iff.2 (.inl (require_of_not (Nat.not_le_of_lt h.length_lt)))

theorem ChunkFault.isOfContainer (h : ChunkFault bytes tableEnd index fault) :
    fault.IsOfContainer := by
  cases h <;> trivial

/-- Reading a chunk names it exactly if its payload leaves the bytes, and by the four bytes that it
begins with. -/
theorem readChunk_names_iff :
    (∃ fault, readChunk bytes tableEnd index = .error fault ∧ fault.chunkName? = some name) ↔
      LosesPayload bytes tableEnd index ∧ name.bytes = bytes.slice (chunkStart bytes index) 4 := by
  constructor
  · rintro ⟨fault, hread, hname⟩
    cases chunkFault_of_readChunk hread with
    | payloadOutside size start h =>
      obtain rfl := Option.some.inj hname
      have hheader := h.header_le
      exact ⟨h, bytes_codeAt (by omega)⟩
    | _ => cases hname
  · rintro ⟨h, hbytes⟩
    have hheader := h.header_le
    refine ⟨_, h.readChunk_eq, congrArg some (FourCC.bytes_injective ?_)⟩
    rw [hbytes]
    exact bytes_codeAt (by omega)

/-- A chunk that declares one byte at the end of its container, with a name of four visible bytes
that looks like one escaped byte. -/
example : readChunk (List.replicate 32 0 ++ Bytes.ofDword 36 ++ [0x5c, 0x78, 0x30, 0x30] ++
    Bytes.ofDword 1) 36 0 =
      .error (.payloadOutside 0 (.ofChars '\\' 'x' '0' '0') 1 44 44) := by decide

theorem isOfContainer_of_parse (h : parse input = .error fault) : fault.IsOfContainer := by
  rw [parse_eq_judge, Check.judge_eq_error_iff] at h
  obtain ⟨check, hfailing, rfl⟩ := h
  have hmem := List.mem_of_find?_eq_some hfailing
  simp only [checks, headerChecks, chunkChecks, List.mem_append, List.mem_flatMap, List.mem_cons,
    List.not_mem_nil, or_false] at hmem
  rcases hmem with (rfl | rfl | rfl | rfl | rfl | rfl) | ⟨_, -, rfl | rfl | rfl⟩ <;> trivial

theorem exists_chunk_of_signature? (h : c.signature? kind = some (.error fault)) :
    ∃ k ∈ c.chunks, k.name ∈ kind.spellings ∧
      ∃ why, k.reading = .error why ∧ fault = .signatureChunk k.name why := by
  obtain ⟨-, _, why, ⟨hfirst, hname⟩, rfl⟩ := signature?_eq_error_iff_firstTried.1 h
  obtain ⟨k, hk, rfl, hreading⟩ := hfirst.exists_mem
  exact ⟨k, hk, FourCC.mem_spellings.2 (hname.imp_right And.right), why, hreading, rfl⟩

end Faults

/-- A fault that reading a chunk, reading a container or choosing a signature ends with. -/
inductive Reports : FormatFault → Prop
  | chunk {bytes : Bytes} {tableEnd index : Nat} {fault : FormatFault}
      (h : readChunk bytes tableEnd index = .error fault) : Reports fault
  | container {input : Bytes} {fault : FormatFault} (h : parse input = .error fault) :
      Reports fault
  | signature {c : Container} {kind : FourCC} {fault : FormatFault}
      (h : c.signature? kind = some (.error fault)) : Reports fault

theorem Reports.isOfContainer (h : Reports fault) : fault.IsOfContainer := by
  cases h with
  | chunk h => exact (chunkFault_of_readChunk h).isOfContainer
  | container h => exact isOfContainer_of_parse h
  | signature h =>
    obtain ⟨k, -, -, why, -, rfl⟩ := exists_chunk_of_signature? h
    trivial

/-- The text of a name puts one glyph for each of its bytes, a backslash being its own glyph, and no
two names share their text. A chunk whose payload leaves the bytes is named in the fault by the four
bytes that it begins with, and a signature that cannot be read by the name of one of the chunks that
were tried. The text of the name stands in the message, and of all the faults that can be reported
those with the same message name the same chunk, or none of them names one. -/
theorem messages_identify_chunk_names :
    (∀ f : FourCC, ∃ glyphs,
      List.Forall₂ FourCC.IsGlyph f.bytes glyphs ∧ f.text = String.ofList glyphs.flatten) ∧
    Function.Injective FourCC.text ∧
    (∀ bytes tableEnd index name,
      (∃ fault, readChunk bytes tableEnd index = .error fault ∧ fault.chunkName? = some name) ↔
        LosesPayload bytes tableEnd index ∧
          name.bytes = bytes.slice (chunkStart bytes index) 4) ∧
    (∀ c kind fault, signature? c kind = some (.error fault) →
      ∃ k ∈ c.chunks, k.name ∈ kind.spellings ∧ (∃ why, k.reading = .error why) ∧
        fault.chunkName? = some k.name) ∧
    (∀ fault name, chunkName? fault = some name →
      ∃ front behind, fault.message = front ++ name.text ++ behind) ∧
    ∀ fault fault', Reports fault → Reports fault' → fault.message = fault'.message →
      fault.chunkName? = fault'.chunkName? := by
  refine ⟨FourCC.exists_glyphs, fun _ _ => FourCC.eq_of_text_eq, fun _ _ _ _ =>
    readChunk_names_iff, ?_, fun _ _ => exists_message_eq, ?_⟩
  · intro c kind fault h
    obtain ⟨k, hk, hname, why, hreading, rfl⟩ := exists_chunk_of_signature? h
    exact ⟨k, hk, hname, ⟨why, hreading⟩, rfl⟩
  · intro fault fault' h h' hmessage
    apply Option.ext
    intro name
    constructor
    · exact h'.isOfContainer.chunkName?_of_message_eq hmessage
    · exact h.isOfContainer.chunkName?_of_message_eq hmessage.symm

end Container

end ShaderKit

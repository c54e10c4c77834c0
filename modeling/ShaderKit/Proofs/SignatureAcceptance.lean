import ShaderKit.SignatureParsing
import ShaderKit.Proofs.ByteSlices
import ShaderKit.Proofs.OrderedChecks
import ShaderKit.Proofs.TextBytes

/-!
# Which payloads are signatures

The count of elements, the place of their table and the places of their names are numbers that a
payload may choose at will. Names may lie anywhere behind the header, in the table and in each
other too. Reading checks that the table lies inside the payload, and of each name that it starts
inside, ends, and is a text. The numbers of an element are never missing when they are read, and
the end of the table can always be addressed: the checks that were made before see to that.
-/

namespace ShaderKit

namespace Bytes

open Check

/-- The bytes from an offset up to the first zero byte. -/
def textAt (bytes : Bytes) (offset : Nat) : Bytes := (bytes.drop offset).takeWhile (· != 0)

/-- The checks of a text in order: it starts inside, it ends, and it is valid. -/
def textChecks (bytes : Bytes) (field : String) (offset : Nat) : List (Check FieldFault) :=
  [⟨decide (offset ≤ bytes.length), .textOutside field offset bytes.length⟩,
    ⟨decide (0 ∈ bytes.drop offset), .textUnterminated field offset⟩,
    ⟨decide (bytes.textAt offset).toByteArray.IsValidUTF8, .textNotUtf8 field offset⟩]

theorem readText_eq_judge (bytes : Bytes) (field : String) (offset : Nat) :
    bytes.readText field offset =
      judge (bytes.textChecks field offset) ((toText? (bytes.textAt offset)).getD "") := by
  have htext : (bytes.drop offset).takeWhile (· != 0) = bytes.textAt offset := rfl
  rw [textChecks, judge_cons, judge_cons, judge_cons]
  simp only [readText, htext, List.contains_iff_mem, decide_eq_true_iff]
  by_cases hinside : offset ≤ bytes.length
  · rw [if_neg (Nat.not_lt.2 hinside), if_pos hinside]
    by_cases hends : 0 ∈ bytes.drop offset
    · rw [if_pos hends, if_pos hends]
      cases hread : toText? (bytes.textAt offset) with
      | some s =>
        rw [if_pos (isSome_toText?_iff.1 (Option.isSome_of_eq_some hread))]
        rfl
      | none =>
        have hinvalid : ¬ (bytes.textAt offset).toByteArray.IsValidUTF8 := by
          rw [← isSome_toText?_iff, hread]
          exact Bool.false_ne_true
        rw [if_neg hinvalid]
    · rw [if_neg hends, if_neg hends]
  · rw [if_pos (Nat.not_le.1 hinside), if_neg hinside]

end Bytes

/-- Faults that earlier checks rule out: a number that is not there when it is read, and a table
whose end has no address. -/
def SignatureFault.isRuledOut : SignatureFault → Bool
  | header _ | tableUnaddressable => true
  | entryField _ (.dwordOutside ..) | entryField _ (.byteOutside ..) => true
  | headerTruncated _ | tableInsideHeader _ | tableOutside .. | nameInsideHeader .. => false
  | entryField _ (.textOutside ..) | entryField _ (.textUnterminated ..)
  | entryField _ (.textNotUtf8 ..) => false

namespace Signature

open Check

variable {name : FourCC} {bytes : Bytes} {i : Nat} {s t : Signature}

def statedCount (bytes : Bytes) : Nat := bytes.dword 0

def statedTable (bytes : Bytes) : Nat := bytes.dword 4

def entryStart (name : FourCC) (bytes : Bytes) (i : Nat) : Nat :=
  statedTable bytes + i * elementLength name

def tableStop (name : FourCC) (bytes : Bytes) : Nat := entryStart name bytes (statedCount bytes)

/-- The offset of an element's name, which its entry states. -/
def nameStart (name : FourCC) (bytes : Bytes) (i : Nat) : Nat :=
  bytes.dword (entryStart name bytes i)

/-- The table lies behind the header and inside the payload, and each of its entries points to a
text that starts in the same bounds and ends before a zero byte. -/
structure HasTable (name : FourCC) (bytes : Bytes) : Prop where
  header_le_table : headerLength ≤ statedTable bytes
  table_le_length : tableStop name bytes ≤ bytes.length
  header_le_name : ∀ i < statedCount bytes, headerLength ≤ nameStart name bytes i
  name_le_length : ∀ i < statedCount bytes, nameStart name bytes i ≤ bytes.length
  name_ends : ∀ i < statedCount bytes, 0 ∈ bytes.drop (nameStart name bytes i)
  name_isText : ∀ i < statedCount bytes,
    (bytes.textAt (nameStart name bytes i)).toByteArray.IsValidUTF8

/-- The header is whole, and there is a table unless there are no elements. -/
structure WellFormed (name : FourCC) (bytes : Bytes) : Prop where
  header_le_length : headerLength ≤ bytes.length
  table : statedCount bytes = 0 ∨ HasTable name bytes

/-- An element says what its entry at the given offset says. The entry says the name through the
offset of its text, of the masks four bits each, and the stream in a place of its own in each
form. -/
structure IsEntryAt (e : SignatureElement) (name : FourCC) (bytes : Bytes) (base : Nat) : Prop where
  name_eq : Bytes.ofText e.name = bytes.textAt (bytes.dword base)
  index_eq : bytes.dwordAt? (base + 4) = some e.index
  systemValue_eq : (bytes.dwordAt? (base + 8)).map SystemValue.ofCode = some e.systemValue
  componentType_eq : bytes.dwordAt? (base + 12) = some e.componentType
  register_eq : bytes.dwordAt? (base + 16) = some e.register
  mask_eq : bytes[base + 20]?.map (·.toNat % 2 ^ 4) = some e.mask.toNat
  readWriteMask_eq : bytes[base + 21]?.map (·.toNat % 2 ^ 4) = some e.readWriteMask.toNat
  stream_eq : (if name.hasLongEntries then bytes.dwordAt? (base + 24)
    else bytes[base + 22]?.map UInt8.toUInt32) = some e.stream

/-- A signature says what the entries of the table say, in their order. -/
structure IsContents (s : Signature) (name : FourCC) (bytes : Bytes) : Prop where
  length_elements : s.elements.length = statedCount bytes
  isEntryAt : ∀ i, (h : i < s.elements.length) →
    IsEntryAt s.elements[i] name bytes (entryStart name bytes i)

def tableChecks (name : FourCC) (bytes : Bytes) : List (Check SignatureFault) :=
  [⟨decide (headerLength ≤ statedTable bytes), .tableInsideHeader (statedTable bytes)⟩,
    ⟨decide (tableStop name bytes ≤ bytes.length),
      .tableOutside (statedTable bytes) (tableStop name bytes) bytes.length⟩]

def nameChecks (name : FourCC) (bytes : Bytes) (i : Nat) : List (Check SignatureFault) :=
  let offset := nameStart name bytes i
  ⟨decide (headerLength ≤ offset), .nameInsideHeader i offset⟩ ::
    (bytes.textChecks "semantic_name" offset).map fun check =>
      ⟨check.passes, .entryField i check.fault⟩

/-- All checks in order: that of the header and, if there are elements, those of the table and then
those of one name after the other. -/
def checks (name : FourCC) (bytes : Bytes) : List (Check SignatureFault) :=
  ⟨decide (headerLength ≤ bytes.length), .headerTruncated bytes.length⟩ ::
    if statedCount bytes = 0 then []
    else tableChecks name bytes ++ (List.range (statedCount bytes)).flatMap (nameChecks name bytes)

def elementAt (name : FourCC) (bytes : Bytes) (base : Nat) : SignatureElement where
  name := (Bytes.toText? (bytes.textAt (bytes.dword base))).getD ""
  index := (bytes.dwordAt? (base + 4)).getD 0
  systemValue := .ofCode ((bytes.dwordAt? (base + 8)).getD 0)
  componentType := (bytes.dwordAt? (base + 12)).getD 0
  register := (bytes.dwordAt? (base + 16)).getD 0
  mask := .ofByte (bytes[base + 20]?.getD 0)
  readWriteMask := .ofByte (bytes[base + 21]?.getD 0)
  stream := if name.hasLongEntries then (bytes.dwordAt? (base + 24)).getD 0
    else (bytes[base + 22]?.getD 0).toUInt32

def contents (name : FourCC) (bytes : Bytes) : Signature :=
  ⟨(List.range (statedCount bytes)).map fun i => elementAt name bytes (entryStart name bytes i)⟩

theorem elementLength_cases (name : FourCC) :
    name.hasLongEntries = true ∧ elementLength name = 32 ∨
      name.hasLongEntries = false ∧ elementLength name = 24 := by
  rw [elementLength]
  cases name.hasLongEntries with
  | true => exact .inl ⟨rfl, rfl⟩
  | false => exact .inr ⟨rfl, rfl⟩

/-- The end of the table has an address, whatever the header states. -/
theorem tableStop_lt (name : FourCC) (bytes : Bytes) : tableStop name bytes < UInt64.size := by
  have hcount : statedCount bytes < 2 ^ 32 := UInt32.toNat_lt _
  have htable : statedTable bytes < 2 ^ 32 := UInt32.toNat_lt _
  rw [tableStop, entryStart]
  rcases elementLength_cases name with ⟨-, hlength⟩ | ⟨-, hlength⟩ <;>
    rw [hlength, UInt64.size] <;> omega

section Reading

variable {base : Nat}

/-- No number of an entry inside the payload is missing, so that only the name is left to read. -/
theorem readElement_of_inside (h : base + elementLength name ≤ bytes.length) :
    readElement name bytes i base =
      require (headerLength ≤ bytes.dword base) (.nameInsideHeader i (bytes.dword base)) >>=
        fun _ => readElementField i (bytes.readText "semantic_name" (bytes.dword base)) >>=
          fun text => pure { elementAt name bytes base with name := text } := by
  have hshort : 24 ≤ elementLength name := by
    rcases elementLength_cases name with ⟨-, hlength⟩ | ⟨-, hlength⟩ <;> omega
  have hdword : ∀ field k, k + 4 ≤ elementLength name →
      bytes.readDword field (base + k) = .ok ((bytes.dwordAt? (base + k)).getD 0) :=
    fun field k hk => Bytes.readDword_of_le field (by omega)
  have hbyte : ∀ field k, k < elementLength name →
      bytes.readByte field (base + k) = .ok (bytes[base + k]?.getD 0) :=
    fun field k hk => Bytes.readByte_of_lt field (by omega)
  have hnameOffset := hdword "semantic_name_offset" 0 (by omega)
  have hindex := hdword "semantic_index" 4 (by omega)
  have hsystemValue := hdword "system_value_type" 8 (by omega)
  have hcomponentType := hdword "component_type" 12 (by omega)
  have hregister := hdword "register" 16 (by omega)
  have hmask := hbyte "mask" 20 (by omega)
  have hreadWriteMask := hbyte "read_write_mask" 21 (by omega)
  simp only [readElement, readElementField, hnameOffset, hindex, hsystemValue, hcomponentType,
    hregister, hmask, hreadWriteMask, Except.mapError, bind, Except.bind, elementAt]
  rcases elementLength_cases name with ⟨hlong, hlength⟩ | ⟨hlong, hlength⟩
  · have hstream := hdword "stream" 24 (by omega)
    simp only [hlong, if_true, hstream]
    rfl
  · have hstream := hbyte "stream" 22 (by omega)
    simp only [hlong, hstream]
    rfl

theorem readElement_eq_judge (h : entryStart name bytes i + elementLength name ≤ bytes.length) :
    readElement name bytes i (entryStart name bytes i) =
      judge (nameChecks name bytes i) (elementAt name bytes (entryStart name bytes i)) := by
  rw [readElement_of_inside h, nameChecks, judge_cons_eq_require decide_eq_true_iff]
  refine require_bind_congr fun _ => ?_
  rw [readElementField, Bytes.readText_eq_judge, mapError_judge, judge_bind_pure]
  rfl

theorem statedCount_eq_zero_iff : statedCount bytes = 0 ↔ (bytes.dwordAt? 0).getD 0 = 0 := by
  rw [statedCount, Bytes.dword]
  exact UInt32.toNat_inj (b := 0)

theorem entryStart_add_le (h : tableStop name bytes ≤ bytes.length) (hi : i < statedCount bytes) :
    entryStart name bytes i + elementLength name ≤ bytes.length := by
  have hmul : (i + 1) * elementLength name ≤ statedCount bytes * elementLength name :=
    Nat.mul_le_mul_right _ hi
  rw [Nat.succ_mul] at hmul
  rw [tableStop, entryStart] at h
  rw [entryStart]
  omega

/-- Reading is making the checks in order and, if all pass, taking the contents. -/
theorem parse_eq_judge (name : FourCC) (bytes : Bytes) :
    parse name bytes = judge (checks name bytes) (contents name bytes) := by
  rw [parse, checks, judge_cons_eq_require decide_eq_true_iff]
  refine require_bind_congr fun hheader => ?_
  rw [headerLength] at hheader
  rw [Bytes.readDword_of_le "param_count" (by omega),
    Bytes.readDword_of_le "param_offset" (by omega)]
  change (if (bytes.dwordAt? 0).getD 0 = 0 then pure empty else
    require (headerLength ≤ statedTable bytes) (.tableInsideHeader (statedTable bytes)) >>= fun _ =>
      require (tableStop name bytes < UInt64.size) .tableUnaddressable >>= fun _ =>
        require (tableStop name bytes ≤ bytes.length)
          (.tableOutside (statedTable bytes) (tableStop name bytes) bytes.length) >>= fun _ =>
          (List.range (statedCount bytes)).mapM
            (fun i => readElement name bytes i (entryStart name bytes i)) >>=
            fun elements => pure (Signature.mk elements)) = _
  by_cases hcount : statedCount bytes = 0
  · rw [if_pos (statedCount_eq_zero_iff.1 hcount), if_pos hcount, contents, hcount]
    rfl
  · rw [if_neg (mt statedCount_eq_zero_iff.2 hcount), if_neg hcount, tableChecks,
      List.cons_append, judge_cons_eq_require decide_eq_true_iff]
    refine require_bind_congr fun _ => ?_
    rw [require_of (tableStop_lt name bytes), List.cons_append,
      judge_cons_eq_require decide_eq_true_iff]
    refine require_bind_congr fun htable => ?_
    rw [mapM_eq_judge fun i hi =>
      readElement_eq_judge (entryStart_add_le htable (List.mem_range.1 hi)), judge_bind_pure]
    rfl

end Reading

theorem hasTable_iff :
    HasTable name bytes ↔ (∀ check ∈ tableChecks name bytes, check.passes) ∧
      ∀ i < statedCount bytes, ∀ check ∈ nameChecks name bytes i, check.passes := by
  simp only [tableChecks, nameChecks, Bytes.textChecks, List.map_cons, List.map_nil,
    List.forall_mem_cons, decide_eq_true_iff, List.not_mem_nil, false_imp_iff, implies_true,
    and_true]
  constructor
  · intro h
    exact ⟨⟨h.header_le_table, h.table_le_length⟩, fun i hi => ⟨h.header_le_name i hi,
      h.name_le_length i hi, h.name_ends i hi, h.name_isText i hi⟩⟩
  · rintro ⟨⟨hheader, hlength⟩, hnames⟩
    exact ⟨hheader, hlength, fun i hi => (hnames i hi).1, fun i hi => (hnames i hi).2.1,
      fun i hi => (hnames i hi).2.2.1, fun i hi => (hnames i hi).2.2.2⟩

theorem wellFormed_iff :
    WellFormed name bytes ↔ ∀ check ∈ checks name bytes, check.passes := by
  rw [checks, List.forall_mem_cons, decide_eq_true_iff]
  by_cases hcount : statedCount bytes = 0
  · rw [if_pos hcount]
    simp only [List.not_mem_nil, false_imp_iff, implies_true, and_true]
    exact ⟨fun h => h.header_le_length, fun h => ⟨h, .inl hcount⟩⟩
  · rw [if_neg hcount, List.forall_mem_append, List.forall_mem_flatMap]
    simp only [List.mem_range]
    rw [← hasTable_iff]
    exact ⟨fun h => ⟨h.header_le_length, h.table.resolve_left hcount⟩,
      fun h => ⟨h.1, .inr h.2⟩⟩

theorem isEntryAt_elementAt {base : Nat} (h : base + elementLength name ≤ bytes.length)
    (htext : (bytes.textAt (bytes.dword base)).toByteArray.IsValidUTF8) :
    IsEntryAt (elementAt name bytes base) name bytes base := by
  have hshort : 24 ≤ elementLength name := by
    rcases elementLength_cases name with ⟨-, hlength⟩ | ⟨-, hlength⟩ <;> omega
  obtain ⟨semantic, hsemantic⟩ := Option.isSome_iff_exists.1 (Bytes.isSome_toText?_iff.2 htext)
  constructor
  · rw [elementAt, hsemantic]
    exact Bytes.toText?_eq_some_iff.1 hsemantic
  · exact Bytes.dwordAt?_of_le (by omega)
  · rw [Bytes.dwordAt?_of_le (by omega)]
    rfl
  · exact Bytes.dwordAt?_of_le (by omega)
  · exact Bytes.dwordAt?_of_le (by omega)
  · rw [Bytes.getElem?_of_lt (by omega)]
    exact congrArg some (ComponentMask.toNat_ofByte _).symm
  · rw [Bytes.getElem?_of_lt (by omega)]
    exact congrArg some (ComponentMask.toNat_ofByte _).symm
  · rcases elementLength_cases name with ⟨hlong, hlength⟩ | ⟨hlong, hlength⟩
    · simp only [elementAt, hlong, if_true]
      exact Bytes.dwordAt?_of_le (by omega)
    · simp only [elementAt, hlong, Bool.false_eq_true, if_false]
      rw [Bytes.getElem?_of_lt (by omega)]
      rfl

theorem IsEntryAt.unique {base : Nat} {e e' : SignatureElement} (h : IsEntryAt e name bytes base)
    (h' : IsEntryAt e' name bytes base) : e = e' := by
  have hname := Bytes.ofText_injective (h.name_eq.trans h'.name_eq.symm)
  have hindex := Option.some.inj (h.index_eq.symm.trans h'.index_eq)
  have hsystemValue := Option.some.inj (h.systemValue_eq.symm.trans h'.systemValue_eq)
  have hcomponentType := Option.some.inj (h.componentType_eq.symm.trans h'.componentType_eq)
  have hregister := Option.some.inj (h.register_eq.symm.trans h'.register_eq)
  have hmask := BitVec.eq_of_toNat_eq (Option.some.inj (h.mask_eq.symm.trans h'.mask_eq))
  have hreadWriteMask :=
    BitVec.eq_of_toNat_eq (Option.some.inj (h.readWriteMask_eq.symm.trans h'.readWriteMask_eq))
  have hstream := Option.some.inj (h.stream_eq.symm.trans h'.stream_eq)
  cases e
  cases e'
  exact (SignatureElement.mk.injEq ..).mpr ⟨hname, hindex, hsystemValue, hcomponentType,
    hregister, hmask, hreadWriteMask, hstream⟩

theorem WellFormed.isContents (h : WellFormed name bytes) :
    (contents name bytes).IsContents name bytes where
  length_elements := by rw [contents, List.length_map, List.length_range]
  isEntryAt i hi := by
    have hindex : i < statedCount bytes := by simpa [contents] using hi
    have htable := h.table.resolve_left (Nat.ne_zero_of_lt hindex)
    simp only [contents, List.getElem_map, List.getElem_range]
    exact isEntryAt_elementAt (entryStart_add_le htable.table_le_length hindex)
      (htable.name_isText i hindex)

theorem IsContents.unique (hs : s.IsContents name bytes) (ht : t.IsContents name bytes) :
    s = t := by
  have helements : s.elements = t.elements :=
    List.ext_getElem (hs.length_elements.trans ht.length_elements.symm) fun i hi hi' =>
      (hs.isEntryAt i hi).unique (ht.isEntryAt i hi')
  exact congrArg Signature.mk helements

theorem parse_eq_ok_iff :
    parse name bytes = .ok s ↔ WellFormed name bytes ∧ s.IsContents name bytes := by
  rw [parse_eq_judge, judge_eq_ok_iff, ← wellFormed_iff]
  constructor
  · rintro ⟨h, rfl⟩
    exact ⟨h, h.isContents⟩
  · rintro ⟨h, hs⟩
    exact ⟨h, hs.unique h.isContents⟩

/-- The table has its place for each element, so that a short payload has few of them. -/
theorem length_elements_of_parse (h : parse name bytes = .ok s) :
    24 * s.elements.length ≤ bytes.length := by
  obtain ⟨hformed, hcontents⟩ := parse_eq_ok_iff.1 h
  rw [hcontents.length_elements]
  rcases hformed.table with hzero | htable
  · rw [hzero]
    exact Nat.zero_le _
  · have hstop := htable.table_le_length
    have hshort : statedCount bytes * 24 ≤ statedCount bytes * elementLength name :=
      Nat.mul_le_mul_left _ (by
        rcases elementLength_cases name with ⟨-, hlength⟩ | ⟨-, hlength⟩ <;> omega)
    rw [tableStop, entryStart] at hstop
    omega

theorem isRuledOut_nameChecks (name : FourCC) (bytes : Bytes) (i : Nat) :
    ∀ check ∈ nameChecks name bytes i, check.fault.isRuledOut = false := by
  simp only [nameChecks, Bytes.textChecks, List.map_cons, List.map_nil, List.forall_mem_cons]
  exact ⟨rfl, rfl, rfl, rfl, fun _ hnil => absurd hnil List.not_mem_nil⟩

theorem isRuledOut_checks (name : FourCC) (bytes : Bytes) :
    ∀ check ∈ checks name bytes, check.fault.isRuledOut = false := by
  rw [checks, List.forall_mem_cons]
  refine ⟨rfl, ?_⟩
  split
  · exact fun _ hnil => absurd hnil List.not_mem_nil
  · rw [tableChecks, List.forall_mem_append, List.forall_mem_cons, List.forall_mem_singleton,
      List.forall_mem_flatMap]
    exact ⟨⟨rfl, rfl⟩, fun i _ => isRuledOut_nameChecks name bytes i⟩

/-- Reading accepts the well-formed payloads and returns what they say, element for element. For
any other payload it returns the fault of the first check in order that fails. That is never the
fault of a number that is missing, nor of a table that cannot be addressed. -/
theorem reads_exactly_wellFormed_payloads (name : FourCC) (bytes : Bytes) :
    ((∃ s, parse name bytes = .ok s) ↔ WellFormed name bytes) ∧
      (∀ s, parse name bytes = .ok s ↔ WellFormed name bytes ∧ s.IsContents name bytes) ∧
      (∀ fault, parse name bytes = .error fault ↔
        ∃ check, firstFailing? (checks name bytes) = some check ∧ check.fault = fault) ∧
      (∀ fault, parse name bytes = .error fault → fault.isRuledOut = false ∧
        (FormatFault.signature fault).family = .invalidChunk) ∧
      tableStop name bytes < UInt64.size := by
  have hfault : ∀ fault, parse name bytes = .error fault ↔
      ∃ check, firstFailing? (checks name bytes) = some check ∧ check.fault = fault := by
    intro fault
    rw [parse_eq_judge, judge_eq_error_iff]
  refine ⟨⟨?_, ?_⟩, fun s => parse_eq_ok_iff, hfault, ?_, tableStop_lt name bytes⟩
  · rintro ⟨s, hs⟩
    exact (parse_eq_ok_iff.1 hs).1
  · exact fun h => ⟨_, parse_eq_ok_iff.2 ⟨h, h.isContents⟩⟩
  · intro fault herror
    obtain ⟨check, hfirst, rfl⟩ := (hfault fault).1 herror
    exact ⟨isRuledOut_checks name bytes check (List.mem_of_find?_eq_some hfirst), rfl⟩

end Signature

end ShaderKit

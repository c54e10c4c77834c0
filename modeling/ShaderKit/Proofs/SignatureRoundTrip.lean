import ShaderKit.SignatureBuilding
import ShaderKit.SignatureParsing
import ShaderKit.Proofs.OrderedChecks
import ShaderKit.Proofs.TextBytes

/-!
# Reading back a written signature

The writer lays out header, table and names one behind the other, and an entry of the table holds
the length of all that is written before the name of its element. Read back in a chunk of short
entries, a written signature has the elements from which it was written, in their order; elements
of one name and elements without a name stay what they are.
-/

namespace ShaderKit

open Bytes

namespace Signature

variable {name : FourCC} {bytes : Bytes} {ds : List Description} {d : Description} {i : Nat}

def Description.element (d : Description) : SignatureElement where
  name := d.name
  index := d.index
  systemValue := .ofCode d.systemValue
  componentType := d.componentType
  register := d.register
  mask := .ofByte d.mask
  readWriteMask := .ofByte d.readWriteMask
  stream := d.stream.toUInt32

/-- An element says what its description says, but for the high bits of the masks. -/
structure IsDescribedBy (e : SignatureElement) (d : Description) : Prop where
  name_eq : e.name = d.name
  index_eq : e.index = d.index
  systemValue_eq : e.systemValue = .ofCode d.systemValue
  componentType_eq : e.componentType = d.componentType
  register_eq : e.register = d.register
  mask_eq : e.mask.toNat = d.mask.toNat % 2 ^ 4
  readWriteMask_eq : e.readWriteMask.toNat = d.readWriteMask.toNat % 2 ^ 4
  stream_eq : e.stream.toNat = d.stream.toNat

theorem isDescribedBy_element (d : Description) : IsDescribedBy d.element d where
  name_eq := rfl
  index_eq := rfl
  systemValue_eq := rfl
  componentType_eq := rfl
  register_eq := rfl
  mask_eq := ComponentMask.toNat_ofByte d.mask
  readWriteMask_eq := ComponentMask.toNat_ofByte d.readWriteMask
  stream_eq := UInt8.toNat_toUInt32 d.stream

/-- Where the name of an element is laid out: behind the header, the table and the names before
it. -/
def writtenNameOffset (ds : List Description) (i : Nat) : Nat :=
  headerLength + 24 * ds.length + ((ds.take i).flatMap nameBytes).length

/-- An element is read from its table entry and from its name, wherever these stand behind the
header. -/
theorem readElement_of_slices (hshort : name.hasLongEntries = false) {entry base offset : Nat}
    (hentry : bytes.slice base 24 = entryBytes d offset)
    (hname : bytes.slice offset (nameBytes d).length = nameBytes d)
    (hnul : '\x00' ∉ d.name.toList) (hheader : headerLength ≤ offset) (hoffset : offset < 2 ^ 32) :
    readElement name bytes entry base = .ok d.element := by
  have hpart : ∀ k length, k + length ≤ 24 →
      bytes.slice (base + k) length = (entryBytes d offset).slice k length :=
    fun _ _ hle => slice_of_slice_eq hentry hle
  have hnameOffset := readDword_of_slice_eq "semantic_name_offset" (hpart 0 4 (by decide))
  have hindex := readDword_of_slice_eq "semantic_index" (hpart 4 4 (by decide))
  have hsystemValue := readDword_of_slice_eq "system_value_type" (hpart 8 4 (by decide))
  have hcomponentType := readDword_of_slice_eq "component_type" (hpart 12 4 (by decide))
  have hregister := readDword_of_slice_eq "register" (hpart 16 4 (by decide))
  have hmask := readByte_of_slice_eq "mask" (hpart 20 1 (by decide))
  have hreadWriteMask := readByte_of_slice_eq "read_write_mask" (hpart 21 1 (by decide))
  have hstream := readByte_of_slice_eq "stream" (hpart 22 1 (by decide))
  have htext := readText_of_slice "semantic_name" hnul hname
  have hnat : (UInt32.ofNat offset).toNat = offset := UInt32.toNat_ofNat_of_lt' hoffset
  simp only [readElement, readElementField, hnameOffset, hindex, hsystemValue, hcomponentType,
    hregister, hmask, hreadWriteMask, hstream, hnat, htext, hshort, require_of hheader,
    Except.mapError, bind, Except.bind, Functor.map, Except.map, pure, Except.pure]
  rfl

theorem slice_tableBytes (offset : Nat) (ds : List Description) (tail : Bytes)
    (h : i < ds.length) :
    slice (tableBytes offset ds ++ tail) (24 * i) 24 =
      entryBytes ds[i] (offset + ((ds.take i).flatMap nameBytes).length) := by
  induction ds generalizing offset i with
  | nil => cases h
  | cons d ds ih =>
    rw [tableBytes, List.append_assoc]
    cases i with
    | zero => exact slice_append_left (entryBytes d offset) _
    | succ i =>
      have hrest := ih (offset + (nameBytes d).length) (Nat.lt_of_succ_lt_succ h)
      have hbase : 24 * (i + 1) = (entryBytes d offset).length + 24 * i := by
        rw [length_entryBytes]
        omega
      rw [hbase, slice_append_right, hrest, List.getElem_cons_succ, List.take_succ_cons,
        List.flatMap_cons, List.length_append, Nat.add_assoc]

section Written

variable (h : i < ds.length)

theorem build_eq (ds : List Description) :
    build ds = ofDwords [UInt32.ofNat ds.length, 8] ++
      (tableBytes (headerLength + 24 * ds.length) ds ++ (ds.flatMap nameBytes ++ [])) := by
  simp only [build, List.append_assoc, List.append_nil]
  rfl

theorem length_build (ds : List Description) :
    (build ds).length =
      headerLength + 24 * ds.length + (ds.flatMap nameBytes).length := by
  simp only [build_eq, List.length_append, length_ofDwords, length_tableBytes, List.append_nil,
    Nat.add_assoc]
  rfl

include h

theorem slice_writtenEntry :
    (build ds).slice (headerLength + 24 * i) 24 = entryBytes ds[i] (writtenNameOffset ds i) := by
  rw [build_eq]
  exact (slice_append_right (ofDwords [UInt32.ofNat ds.length, 8]) _ _ _).trans
    (slice_tableBytes _ ds _ h)

theorem slice_writtenName :
    (build ds).slice (writtenNameOffset ds i) (nameBytes ds[i]).length = nameBytes ds[i] := by
  have hoffset : writtenNameOffset ds i = (ofDwords [UInt32.ofNat ds.length, 8]).length +
      ((tableBytes (headerLength + 24 * ds.length) ds).length +
        ((ds.take i).flatMap nameBytes).length) := by
    rw [length_tableBytes, ← Nat.add_assoc]
    rfl
  rw [build_eq, hoffset, slice_append_right, slice_append_right, slice_flatMap nameBytes h]

/-- The element whose entry and name were written at their places is read from there. -/
theorem readElement_build (hshort : name.hasLongEntries = false)
    (hnul : '\x00' ∉ ds[i].name.toList) (hlength : (build ds).length < 2 ^ 32) :
    readElement name (build ds) i (headerLength + i * 24) = .ok ds[i].element := by
  have hname := slice_writtenName h
  have hle := le_of_slice_eq hname (by simp [nameBytes])
  rw [Nat.mul_comm i 24]
  refine readElement_of_slices hshort (slice_writtenEntry h) hname hnul ?_ (by omega)
  rw [writtenNameOffset]
  omega

end Written

/-- A signature is read from its header and the elements of its table. -/
theorem parse_of_readElement {count table : UInt32} {es : List SignatureElement}
    (hcount : bytes.slice 0 4 = ofDword count) (htable : bytes.slice 4 4 = ofDword table)
    (hheader : headerLength ≤ table.toNat)
    (hstop : table.toNat + count.toNat * elementLength name ≤ bytes.length)
    (hbound : bytes.length < 2 ^ 32) (hes : es.length = count.toNat)
    (hread : ∀ i, (h : i < es.length) →
      readElement name bytes i (table.toNat + i * elementLength name) = .ok es[i]) :
    parse name bytes = .ok ⟨es⟩ := by
  have hcountRead := readDword_of_slice_eq "param_count" hcount
  have htableRead := readDword_of_slice_eq "param_offset" htable
  have hlength : headerLength ≤ bytes.length := by omega
  have hstart : table.toNat + count.toNat * elementLength name < UInt64.size := by
    have hsize : 2 ^ 32 ≤ UInt64.size := by decide
    omega
  have helements : (List.range count.toNat).mapM (fun entry =>
      readElement name bytes entry (table.toNat + entry * elementLength name)) = .ok es := by
    rw [← hes]
    exact mapM_range_eq_ok hread
  simp only [parse, require_of hlength, hcountRead, htableRead, require_of hheader,
    require_of hstart, require_of hstop, helements, Except.mapError, bind, Except.bind, pure,
    Except.pure]
  split
  · next hzero =>
    rw [hzero] at hes
    rw [List.length_eq_zero_iff.1 hes]
    rfl
  · rfl

theorem elementLength_eq (hshort : name.hasLongEntries = false) : elementLength name = 24 := by
  rw [elementLength, hshort]
  rfl

/-- A written signature that fits into 32 bits is read as the elements that were described, in the
chunks of short entries. No name may contain the character zero, which ends it. -/
theorem parse_build_isDescribedBy (name : FourCC) (ds : List Description)
    (hshort : name.fourth ≠ '1'.toUInt8) (hnul : ∀ d ∈ ds, '\x00' ∉ d.name.toList)
    (hlength : (build ds).length < 2 ^ 32) :
    ∃ s, parse name (build ds) = .ok s ∧ List.Forall₂ IsDescribedBy s.elements ds := by
  have hentries : name.hasLongEntries = false := by
    rw [FourCC.hasLongEntries, beq_eq_false_iff_ne]
    exact hshort
  have hall := length_build ds
  have hcount : (UInt32.ofNat ds.length).toNat = ds.length :=
    UInt32.toNat_ofNat_of_lt' (by simp only [UInt32.size]; omega)
  refine ⟨⟨ds.map Description.element⟩, ?_, ?_⟩
  · have hcountBytes : (build ds).slice 0 4 = ofDword (UInt32.ofNat ds.length) := by
      rw [build_eq]
      rfl
    have htableBytes : (build ds).slice 4 4 = ofDword 8 := by
      rw [build_eq]
      rfl
    apply parse_of_readElement hcountBytes htableBytes
    · exact Nat.le_refl 8
    · rw [elementLength_eq hentries, hcount, hall]
      change 8 + ds.length * 24 ≤ 8 + 24 * ds.length + _
      omega
    · exact hlength
    · rw [hcount, List.length_map]
    · intro i hi
      rw [List.length_map] at hi
      rw [elementLength_eq hentries, List.getElem_map]
      exact readElement_build hi hentries (hnul _ (List.getElem_mem hi)) hlength
  · rw [List.forall₂_map_left_iff, List.forall₂_same]
    exact fun d _ => isDescribedBy_element d

/-- Two elements of one name with an element without a name between them. The high bits of their
masks are set. -/
def repeatedNames : List Description :=
  [⟨"Tiefe·Ä", 0, 65, 3, 1, 0xF7, 0x83, 255⟩, ⟨"", 4, 1234, 1, 2, 0x0F, 0x10, 0⟩,
    ⟨"Tiefe·Ä", 1, 65, 3, 1, 0x08, 0x00, 2⟩]

theorem parse_repeatedNames :
    FourCC.osgn.fourth ≠ '1'.toUInt8 ∧ (∀ d ∈ repeatedNames, '\x00' ∉ d.name.toList) ∧
      (build repeatedNames).length < 2 ^ 32 ∧
      ∃ s, parse .osgn (build repeatedNames) = .ok s ∧
        List.Forall₂ IsDescribedBy s.elements repeatedNames := by
  have hshort : FourCC.osgn.fourth ≠ '1'.toUInt8 := by decide
  have hnul : ∀ d ∈ repeatedNames, '\x00' ∉ d.name.toList := by decide
  have hlength : (build repeatedNames).length < 2 ^ 32 := by decide
  exact ⟨hshort, hnul, hlength, parse_build_isDescribedBy .osgn repeatedNames hshort hnul hlength⟩

end Signature

end ShaderKit

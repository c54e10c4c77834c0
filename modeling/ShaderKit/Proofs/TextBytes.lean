import ShaderKit.Proofs.ByteSlices

/-!
# Texts as bytes

The UTF-8 bytes of a text say what the text is. Only the character zero has a zero byte in its
encoding, so that a zero byte can end any text without that character: wherever such a text stands
with a zero byte behind it, it is read back.
-/

namespace ShaderKit.Bytes

variable {bytes : Bytes} {offset : Nat} {s t : String}

theorem toText?_ofText (s : String) : toText? (ofText s) = some s := by
  have hbytes : (ofText s).toByteArray = s.toByteArray :=
    ByteArray.ext (List.data_toByteArray.trans (Array.toArray_toList))
  rw [toText?, hbytes, String.fromUTF8?, dif_pos s.isValidUTF8]
  rfl

theorem toText?_eq_some_iff : toText? bytes = some s ↔ ofText s = bytes := by
  constructor
  · intro h
    rw [toText?, String.fromUTF8?] at h
    split at h
    · rw [← Option.some.inj h, ofText, String.fromUTF8]
      exact congrArg Array.toList List.data_toByteArray
    · cases h
  · rintro rfl
    exact toText?_ofText s

theorem isSome_toText?_iff : (toText? bytes).isSome ↔ bytes.toByteArray.IsValidUTF8 := by
  rw [toText?, String.fromUTF8?]
  split <;> simp [*]

theorem ofText_injective (h : ofText s = ofText t) : s = t :=
  Option.some.inj ((toText?_ofText s).symm.trans (h ▸ toText?_ofText t))

theorem ofText_eq_flatMap (s : String) :
    ofText s = s.toList.flatMap String.utf8EncodeChar := by
  have hchars : s.toByteArray = s.toList.utf8Encode := by
    rw [← String.toByteArray_ofList, String.ofList_toList]
  rw [ofText, hchars, List.utf8Encode, List.data_toByteArray, List.toList_toArray]

theorem zero_notMem_utf8EncodeChar {c : Char} (h : c ≠ '\x00') :
    0 ∉ String.utf8EncodeChar c := by
  -- In an encoding of several bytes, each byte has a marker bit that is not zero.
  have hmarked : ∀ payload marker : UInt8, marker ≠ 0 → 0 ≠ payload ||| marker := by
    intro payload marker hmarker hzero
    exact hmarker (UInt8.or_eq_zero_iff.1 hzero.symm).2
  rcases Char.utf8Size_eq c with hsize | hsize | hsize | hsize
  · have hle := UInt32.le_iff_toNat_le.1 (Char.utf8Size_eq_one_iff.1 hsize)
    rw [String.utf8EncodeChar_eq_singleton hsize, List.mem_singleton]
    intro hzero
    have hbyte := congrArg UInt8.toNat hzero
    rw [UInt32.toNat_toUInt8] at hbyte
    apply h
    apply Char.ext
    apply UInt32.toNat_inj.1
    change c.val.toNat = 0
    change c.val.toNat ≤ 127 at hle
    change 0 = _ at hbyte
    omega
  · rw [String.utf8EncodeChar_eq_cons_cons hsize]
    simp [hmarked]
  · rw [String.utf8EncodeChar_eq_cons_cons_cons hsize]
    simp [hmarked]
  · rw [String.utf8EncodeChar_eq_cons_cons_cons_cons hsize]
    simp [hmarked]

theorem zero_notMem_ofText (h : '\x00' ∉ s.toList) : 0 ∉ ofText s := by
  rw [ofText_eq_flatMap, List.mem_flatMap]
  rintro ⟨c, hc, hzero⟩
  exact zero_notMem_utf8EncodeChar (fun hnul => h (hnul ▸ hc)) hzero

/-- A text that ends with a zero byte is read back where it stands. -/
theorem readText_of_slice (field : String) (hnul : '\x00' ∉ s.toList)
    (h : bytes.slice offset (ofText s ++ [0]).length = ofText s ++ [0]) :
    bytes.readText field offset = .ok s := by
  have hoffset : ¬ bytes.length < offset := by
    have hle := le_of_slice_eq h (by simp)
    omega
  obtain ⟨rest, hdrop⟩ : ∃ rest, bytes.drop offset = ofText s ++ 0 :: rest := by
    have hsplit := List.take_append_drop (ofText s ++ [0]).length (bytes.drop offset)
    rw [← slice, h, List.append_assoc] at hsplit
    exact ⟨_, hsplit.symm⟩
  have hnonzero : ∀ b ∈ ofText s, (b != 0) = true := by
    intro b hb
    rw [bne_iff_ne]
    rintro rfl
    exact zero_notMem_ofText hnul hb
  have hterminated : (bytes.drop offset).contains 0 = true := by
    rw [hdrop]
    simp
  have hprefix : (bytes.drop offset).takeWhile (· != 0) = ofText s := by
    rw [hdrop, List.takeWhile_append_of_pos hnonzero]
    simp
  simp only [readText, if_neg hoffset, hterminated, if_true, hprefix, toText?_ofText]

end ShaderKit.Bytes

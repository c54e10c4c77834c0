/-!
# Byte strings and the fields read from them

Files are lists of bytes. Numbers in them are dwords of four bytes, least significant byte
first, and texts are UTF-8 ended by a zero byte. A field is read at an offset from the
start; a read that leaves the bytes is a fault that names the field.
-/

namespace ShaderKit

abbrev Bytes := List UInt8

namespace Bytes

/-- The dword of four bytes, least significant first. -/
def joinDword (b₀ b₁ b₂ b₃ : UInt8) : UInt32 :=
  UInt32.ofNat (b₀.toNat + b₁.toNat <<< 8 + b₂.toNat <<< 16 + b₃.toNat <<< 24)

/-- The four bytes of a dword, least significant first. -/
def ofDword (w : UInt32) : Bytes :=
  [UInt8.ofNat w.toNat, UInt8.ofNat (w.toNat >>> 8), UInt8.ofNat (w.toNat >>> 16),
    UInt8.ofNat (w.toNat >>> 24)]

/-- The eight bytes of a number below `2 ^ 64`, least significant first. -/
def ofQword (n : Nat) : Bytes := ofDword (UInt32.ofNat n) ++ ofDword (UInt32.ofNat (n >>> 32))

def ofDwords (ws : List UInt32) : Bytes := ws.flatMap ofDword

/-- The whole dwords of a byte string; one to three bytes left over at the end are dropped. -/
def toDwords : Bytes → List UInt32
  | b₀ :: b₁ :: b₂ :: b₃ :: rest => joinDword b₀ b₁ b₂ b₃ :: toDwords rest
  | _ => []

def ofText (s : String) : Bytes := s.toByteArray.data.toList

def toText? (bytes : Bytes) : Option String := String.fromUTF8? bytes.toByteArray

theorem joinDword_ofDword (w : UInt32) :
    joinDword (UInt8.ofNat w.toNat) (UInt8.ofNat (w.toNat >>> 8))
      (UInt8.ofNat (w.toNat >>> 16)) (UInt8.ofNat (w.toNat >>> 24)) = w := by
  apply UInt32.toNat_inj.1
  have := w.toNat_lt
  simp only [joinDword, UInt8.toNat_ofNat', UInt32.toNat_ofNat']
  omega

@[simp] theorem length_ofDword (w : UInt32) : (ofDword w).length = 4 := rfl

@[simp] theorem length_ofQword (n : Nat) : (ofQword n).length = 8 := rfl

@[simp] theorem length_ofDwords (ws : List UInt32) : (ofDwords ws).length = 4 * ws.length := by
  induction ws with
  | nil => rfl
  | cons w ws ih =>
    simp only [ofDwords, List.flatMap_cons, List.length_append, length_ofDword,
      List.length_cons] at ih ⊢
    omega

theorem length_toDwords (bytes : Bytes) : (toDwords bytes).length = bytes.length / 4 := by
  fun_induction toDwords bytes with
  | case1 b₀ b₁ b₂ b₃ rest ih => simp only [List.length_cons, ih]; omega
  | case2 bytes h =>
    match bytes, h with
    | [], _ | [_], _ | [_, _], _ | [_, _, _], _ => simp
    | b₀ :: b₁ :: b₂ :: b₃ :: rest, h => exact absurd rfl (h b₀ b₁ b₂ b₃ rest)

/-- Reading the dwords gives back those that were written, whatever shorter bytes follow. -/
theorem toDwords_ofDwords_append (ws : List UInt32) (tail : Bytes) :
    toDwords (ofDwords ws ++ tail) = ws ++ toDwords tail := by
  induction ws with
  | nil => rfl
  | cons w ws ih =>
    simp only [ofDwords, List.flatMap_cons, List.append_assoc] at ih ⊢
    simp only [ofDword, List.cons_append, List.nil_append, toDwords, joinDword_ofDword, ih]

def dwordAt? (bytes : Bytes) (offset : Nat) : Option UInt32 :=
  match bytes.drop offset with
  | b₀ :: b₁ :: b₂ :: b₃ :: _ => some (joinDword b₀ b₁ b₂ b₃)
  | _ => none

theorem dwordAt?_isSome_iff (bytes : Bytes) (offset : Nat) :
    (bytes.dwordAt? offset).isSome ↔ offset + 4 ≤ bytes.length := by
  have hlen := List.length_drop (i := offset) (l := bytes)
  unfold dwordAt?
  split
  · next h => rw [h] at hlen; simp only [List.length_cons] at hlen; simp; omega
  · next h =>
    match hd : bytes.drop offset, h with
    | [], _ | [_], _ | [_, _], _ | [_, _, _], _ => rw [hd] at hlen; simp at hlen ⊢; omega
    | b₀ :: b₁ :: b₂ :: b₃ :: rest, h => exact absurd rfl (h b₀ b₁ b₂ b₃ rest)

theorem dwordAt?_append (front : Bytes) (w : UInt32) (tail : Bytes) :
    dwordAt? (front ++ (ofDword w ++ tail)) front.length = some w := by
  simp only [dwordAt?, List.drop_left, ofDword, List.cons_append, joinDword_ofDword]

end Bytes

inductive FieldFault where
  | dwordOutside (field : String) (offset length : Nat)
  | byteOutside (field : String) (offset length : Nat)
  | textOutside (field : String) (offset length : Nat)
  | textUnterminated (field : String) (offset : Nat)
  | textNotUtf8 (field : String) (offset : Nat)
  deriving DecidableEq, Repr

def FieldFault.message : FieldFault → String
  | dwordOutside field offset length =>
    s!"need 4 bytes for {field} at {offset}..{offset + 4}, but length is {length}"
  | byteOutside field offset length =>
    s!"need 1 byte for {field} at {offset}, but length is {length}"
  | textOutside field offset length => s!"{field} offset {offset} is outside length {length}"
  | textUnterminated field offset => s!"{field} at offset {offset} is missing a null terminator"
  | textNotUtf8 field offset => s!"{field} at offset {offset} is not valid UTF-8"

namespace Bytes

def readDword (bytes : Bytes) (field : String) (offset : Nat) : Except FieldFault UInt32 :=
  match bytes.dwordAt? offset with
  | some w => .ok w
  | none => .error (.dwordOutside field offset bytes.length)

def readByte (bytes : Bytes) (field : String) (offset : Nat) : Except FieldFault UInt8 :=
  match bytes[offset]? with
  | some b => .ok b
  | none => .error (.byteOutside field offset bytes.length)

/-- Reads the text that starts at an offset and ends before the first zero byte after it. -/
def readText (bytes : Bytes) (field : String) (offset : Nat) : Except FieldFault String :=
  if bytes.length < offset then .error (.textOutside field offset bytes.length)
  else
    let tail := bytes.drop offset
    if tail.contains 0 then
      match toText? (tail.takeWhile (· != 0)) with
      | some s => .ok s
      | none => .error (.textNotUtf8 field offset)
    else .error (.textUnterminated field offset)

section Inside

variable {bytes : Bytes} {offset : Nat}

theorem dwordAt?_of_le (h : offset + 4 ≤ bytes.length) :
    bytes.dwordAt? offset = some ((bytes.dwordAt? offset).getD 0) := by
  obtain ⟨w, hw⟩ := Option.isSome_iff_exists.1 ((dwordAt?_isSome_iff bytes offset).2 h)
  rw [hw, Option.getD_some]

theorem getElem?_of_lt (h : offset < bytes.length) :
    bytes[offset]? = some (bytes[offset]?.getD 0) := by
  rw [List.getElem?_eq_getElem h, Option.getD_some]

theorem readDword_of_le (field : String) (h : offset + 4 ≤ bytes.length) :
    bytes.readDword field offset = .ok ((bytes.dwordAt? offset).getD 0) := by
  rw [readDword, dwordAt?_of_le h]
  rfl

theorem readByte_of_lt (field : String) (h : offset < bytes.length) :
    bytes.readByte field offset = .ok (bytes[offset]?.getD 0) := by
  rw [readByte, getElem?_of_lt h]
  rfl

end Inside

end Bytes

end ShaderKit

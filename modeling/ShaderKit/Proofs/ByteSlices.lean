import Mathlib.Algebra.Ring.Nat
import ShaderKit.Bytes

/-!
# Stretches of a byte string

What is read at an offset depends on the stretch of bytes there and on nothing else: a dword and
a four-character code on the four bytes at their offset. Bytes that lie in front of a stretch or
behind it do not matter, so that two byte strings with a common beginning say the same wherever a
stretch lies inside of it.
-/

namespace ShaderKit.Bytes

/-- The stretch of a given length at an offset, as far as there are bytes. -/
def slice (bytes : Bytes) (offset length : Nat) : Bytes := (bytes.drop offset).take length

/-- The number that the dword at an offset stands for, and zero if it is not there. -/
def dword (bytes : Bytes) (offset : Nat) : Nat := ((bytes.dwordAt? offset).getD 0).toNat

variable {bytes bytes' front tail : Bytes} {offset offset' length n : Nat} {w : UInt32}

theorem length_slice (h : offset + length ≤ bytes.length) :
    (bytes.slice offset length).length = length := by
  rw [slice, List.length_take, List.length_drop]
  omega

/-- A stretch behind the beginning of a byte string is a stretch of what follows. -/
theorem slice_append_right (front rest : Bytes) (offset length : Nat) :
    slice (front ++ rest) (front.length + offset) length = rest.slice offset length := by
  rw [slice, slice, ← List.drop_drop, List.drop_left]

/-- A stretch that is not empty lies inside its byte string. -/
theorem le_of_slice_eq {stretch : Bytes} (h : bytes.slice offset stretch.length = stretch)
    (hpos : 0 < stretch.length) : offset + stretch.length ≤ bytes.length := by
  have hlength := congrArg List.length h
  rw [slice, List.length_take, List.length_drop] at hlength
  omega

theorem slice_append_left (mid tail : Bytes) : slice (mid ++ tail) 0 mid.length = mid := by
  rw [slice, List.drop_zero, List.take_left]

/-- What was written for one item of a list stands behind what was written for the items before. -/
theorem slice_flatMap {α : Type} {items : List α} {i : Nat} (write : α → Bytes)
    (h : i < items.length) (tail : Bytes) :
    slice (items.flatMap write ++ tail) ((items.take i).flatMap write).length
      (write items[i]).length = write items[i] := by
  induction items generalizing i with
  | nil => cases h
  | cons item items ih =>
    rw [List.flatMap_cons, List.append_assoc]
    cases i with
    | zero => exact slice_append_left (write item) _
    | succ i =>
      rw [List.take_succ_cons, List.flatMap_cons, List.length_append, slice_append_right]
      exact ih (Nat.lt_of_succ_lt_succ h)

theorem slice_ofDwords {ws : List UInt32} {i : Nat} (h : i < ws.length) (tail : Bytes) :
    slice (ofDwords ws ++ tail) (4 * i) 4 = ofDword ws[i] := by
  have hlength : ((ws.take i).flatMap ofDword).length = 4 * i := by
    rw [← ofDwords, length_ofDwords, List.length_take, Nat.min_eq_left (Nat.le_of_lt h)]
  have hslice := slice_flatMap ofDword h tail
  rw [hlength] at hslice
  exact hslice

theorem slice_slice (h : offset' + length ≤ n) :
    (bytes.slice offset n).slice offset' length = bytes.slice (offset + offset') length := by
  rw [slice, slice, slice, List.drop_take, List.take_take, List.drop_drop,
    Nat.min_eq_left (by omega)]

theorem slice_of_slice_eq {stretch : Bytes} (h : bytes.slice offset n = stretch)
    (hle : offset' + length ≤ n) :
    bytes.slice (offset + offset') length = stretch.slice offset' length := by
  rw [← h, slice_slice hle]

/-- A stretch inside the beginning of a byte string is the same stretch of the beginning. -/
theorem slice_take (h : offset + length ≤ n) :
    slice (bytes.take n) offset length = bytes.slice offset length := by
  rw [slice, slice, List.drop_take, List.take_take, Nat.min_eq_left (by omega)]

theorem slice_eq_of_take_eq (hsame : bytes.take n = bytes'.take n) (h : offset + length ≤ n) :
    bytes.slice offset length = bytes'.slice offset length := by
  rw [← slice_take h, hsame, slice_take h]

theorem dwordAt?_slice (bytes : Bytes) (offset : Nat) :
    (bytes.slice offset 4).dwordAt? 0 = bytes.dwordAt? offset := by
  rw [slice, dwordAt?, dwordAt?, List.drop_zero]
  rcases bytes.drop offset with _ | ⟨a, _ | ⟨b, _ | ⟨c, _ | ⟨d, rest⟩⟩⟩⟩ <;> rfl

theorem dwordAt?_eq_of_slice_eq (h : bytes.slice offset 4 = bytes'.slice offset' 4) :
    bytes.dwordAt? offset = bytes'.dwordAt? offset' := by
  rw [← dwordAt?_slice, h, dwordAt?_slice]

theorem dwordAt?_of_slice_eq (h : bytes.slice offset 4 = ofDword w) :
    bytes.dwordAt? offset = some w := by
  rw [← dwordAt?_slice, h]
  exact congrArg some (joinDword_ofDword w)

theorem readDword_of_slice_eq (field : String) (h : bytes.slice offset 4 = ofDword w) :
    bytes.readDword field offset = .ok w := by
  simp only [readDword, dwordAt?_of_slice_eq h]

theorem readByte_of_slice_eq (field : String) {b : UInt8} (h : bytes.slice offset 1 = [b]) :
    bytes.readByte field offset = .ok b := by
  have hget := congrArg List.head? h
  rw [slice, List.head?_take, if_neg Nat.one_ne_zero, List.head?_drop, List.head?_cons] at hget
  simp only [readByte, hget]

theorem dword_of_slice_eq (h : bytes.slice offset 4 = ofDword (UInt32.ofNat n))
    (hn : n < 2 ^ 32) : bytes.dword offset = n := by
  rw [dword, dwordAt?_of_slice_eq h, Option.getD_some, UInt32.toNat_ofNat_of_lt' hn]

theorem dword_eq_of_slice_eq (h : bytes.slice offset 4 = bytes'.slice offset' 4) :
    bytes.dword offset = bytes'.dword offset' := by
  rw [dword, dword, dwordAt?_eq_of_slice_eq h]

theorem dword_take (h : offset + 4 ≤ n) : dword (bytes.take n) offset = bytes.dword offset :=
  dword_eq_of_slice_eq (slice_take h)

theorem dword_eq_of_take_eq (hsame : bytes.take n = bytes'.take n) (h : offset + 4 ≤ n) :
    bytes.dword offset = bytes'.dword offset :=
  dword_eq_of_slice_eq (slice_eq_of_take_eq hsame h)

end ShaderKit.Bytes

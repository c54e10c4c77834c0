import Mathlib.Data.List.Forall2
import ShaderKit.FourCC

/-!
# Texts of chunk names

A byte of a name that cannot be seen is written as `\x` and two digits, but a backslash stands for
itself, so that the text of one byte can look like that of four others. What decides is that there
are four bytes and no more: where a backslash seen in one name would have to begin an escape of
another one, all bytes behind it are used up by the escape, and the text ends too early.
-/

namespace ShaderKit.FourCC

/-- A byte that stands for itself in a text. The space is not one. -/
def IsVisible (b : UInt8) : Prop := 0x21 ≤ b ∧ b ≤ 0x7e

/-- The characters that stand for a byte: the character of that number, or else `\x` and the two
hexadecimal digits of the number. -/
inductive IsGlyph (b : UInt8) : List Char → Prop
  | visible {c : Char} (hb : IsVisible b) (hcode : c.toNat = b.toNat) : IsGlyph b [c]
  | escaped {high low : Fin 16} {c d : Char} (hb : ¬ IsVisible b)
      (hdigits : b.toNat = 16 * high + low) (hhigh : Nat.digitChar high = c)
      (hlow : Nat.digitChar low = d) : IsGlyph b ['\\', 'x', c, d]

variable {b b' : UInt8} {bs bs' : List UInt8} {cs : List Char}

theorem isGlyph_glyph (b : UInt8) : IsGlyph b (glyph b) := by
  rw [glyph]
  split
  · next h => exact .visible h rfl
  · next h =>
    have hb := b.toNat_lt
    let high : Fin 16 := ⟨b.toNat / 16, by omega⟩
    let low : Fin 16 := ⟨b.toNat % 16, by omega⟩
    have hdigits : b.toNat = 16 * high + low := (Nat.div_add_mod b.toNat 16).symm
    exact .escaped h hdigits rfl rfl

namespace IsGlyph

theorem length_of_isVisible (h : IsGlyph b cs) (hb : IsVisible b) : cs.length = 1 := by
  cases h with
  | visible => rfl
  | escaped hhidden => exact absurd hb hhidden

theorem length_of_not_isVisible (h : IsGlyph b cs) (hb : ¬ IsVisible b) : cs.length = 4 := by
  cases h with
  | visible hvisible => exact absurd hvisible hb
  | escaped => rfl

theorem length_pos (h : IsGlyph b cs) : 0 < cs.length := by
  cases h <;> exact Nat.succ_pos _

theorem byte_eq (h : IsGlyph b cs) (h' : IsGlyph b' cs) : b = b' := by
  have hdigit : ∀ m n : Fin 16, Nat.digitChar m = Nat.digitChar n → m = n := by decide
  apply UInt8.toNat_inj.1
  cases h with
  | visible _ hcode =>
    cases h' with
    | visible _ hcode' => exact hcode.symm.trans hcode'
  | escaped _ hdigits hhigh hlow =>
    cases h' with
    | escaped _ hdigits' hhigh' hlow' =>
      obtain rfl := hdigit _ _ (hhigh.trans hhigh'.symm)
      obtain rfl := hdigit _ _ (hlow.trans hlow'.symm)
      exact hdigits.trans hdigits'.symm

theorem space_notMem (h : IsGlyph b cs) : ' ' ∉ cs := by
  cases h with
  | @visible c hb hcode =>
    rw [List.mem_singleton]
    rintro rfl
    have hlow := UInt8.le_iff_toNat_le.1 hb.1
    rw [← hcode] at hlow
    exact absurd hlow (by decide)
  | escaped _ _ hhigh hlow =>
    simp only [List.mem_cons, List.not_mem_nil, or_false, not_or]
    exact ⟨by decide, by decide,
      fun hc => Nat.digitChar_ne ' ' (by decide) (hhigh.trans hc.symm),
      fun hd => Nat.digitChar_ne ' ' (by decide) (hlow.trans hd.symm)⟩

end IsGlyph

theorem length_le_length_glyphs (bs : List UInt8) : bs.length ≤ (bs.flatMap glyph).length := by
  induction bs with
  | nil => exact Nat.le_refl 0
  | cons b bs ih =>
    have hpos := (isGlyph_glyph b).length_pos
    rw [List.flatMap_cons, List.length_append, List.length_cons]
    omega

/-- A text escapes none of its bytes if it begins with as many characters other than the backslash
as there are bytes. -/
theorem length_glyphs_of_prefix {front rest : List Char} (h : bs.flatMap glyph = front ++ rest)
    (hfront : '\\' ∉ front) (hlength : bs.length ≤ front.length) :
    (bs.flatMap glyph).length = bs.length := by
  induction bs generalizing front with
  | nil => rfl
  | cons b bs ih =>
    obtain ⟨c, front, rfl⟩ := List.exists_cons_of_length_pos
      (Nat.lt_of_lt_of_le (Nat.succ_pos bs.length) hlength)
    rw [List.mem_cons, not_or] at hfront
    rw [List.flatMap_cons] at h ⊢
    have hglyph := isGlyph_glyph b
    generalize glyph b = head at h hglyph ⊢
    cases hglyph with
    | visible =>
      have htail : bs.flatMap glyph = front ++ rest := (List.cons.inj h).2
      rw [List.length_append, ih htail hfront.2 (Nat.le_of_succ_le_succ hlength)]
      exact Nat.add_comm 1 bs.length
    | escaped => exact absurd (List.cons.inj h).1 hfront.1

/-- A backslash that stands for itself does not begin what looks like an escape, as long as no more
than three bytes follow it and the other text has as many. -/
theorem glyphs_ne_of_isVisible (hb : IsVisible b) (hb' : ¬ IsVisible b')
    (hlength : bs.length = bs'.length) (hthree : bs.length ≤ 3) :
    glyph b ++ bs.flatMap glyph ≠ glyph b' ++ bs'.flatMap glyph := by
  intro h
  have hglyph := isGlyph_glyph b
  have hglyph' := isGlyph_glyph b'
  generalize glyph b = head at h hglyph
  generalize glyph b' = head' at h hglyph'
  cases hglyph with
  | escaped hhidden => exact hhidden hb
  | visible =>
    cases hglyph' with
    | visible hvisible => exact hb' hvisible
    | @escaped high low c d _ _ hhigh hlow =>
      have htext : bs.flatMap glyph = ['x', c, d] ++ bs'.flatMap glyph := (List.cons.inj h).2
      have hfront : '\\' ∉ ['x', c, d] := by
        simp only [List.mem_cons, List.not_mem_nil, or_false, not_or]
        exact ⟨by decide, fun hc => Nat.digitChar_ne '\\' (by decide) (hhigh.trans hc.symm),
          fun hd => Nat.digitChar_ne '\\' (by decide) (hlow.trans hd.symm)⟩
      -- The first text has no characters left behind the digits, unless its bytes outnumber those
      -- of the second.
      have hunescaped := length_glyphs_of_prefix htext hfront hthree
      have htail := length_le_length_glyphs bs'
      have hlengths := congrArg List.length htext
      rw [List.length_append, hunescaped] at hlengths
      change _ = 3 + _ at hlengths
      omega

/-- Up to four bytes are known from their text, if it is known how many there are. -/
theorem eq_of_glyphs_eq (hlength : bs.length = bs'.length) (hfour : bs.length ≤ 4)
    (h : bs.flatMap glyph = bs'.flatMap glyph) : bs = bs' := by
  induction bs generalizing bs' with
  | nil => exact (List.eq_nil_of_length_eq_zero hlength.symm).symm
  | cons b bs ih =>
    obtain ⟨b', bs', rfl⟩ := List.exists_cons_of_length_eq_add_one hlength.symm
    have htails : bs.length = bs'.length := Nat.succ.inj hlength
    have hthree : bs.length ≤ 3 := Nat.le_of_succ_le_succ hfour
    have hglyph := isGlyph_glyph b
    have hglyph' := isGlyph_glyph b'
    rw [List.flatMap_cons, List.flatMap_cons] at h
    -- Glyphs can be cut off one by one because at each place both have the same length.
    have hheads : (glyph b).length = (glyph b').length := by
      by_cases hb : IsVisible b <;> by_cases hb' : IsVisible b'
      · rw [hglyph.length_of_isVisible hb, hglyph'.length_of_isVisible hb']
      · exact absurd h (glyphs_ne_of_isVisible hb hb' htails hthree)
      · exact absurd h.symm (glyphs_ne_of_isVisible hb' hb htails.symm (htails ▸ hthree))
      · rw [hglyph.length_of_not_isVisible hb, hglyph'.length_of_not_isVisible hb']
    obtain ⟨hhead, htail⟩ := List.append_inj h hheads
    have hbyte : b = b' := hglyph.byte_eq (hhead ▸ hglyph')
    exact congrArg₂ List.cons hbyte (ih htails (Nat.le_of_lt hfour) htail)

/-- Five bytes can share their text with five others. -/
example : [0x5c, 0x78, 0x30, 0x30, 0x00].flatMap glyph =
    [0x00, 0x5c, 0x78, 0x30, 0x30].flatMap glyph := by decide

theorem toList_text (f : FourCC) : f.text.toList = f.bytes.flatMap glyph :=
  String.toList_ofList

theorem eq_of_text_eq {f g : FourCC} (h : f.text = g.text) : f = g := by
  have hglyphs := congrArg String.toList h
  rw [toList_text, toList_text] at hglyphs
  exact bytes_injective (eq_of_glyphs_eq rfl (Nat.le_refl 4) hglyphs)

theorem space_notMem_text (f : FourCC) : ' ' ∉ f.text.toList := by
  rw [toList_text, List.mem_flatMap]
  rintro ⟨b, -, hspace⟩
  exact (isGlyph_glyph b).space_notMem hspace

/-- The text of a name is made of one glyph for each byte. -/
theorem exists_glyphs (f : FourCC) :
    ∃ glyphs, List.Forall₂ IsGlyph f.bytes glyphs ∧ f.text = String.ofList glyphs.flatten := by
  refine ⟨f.bytes.map glyph, ?_, congrArg String.ofList List.flatMap_def⟩
  rw [List.forall₂_map_right_iff, List.forall₂_same]
  exact fun b _ => isGlyph_glyph b

end ShaderKit.FourCC

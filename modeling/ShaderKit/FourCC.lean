import ShaderKit.Hexadecimal

/-!
# Four-character codes

A chunk of a container is named by four bytes, nearly always letters. Signature chunks come
in two spellings, the second of which ends in `1` and has longer entries.
-/

namespace ShaderKit

/-- The name of a chunk: four arbitrary bytes. -/
structure FourCC where
  first : UInt8
  second : UInt8
  third : UInt8
  fourth : UInt8
  deriving DecidableEq, Repr

namespace FourCC

def bytes (f : FourCC) : List UInt8 := [f.first, f.second, f.third, f.fourth]

@[simp] theorem length_bytes (f : FourCC) : f.bytes.length = 4 := rfl

theorem bytes_injective {f g : FourCC} (h : f.bytes = g.bytes) : f = g := by
  cases f; cases g; simpa [bytes] using h

def ofChars (a b c d : Char) : FourCC := ⟨a.toUInt8, b.toUInt8, c.toUInt8, d.toUInt8⟩

def dxbc : FourCC := ofChars 'D' 'X' 'B' 'C'

/-- Input signature. -/
def isgn : FourCC := ofChars 'I' 'S' 'G' 'N'
def isg1 : FourCC := ofChars 'I' 'S' 'G' '1'

/-- Output signature. -/
def osgn : FourCC := ofChars 'O' 'S' 'G' 'N'
def osg1 : FourCC := ofChars 'O' 'S' 'G' '1'

/-- Primitive signature. -/
def psgn : FourCC := ofChars 'P' 'S' 'G' 'N'
def psg1 : FourCC := ofChars 'P' 'S' 'G' '1'

/-- Patch constant signature. -/
def pcsg : FourCC := ofChars 'P' 'C' 'S' 'G'
def pcg1 : FourCC := ofChars 'P' 'C' 'G' '1'

/-- Program of shader model 4. -/
def shdr : FourCC := ofChars 'S' 'H' 'D' 'R'

/-- Program of shader model 5. -/
def shex : FourCC := ofChars 'S' 'H' 'E' 'X'

/-- The two spellings of each signature kind, the one with short entries first. -/
def signatureSpellings : List (FourCC × FourCC) :=
  [(isgn, isg1), (osgn, osg1), (psgn, psg1), (pcsg, pcg1)]

def signatureVariant? (f : FourCC) : Option FourCC :=
  signatureSpellings.findSome? fun (short, long) =>
    if f = short then some long else if f = long then some short else none

/-- Whether a signature of this name has the longer entries: its name ends in `1`. -/
def hasLongEntries (f : FourCC) : Bool := f.fourth == '1'.toUInt8

/-- A byte as a visible ASCII character, or else as `\x` and two hexadecimal digits. -/
def glyph (b : UInt8) : List Char :=
  if 0x21 ≤ b ∧ b ≤ 0x7e then [Char.ofUInt8 b] else '\\' :: 'x' :: Hexadecimal.digits b

def text (f : FourCC) : String := String.ofList (f.bytes.flatMap glyph)

def debugText (f : FourCC) : String := s!"FourCC(\"{f.text}\")"

end FourCC

end ShaderKit

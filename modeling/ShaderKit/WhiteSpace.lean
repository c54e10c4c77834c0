/-!
# White space

The characters of the Unicode property `White_Space`, and texts without such characters at
their ends.
-/

namespace ShaderKit.WhiteSpace

/-- The characters of the property as ranges of code points, both ends included. -/
def ranges : List (Nat × Nat) :=
  [(0x09, 0x0d), (0x20, 0x20), (0x85, 0x85), (0xa0, 0xa0), (0x1680, 0x1680), (0x2000, 0x200a),
    (0x2028, 0x2029), (0x202f, 0x202f), (0x205f, 0x205f), (0x3000, 0x3000)]

def isSpace (c : Char) : Bool := ranges.any fun (low, high) => low ≤ c.toNat && c.toNat ≤ high

/-- A text without white space at its ends. -/
def trim (cs : List Char) : List Char :=
  ((cs.dropWhile isSpace).reverse.dropWhile isSpace).reverse

/-- Nothing is dropped from a text that does not start with white space. -/
theorem dropWhile_eq_self {cs : List Char} (first : ∀ c ∈ cs.head?, isSpace c = false) :
    cs.dropWhile isSpace = cs := by
  cases cs with
  | nil => rfl
  | cons c cs => simp [first c (by simp)]

end ShaderKit.WhiteSpace

/-!
# Tokens

A shader program is a list of 32-bit tokens that are packed with bit fields. Long things are
chained: bit 31 of a token says whether one more extended token follows it.
-/

namespace ShaderKit

abbrev Token := UInt32

namespace Token

/-- The number in the `width` bits from bit `low` upwards. -/
def field (t : Token) (low width : Nat) : Nat := t.toNat / (1 <<< low) % (1 <<< width)

def flag (t : Token) (bit : Nat) : Bool := t.field bit 1 == 1

def isExtended (t : Token) : Bool := t.flag 31

theorem field_lt (t : Token) (low width : Nat) : t.field low width < 1 <<< width := by
  rw [field, Nat.one_shiftLeft width]
  exact Nat.mod_lt _ (Nat.two_pow_pos width)

/-- The token whose bits from bit `low` upwards hold a number, cut off at bit 31. -/
def place (n low : Nat) : Token := UInt32.ofNat (n <<< low)

/-- Splits the chain of extended tokens off the front, if one is announced. There is no
answer if the tokens end before the chain does. -/
def takeExtended : Bool → List Token → Option (List Token × List Token)
  | false, tokens => some ([], tokens)
  | true, [] => none
  | true, t :: tokens =>
    (takeExtended t.isExtended tokens).map fun (chain, rest) => (t :: chain, rest)

@[simp] theorem takeExtended_false (tokens : List Token) :
    takeExtended false tokens = some ([], tokens) := by
  rw [takeExtended]

/-- The chain and the rest are the whole list. -/
theorem append_of_takeExtended {more : Bool} {tokens chain rest : List Token}
    (h : takeExtended more tokens = some (chain, rest)) : chain ++ rest = tokens := by
  induction tokens generalizing more chain with
  | nil => cases more <;> simp_all [takeExtended]
  | cons t tokens ih =>
    cases more with
    | false => simp_all [takeExtended]
    | true =>
      obtain ⟨⟨chain', rest'⟩, h', he⟩ := Option.map_eq_some_iff.1 h
      obtain ⟨rfl, rfl⟩ := Prod.mk.inj he
      simp [ih h']

theorem length_le_of_takeExtended {more : Bool} {tokens chain rest : List Token}
    (h : takeExtended more tokens = some (chain, rest)) : rest.length ≤ tokens.length := by
  rw [← append_of_takeExtended h, List.length_append]
  omega

end Token

end ShaderKit

import ShaderKit.Proofs.TokenReaders

/-!
# Operands delimit themselves

The tokens of an operand say where it ends. They are read the same in front of any others, all of
them are needed, and a reader that is stopped short can tell no more than that. So no operand is
written by the first tokens of another one.
-/

namespace ShaderKit

/-- The number of tokens in front of the place where a reader of some tokens stopped. -/
def Stop.offset (s : Stop) (tokens : List Token) : Nat := tokens.length - s.left

namespace TokenReader

variable {α : Type} {read : TokenReader α} {front front' : List Token} {a a' : α}

theorem Takes.reads_of_prefix (h : Takes read front a) {tokens : List Token}
    (hfront : front <+: tokens) : read tokens = .ok (a, tokens.drop front.length) := by
  obtain ⟨rest, rfl⟩ := hfront
  rw [h.reads, List.drop_left]

/-- What a reader takes, no part of it is taken for something else. -/
theorem Takes.eq_of_prefix (h : Takes read front a) (h' : Takes read front' a')
    (hfront : front <+: front') : front = front' ∧ a = a' := by
  have hread := h'.reads []
  rw [List.append_nil, h.reads_of_prefix hfront] at hread
  obtain ⟨rfl, hdrop⟩ := Prod.mk.inj (Except.ok.inj hread)
  exact ⟨hfront.eq_of_length_le (List.drop_eq_nil_iff.1 hdrop), rfl⟩

/-- Where the tokens end too early, a reader stops behind the last of them. -/
theorem Takes.offset_of_take (h : Takes read front a) {k : Nat} (hk : k < front.length) :
    ∃ s, read (front.take k) = .error s ∧ s.fault = .truncated ∧ s.offset (front.take k) = k := by
  refine ⟨.truncated, h.truncated k hk, rfl, ?_⟩
  rw [Stop.offset, List.length_take_of_le (Nat.le_of_lt hk)]
  rfl

/-- A reader that stops at the end of no tokens takes at least one. -/
theorem Takes.length_pos (h : Takes read front a) (hnil : read [] = .error .truncated) :
    0 < front.length := by
  apply List.length_pos_iff.2
  rintro rfl
  have hread := h.reads []
  rw [List.append_nil, hnil] at hread
  cases hread

end TokenReader

namespace Operand

open TokenReader

/-- An operand is read from a number of tokens, of which there is at least one. It is read from the
same tokens wherever they stand in front. With fewer of them there is no operand, and the fault is
that the tokens end, at the place where they do. No tokens from which just an operand is read start
with those of another one. -/
theorem operand_delimits_itself {tokens rest : List Token} {o : Operand}
    (h : decode tokens = .ok (o, rest)) :
    let k := tokens.length - rest.length
    (0 < k ∧ rest = tokens.drop k) ∧
      (∀ tokens', tokens.take k <+: tokens' → decode tokens' = .ok (o, tokens'.drop k)) ∧
      (∀ j < k, ∃ s, decode (tokens.take j) = .error s ∧ s.fault = .truncated ∧
        s.offset (tokens.take j) = j) ∧
      ∀ tokens' o', decode tokens' = .ok (o', []) →
        (tokens.take k <+: tokens' ∨ tokens' <+: tokens.take k) →
          tokens' = tokens.take k ∧ o' = o := by
  intro k
  obtain ⟨front, rfl, htakes⟩ := (readsFront_operand _).exists_takes (Nat.le_refl _) h
  have hk : k = front.length := by
    simp only [k, List.length_append]
    omega
  rw [hk, List.take_left, List.drop_left]
  refine ⟨⟨htakes.length_pos decode_nil, rfl⟩, fun tokens' => htakes.reads_of_prefix, ?_, ?_⟩
  · intro j hj
    rw [List.take_append_of_le_length (Nat.le_of_lt hj)]
    exact htakes.offset_of_take hj
  · intro tokens' o' h' hprefix
    have htakes' : Takes operand tokens' o' := by
      obtain ⟨front', happend, htakes'⟩ := (readsFront_operand _).exists_takes (Nat.le_refl _) h'
      rwa [happend, List.append_nil]
    rcases hprefix with hfront | hfront
    · obtain ⟨rfl, rfl⟩ := htakes.eq_of_prefix htakes' hfront
      exact ⟨rfl, rfl⟩
    · exact htakes'.eq_of_prefix htakes hfront

/-- An element of a constant buffer, negated, with a long number and a register in its second
index. -/
def longElementTokens : List Token := [0x88208002, 0x41, 2, 1, 5, 0x00100001, 0]

def longElement : Operand where
  type := .constantBuffer
  components := .four
  selection := 0
  modifier := .neg
  indices := [⟨2, none⟩, ⟨0x100000005, some ⟨.temp, .one, 0, .none, [⟨0, none⟩], none⟩⟩]
  immediate := none

/-- Cut in front of all tokens, between the halves of the long number, and in front of the
register. -/
theorem truncated_longElement :
    decode longElementTokens = .ok (longElement, []) ∧
      decode (longElementTokens ++ [7, 8]) = .ok (longElement, [7, 8]) ∧
      ∀ j ∈ [0, 4, 5], ∃ s, decode (longElementTokens.take j) = .error s ∧ s.fault = .truncated ∧
        s.offset (longElementTokens.take j) = j := by
  have hread : decode longElementTokens = .ok (longElement, []) := by cbv
  obtain ⟨-, hsame, hcut, -⟩ := operand_delimits_itself hread
  refine ⟨hread, hsame _ ⟨[7, 8], rfl⟩, fun j hj => hcut j ?_⟩
  have hlt : ∀ j ∈ [0, 4, 5], j < 7 := by decide
  exact hlt j hj

end Operand

end ShaderKit

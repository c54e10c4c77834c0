import ShaderKit.Proofs.ByteSlices
import ShaderKit.Proofs.OrderedChecks
import ShaderKit.Proofs.ProgramRoundTrip
import ShaderKit.Proofs.StreamConcatenation

/-!
# Which payloads are programs

The second token of a payload states how many tokens the program has, and may state any number.
Reading accepts the payloads of whole tokens that hold the two tokens of the header and as many
tokens as are stated, the header among them. The program is made of the stated tokens. What stands
behind them matters in one way only: it has to be a number of whole tokens too.
-/

namespace ShaderKit

namespace Bytes

theorem getElem?_toDwords (bytes : Bytes) (i : Nat) :
    bytes.toDwords[i]? = bytes.dwordAt? (4 * i) := by
  induction bytes using toDwords.induct generalizing i with
  | case1 b₀ b₁ b₂ b₃ rest ih =>
    cases i with
    | zero => rfl
    | succ i => exact ih i
  | case2 bytes hshort =>
    have hnil : toDwords bytes = [] := toDwords.eq_2 bytes hshort
    have hlength : bytes.length / 4 = 0 := by
      rw [← length_toDwords, hnil, List.length_nil]
    have hnone : ¬ (dwordAt? bytes (4 * i)).isSome := by
      rw [dwordAt?_isSome_iff]
      omega
    rw [hnil, List.getElem?_nil, Option.not_isSome_iff_eq_none.1 hnone]

end Bytes

namespace Program

open Check

variable {bytes other : Bytes} {p q : Program}

def availableTokens (bytes : Bytes) : Nat := bytes.length / 4

def statedTokens (bytes : Bytes) : Nat := bytes.dword 4

/-- Whole tokens, the header among them, and a stated number of tokens that has room for the header
and goes no further than there are tokens. -/
structure WellFormed (bytes : Bytes) : Prop where
  aligned : bytes.length % 4 = 0
  header_le_length : 8 ≤ bytes.length
  header_le_stated : 2 ≤ statedTokens bytes
  stated_le_available : statedTokens bytes ≤ availableTokens bytes

/-- What a program says, token for token. The stage stands in the high half of the first token, and
the shader model in its two lowest hexadecimal digits. -/
structure IsContents (p : Program) (bytes : Bytes) : Prop where
  stage_eq : p.stage = .ofCode (bytes.dword 0 / 2 ^ 16)
  major_eq : p.model.major = bytes.dword 0 / 16 % 16
  minor_eq : p.model.minor = bytes.dword 0 % 16
  length_tokens : p.tokens.length = statedTokens bytes
  token_eq : ∀ i < statedTokens bytes, p.tokens[i]? = bytes.dwordAt? (4 * i)

def checks (bytes : Bytes) : List (Check ProgramFault) :=
  [⟨decide (bytes.length % 4 = 0), .misaligned bytes.length⟩,
    ⟨decide (8 ≤ bytes.length), .tooShort (availableTokens bytes)⟩,
    ⟨decide (2 ≤ statedTokens bytes ∧ statedTokens bytes ≤ availableTokens bytes),
      .declaredLength (statedTokens bytes) (availableTokens bytes)⟩]

def contents (bytes : Bytes) : Program where
  stage := .ofCode (bytes.dword 0 / 2 ^ 16)
  model := ⟨bytes.dword 0 / 16 % 16, bytes.dword 0 % 16⟩
  tokens := bytes.toDwords.take (statedTokens bytes)

section Reading

theorem stage_eq_ofCode (version : Token) : version.stage = .ofCode (version.toNat / 2 ^ 16) := by
  have hlt := version.toNat_lt
  have hfield : version.field 16 16 = version.toNat / 2 ^ 16 := by
    rw [Token.field_eq]
    omega
  rw [Token.stage, hfield]

theorem model_eq (version : Token) :
    version.model = ⟨version.toNat / 16 % 16, version.toNat % 16⟩ := by
  rw [Token.model, Token.field_eq, Token.field_eq, Nat.pow_zero, Nat.div_one]
  rfl

/-- Reading is making the checks in order and, if all pass, taking the contents. -/
theorem parse_eq_judge (bytes : Bytes) : parse bytes = judge (checks bytes) (contents bytes) := by
  have hlength := bytes.length_toDwords
  have htoken := bytes.getElem?_toDwords
  rw [parse, checks, judge_cons_eq_require decide_eq_true_iff]
  refine require_bind_congr fun _ => ?_
  -- The number that is stated does not matter where the token that would state it is missing.
  have hshort : bytes.toDwords.length < 2 → ∀ later,
      judge (⟨decide (8 ≤ bytes.length), ProgramFault.tooShort (availableTokens bytes)⟩ :: later)
        (contents bytes) = .error (.tooShort bytes.toDwords.length) := by
    intro hfew later
    rw [judge_cons_eq_require decide_eq_true_iff, require_of_not (by omega), availableTokens,
      ← hlength]
    rfl
  cases hdwords : bytes.toDwords with
  | nil =>
    rw [hshort (by rw [hdwords]; decide), hdwords]
    rfl
  | cons version tokens =>
    cases tokens with
    | nil =>
      rw [hshort (by rw [hdwords, List.length_singleton]; decide), hdwords]
      rfl
    | cons stated body =>
      rw [hdwords] at hlength htoken
      have hheader : 8 ≤ bytes.length := by
        rw [List.length_cons, List.length_cons] at hlength
        omega
      have hversion : bytes.dword 0 = version.toNat := by
        rw [Bytes.dword, ← htoken 0]
        rfl
      have hstated : statedTokens bytes = stated.toNat := by
        rw [statedTokens, Bytes.dword, ← htoken 1]
        rfl
      have havailable : availableTokens bytes = body.length + headerLength := hlength.symm
      rw [judge_cons_eq_require decide_eq_true_iff, require_of hheader, contents, hdwords,
        hversion, hstated, havailable, ← stage_eq_ofCode, ← model_eq,
        judge_cons_eq_require decide_eq_true_iff]
      rfl

end Reading

theorem wellFormed_iff : WellFormed bytes ↔ ∀ check ∈ checks bytes, check.passes := by
  simp only [checks, List.forall_mem_cons, decide_eq_true_iff, List.not_mem_nil, false_imp_iff,
    implies_true, and_true]
  constructor
  · intro h
    exact ⟨h.aligned, h.header_le_length, h.header_le_stated, h.stated_le_available⟩
  · rintro ⟨haligned, hheader, hstated, havailable⟩
    exact ⟨haligned, hheader, hstated, havailable⟩

theorem WellFormed.isContents (h : WellFormed bytes) : (contents bytes).IsContents bytes where
  stage_eq := rfl
  major_eq := rfl
  minor_eq := rfl
  length_tokens := by
    rw [contents, List.length_take, Bytes.length_toDwords, ← availableTokens,
      Nat.min_eq_left h.stated_le_available]
  token_eq i hi := by
    rw [contents, List.getElem?_take_of_lt hi, Bytes.getElem?_toDwords]

theorem IsContents.unique (hp : p.IsContents bytes) (hq : q.IsContents bytes) : p = q := by
  have hstage := hp.stage_eq.trans hq.stage_eq.symm
  have hmajor := hp.major_eq.trans hq.major_eq.symm
  have hminor := hp.minor_eq.trans hq.minor_eq.symm
  have htokens : p.tokens = q.tokens := by
    refine List.ext_getElem? fun i => ?_
    by_cases hi : i < statedTokens bytes
    · rw [hp.token_eq i hi, hq.token_eq i hi]
    · rw [List.getElem?_eq_none (by rw [hp.length_tokens]; omega),
        List.getElem?_eq_none (by rw [hq.length_tokens]; omega)]
  obtain ⟨stage, ⟨major, minor⟩, tokens⟩ := p
  obtain ⟨stage', ⟨major', minor'⟩, tokens'⟩ := q
  subst hstage hmajor hminor htokens
  rfl

theorem parse_eq_ok_iff : parse bytes = .ok p ↔ WellFormed bytes ∧ p.IsContents bytes := by
  rw [parse_eq_judge, judge_eq_ok_iff, ← wellFormed_iff]
  constructor
  · rintro ⟨h, rfl⟩
    exact ⟨h, h.isContents⟩
  · rintro ⟨h, hp⟩
    exact ⟨h, hp.unique h.isContents⟩

section Behind

variable (h : WellFormed bytes)
  (hsame : other.take (4 * statedTokens bytes) = bytes.take (4 * statedTokens bytes))

include h hsame

theorem WellFormed.statedTokens_eq : statedTokens other = statedTokens bytes := by
  have hheader := h.header_le_stated
  exact Bytes.dword_eq_of_take_eq hsame (by omega)

/-- A payload of whole tokens that begins like a program, as far as its stated tokens go, is a
program. -/
theorem WellFormed.of_take_eq (haligned : other.length % 4 = 0) : WellFormed other := by
  have hheader := h.header_le_stated
  have havailable := h.stated_le_available
  have hlength : 4 * statedTokens bytes ≤ other.length := by
    have hlengths := congrArg List.length hsame
    rw [availableTokens] at havailable
    rw [List.length_take, List.length_take] at hlengths
    omega
  refine ⟨haligned, by omega, ?_, ?_⟩
  · rw [h.statedTokens_eq hsame]
    exact hheader
  · rw [h.statedTokens_eq hsame, availableTokens]
    omega

theorem IsContents.of_take_eq (hp : p.IsContents bytes) : p.IsContents other := by
  have hheader := h.header_le_stated
  have hversion : other.dword 0 = bytes.dword 0 := Bytes.dword_eq_of_take_eq hsame (by omega)
  constructor
  · rw [hversion]
    exact hp.stage_eq
  · rw [hversion]
    exact hp.major_eq
  · rw [hversion]
    exact hp.minor_eq
  · rw [h.statedTokens_eq hsame]
    exact hp.length_tokens
  · intro i hi
    rw [h.statedTokens_eq hsame] at hi
    rw [hp.token_eq i hi]
    exact (Bytes.dwordAt?_eq_of_slice_eq (Bytes.slice_eq_of_take_eq hsame (by omega))).symm

end Behind

/-- Behind the stated tokens only the number of bytes matters. -/
theorem parse_eq_ok_iff_of_take_eq (h : parse bytes = .ok p)
    (hsame : other.take (4 * statedTokens bytes) = bytes.take (4 * statedTokens bytes)) :
    parse other = .ok p ↔ other.length % 4 = 0 := by
  obtain ⟨hformed, hcontents⟩ := parse_eq_ok_iff.1 h
  constructor
  · intro hother
    exact (parse_eq_ok_iff.1 hother).1.aligned
  · intro haligned
    exact parse_eq_ok_iff.2
      ⟨hformed.of_take_eq hsame haligned, hcontents.of_take_eq hformed hsame⟩

/-- A program that was built is read back in front of any whole tokens. -/
theorem parse_build_followed (programType : UInt16) {body : List Token} {tail : Bytes}
    (h : body.length + headerLength < 2 ^ 32) (htail : tail.length % 4 = 0) :
    parse (build programType body ++ tail) =
      .ok ⟨.ofCode programType.toNat, ⟨5, 0⟩, buildTokens programType body⟩ := by
  have hparse := parse_build programType h
  obtain ⟨hformed, hcontents⟩ := parse_eq_ok_iff.1 hparse
  have hlength : 4 * statedTokens (build programType body) = (build programType body).length := by
    rw [build, Bytes.length_ofDwords, ← build, ← hcontents.length_tokens]
  refine (parse_eq_ok_iff_of_take_eq hparse ?_).2 ?_
  · rw [hlength, List.take_left, List.take_length]
  · rw [List.length_append, Nat.add_mod, hformed.aligned, htail]

/-- Reading accepts the well-formed payloads and returns what they say, token for token. For any
other payload it returns the fault of the first check in order that fails. A payload of whole
tokens that has the stated tokens in common with another is the same program, from which the same
instructions are decoded. So a program that was built is read back, whatever whole tokens follow
it. -/
theorem reads_exactly_stated_tokens (bytes : Bytes) :
    ((∃ p, parse bytes = .ok p) ↔ WellFormed bytes) ∧
      (∀ p, parse bytes = .ok p ↔ WellFormed bytes ∧ p.IsContents bytes) ∧
      (∀ fault, parse bytes = .error fault ↔
        ∃ check, firstFailing? (checks bytes) = some check ∧ check.fault = fault) ∧
      (∀ p other, parse bytes = .ok p →
        other.take (4 * statedTokens bytes) = bytes.take (4 * statedTokens bytes) →
          (parse other = .ok p ↔ other.length % 4 = 0) ∧
          ∀ q, parse other = .ok q → q = p ∧ q.items = p.items) ∧
      ∀ programType body tail, body.length + headerLength < 2 ^ 32 → tail.length % 4 = 0 →
        ∃ p, parse (build programType body ++ tail) = .ok p ∧
          p.stage = .ofCode programType.toNat ∧ p.model = ⟨5, 0⟩ ∧
          p.tokens = buildTokens programType body ∧ p.body = body := by
  refine ⟨⟨?_, ?_⟩, fun p => parse_eq_ok_iff, ?_, ?_, ?_⟩
  · rintro ⟨p, hp⟩
    exact (parse_eq_ok_iff.1 hp).1
  · intro h
    exact ⟨contents bytes, parse_eq_ok_iff.2 ⟨h, h.isContents⟩⟩
  · intro fault
    rw [parse_eq_judge, judge_eq_error_iff]
  · intro p other hp hsame
    have hother := parse_eq_ok_iff_of_take_eq hp hsame
    refine ⟨hother, fun q hq => ?_⟩
    have haligned := (parse_eq_ok_iff.1 hq).1.aligned
    obtain rfl : q = p := Except.ok.inj (hq.symm.trans (hother.2 haligned))
    exact ⟨rfl, rfl⟩
  · intro programType body tail hbody htail
    exact ⟨_, parse_build_followed programType hbody htail, rfl, rfl, rfl, rfl⟩

/-- A compute program that only returns, and a token that it does not state. -/
def returnPayload : Bytes := Bytes.ofDwords [0x00050050, 3, 0x0100003E, 0xFFFFFFFF]

theorem parse_returnPayload :
    let p : Program := ⟨.compute, ⟨5, 0⟩, [0x00050050, 3, 0x0100003E]⟩
    parse returnPayload = .ok p ∧ WellFormed returnPayload ∧ p.IsContents returnPayload ∧
      parse (returnPayload.take 12) = .ok p ∧
      ∃ q, parse (build 5 [0x0100003E] ++ [7, 7, 7, 7]) = .ok q ∧ q.tokens = p.tokens ∧
        q.body = [0x0100003E] := by
  intro p
  have hparse : parse returnPayload = .ok p := rfl
  obtain ⟨-, hcontents, -, hbehind, hbuild⟩ := reads_exactly_stated_tokens returnPayload
  obtain ⟨hformed, hsays⟩ := (hcontents p).1 hparse
  have htake : (returnPayload.take 12).take (4 * statedTokens returnPayload) =
      returnPayload.take (4 * statedTokens returnPayload) := by decide +kernel
  obtain ⟨q, hq, -, -, htokens, hbody⟩ := hbuild 5 [0x0100003E] [7, 7, 7, 7] (by decide) (by decide)
  exact ⟨hparse, hformed, hsays, (hbehind p _ hparse htake).1.2 (by decide +kernel), q, hq,
    htokens.trans (by decide), hbody⟩

end Program

end ShaderKit

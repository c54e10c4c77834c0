import Mathlib.Tactic.Convert
import ShaderKit.Instruction
import ShaderKit.Proofs.OperandRoundTrip

/-!
# Readers that take tokens from the front

Operands, their parts and the operands of an instruction are read by taking tokens one by one. Such
a reader does not look behind the last token that it takes, and it cannot do with fewer: what stands
behind may be anything, and if the tokens end before, it says so.
-/

namespace ShaderKit

/-- A reader hands on the tokens that it does not take. -/
abbrev TokenReader (α : Type) := StateT (List Token) (Except Stop) α

namespace TokenReader

section Readers

variable {α β : Type} {read : TokenReader α} {f : α → TokenReader β} {n : Nat}

theorem bind_of_ok {tokens rest : List Token} {a : α} (h : read tokens = .ok (a, rest)) :
    (read >>= f) tokens = f a rest := by
  change (read tokens >>= fun r => f r.1 r.2) = f a rest
  rw [h]
  rfl

theorem bind_of_error {tokens : List Token} {stop : Stop} (h : read tokens = .error stop) :
    (read >>= f) tokens = .error stop := by
  change (read tokens >>= fun r => f r.1 r.2) = .error stop
  rw [h]
  rfl

/-- What a reader takes in front of any tokens, and not without the last of it. -/
structure Takes (read : TokenReader α) (front : List Token) (a : α) : Prop where
  reads : ∀ rest, read (front ++ rest) = .ok (a, rest)
  truncated : ∀ k < front.length, read (front.take k) = .error .truncated

/-- A reader takes its tokens from the front of lists of up to `n` tokens. -/
structure ReadsFront (read : TokenReader α) (n : Nat) : Prop where
  exists_takes : ∀ {tokens a rest}, tokens.length ≤ n → read tokens = .ok (a, rest) →
    ∃ front, tokens = front ++ rest ∧ Takes read front a
  left_le : ∀ {tokens stop}, tokens.length ≤ n → read tokens = .error stop →
    stop.left ≤ tokens.length

theorem takes_pure (a : α) : Takes (pure a) [] a where
  reads _ := rfl
  truncated k hk := absurd hk (Nat.not_lt_zero k)

theorem Takes.bind {front front' : List Token} {a : α} {b : β} (h : Takes read front a)
    (h' : Takes (f a) front' b) : Takes (read >>= f) (front ++ front') b where
  reads rest := by rw [List.append_assoc, bind_of_ok (h.reads _), h'.reads]
  truncated k hk := by
    rcases Nat.lt_or_ge k front.length with hlt | hge
    · rw [List.take_append_of_le_length (Nat.le_of_lt hlt), bind_of_error (h.truncated k hlt)]
    · obtain ⟨k, rfl⟩ := Nat.exists_eq_add_of_le hge
      rw [List.length_append] at hk
      rw [List.take_length_add_append, bind_of_ok (h.reads _), h'.truncated k (by omega)]

theorem readsFront_pure (a : α) : ReadsFront (pure a) n where
  exists_takes := by
    intro tokens a' rest _ h
    cases h
    exact ⟨[], rfl, takes_pure a⟩
  left_le _ h := by cases h

theorem ReadsFront.bind (h : ReadsFront read n) (hf : ∀ a, ReadsFront (f a) n) :
    ReadsFront (read >>= f) n where
  exists_takes := by
    intro tokens b rest htokens hread
    cases hfirst : read tokens with
    | error stop => cases (bind_of_error hfirst).symm.trans hread
    | ok taken =>
      obtain ⟨a, tokens'⟩ := taken
      obtain ⟨front, rfl, htakes⟩ := h.exists_takes htokens hfirst
      rw [bind_of_ok hfirst] at hread
      rw [List.length_append] at htokens
      obtain ⟨front', rfl, htakes'⟩ := (hf a).exists_takes (by omega) hread
      exact ⟨front ++ front', (List.append_assoc ..).symm, htakes.bind htakes'⟩
  left_le := by
    intro tokens stop htokens hread
    cases hfirst : read tokens with
    | error stop' =>
      cases (bind_of_error hfirst).symm.trans hread
      exact h.left_le htokens hfirst
    | ok taken =>
      obtain ⟨a, tokens'⟩ := taken
      obtain ⟨front, rfl, -⟩ := h.exists_takes htokens hfirst
      rw [bind_of_ok hfirst] at hread
      rw [List.length_append] at htokens ⊢
      have hle := (hf a).left_le (by omega) hread
      omega

end Readers

section Tokens

variable {α : Type} {n : Nat}

def token : TokenReader Token
  | [] => .error .truncated
  | t :: rest => .ok (t, rest)

theorem token_bind_cons (f : Token → TokenReader α) (t : Token) (tokens : List Token) :
    (token >>= f) (t :: tokens) = f t tokens := rfl

theorem takes_token (t : Token) : Takes token [t] t where
  reads _ := rfl
  truncated k hk := by
    obtain rfl := Nat.lt_one_iff.1 hk
    rfl

/-- What comes behind a token is read from fewer tokens. -/
theorem readsFront_token_bind {f : Token → TokenReader α}
    (h : ∀ m < n, ∀ t, ReadsFront (f t) m) : ReadsFront (token >>= f) n where
  exists_takes := by
    intro tokens a rest htokens hread
    cases tokens with
    | nil => cases hread
    | cons t tokens =>
      rw [token_bind_cons] at hread
      obtain ⟨front, rfl, htakes⟩ := (h _ htokens t).exists_takes (Nat.le_refl _) hread
      exact ⟨t :: front, rfl, (takes_token t).bind htakes⟩
  left_le := by
    intro tokens stop htokens hread
    cases tokens with
    | nil =>
      cases hread
      exact Nat.le_refl 0
    | cons t tokens =>
      rw [token_bind_cons] at hread
      exact Nat.le_succ_of_le ((h _ htokens t).left_le (Nat.le_refl _) hread)

theorem readsFront_token : ReadsFront token n := by
  have hpure : token = token >>= pure := by
    funext tokens
    cases tokens <;> rfl
  rw [hpure]
  exact readsFront_token_bind fun _ _ => readsFront_pure

/-- Stops in front of the next token. -/
def stop (fault : OperandFault) : TokenReader α := fun tokens => .error ⟨fault, tokens.length⟩

theorem readsFront_stop (fault : OperandFault) : ReadsFront (stop fault : TokenReader α) n where
  exists_takes _ h := by cases h
  left_le _ h := by
    cases h
    exact Nat.le_refl _

/-- A part that is missing only where the tokens end too early. -/
def part (take? : List Token → Option (α × List Token)) : TokenReader α :=
  fun tokens => (take? tokens).elim (.error .truncated) .ok

theorem readsFront_chain (more : Bool) : ReadsFront (part (Token.takeExtended more)) n := by
  induction n using Nat.strongRecOn generalizing more with
  | ind n ih =>
    cases more with
    | false =>
      have hpure : part (Token.takeExtended false) = pure [] := by
        funext tokens
        rw [part, Token.takeExtended_false]
        rfl
      rw [hpure]
      exact readsFront_pure []
    | true =>
      have hstep : part (Token.takeExtended true) = do
          let t ← token
          let chain ← part (Token.takeExtended t.isExtended)
          return t :: chain := by
        funext tokens
        cases tokens with
        | nil => rfl
        | cons t tokens =>
          rw [token_bind_cons, part, Token.takeExtended]
          cases hchain : Token.takeExtended t.isExtended tokens with
          | none => rw [bind_of_error (by rw [part, hchain]; rfl)]; rfl
          | some taken => rw [bind_of_ok (by rw [part, hchain]; rfl)]; rfl
      rw [hstep]
      exact readsFront_token_bind fun m hm t =>
        (ih m hm t.isExtended).bind fun chain => readsFront_pure _

theorem readsFront_offset (form : IndexForm) : ReadsFront (part (Operand.takeOffset form)) n := by
  have hword : ReadsFront (do let w ← token; return w.toUInt64) n :=
    readsFront_token.bind fun _ => readsFront_pure _
  have hlong : ReadsFront (do let high ← token; let low ← token; return Operand.joinLong high low)
      n :=
    readsFront_token.bind fun _ => readsFront_token.bind fun _ => readsFront_pure _
  cases form with
  | relative => exact readsFront_pure 0
  | word | wordRelative =>
    convert hword using 1
    funext tokens
    rcases tokens with _ | ⟨w, rest⟩ <;> rfl
  | long | longRelative =>
    convert hlong using 1
    funext tokens
    rcases tokens with _ | ⟨high, _ | ⟨low, rest⟩⟩ <;> rfl

theorem readsFront_values (type : OperandType) (components : ComponentCount) :
    ReadsFront (part (Operand.takeImmediate type components)) n := by
  by_cases h32 : type = .imm32
  · subst h32
    cases components with
    | zero => exact readsFront_pure _
    | one =>
      have hone : part (Operand.takeImmediate .imm32 .one) = do
          let x ← token
          return some (.words x x x x) := by
        funext tokens
        rcases tokens with _ | ⟨x, rest⟩ <;> rfl
      rw [hone]
      exact readsFront_token.bind fun _ => readsFront_pure _
    | four =>
      have hfour : part (Operand.takeImmediate .imm32 .four) = do
          let x ← token
          let y ← token
          let z ← token
          let w ← token
          return some (.words x y z w) := by
        funext tokens
        rcases tokens with _ | ⟨x, _ | ⟨y, _ | ⟨z, _ | ⟨w, rest⟩⟩⟩⟩ <;> rfl
      rw [hfour]
      exact readsFront_token.bind fun _ => readsFront_token.bind fun _ =>
        readsFront_token.bind fun _ => readsFront_token.bind fun _ => readsFront_pure _
  by_cases h64 : type = .imm64
  · subst h64
    cases components with
    | zero => exact readsFront_pure _
    | one =>
      have hone : part (Operand.takeImmediate .imm64 .one) = do
          let high ← token
          let low ← token
          return some (.longs (Operand.joinLong high low) (Operand.joinLong high low)) := by
        funext tokens
        rcases tokens with _ | ⟨high, _ | ⟨low, rest⟩⟩ <;> rfl
      rw [hone]
      exact readsFront_token.bind fun _ => readsFront_token.bind fun _ => readsFront_pure _
    | four =>
      have hfour : part (Operand.takeImmediate .imm64 .four) = do
          let h₀ ← token
          let l₀ ← token
          let h₁ ← token
          let l₁ ← token
          return some (.longs (Operand.joinLong h₀ l₀) (Operand.joinLong h₁ l₁)) := by
        funext tokens
        rcases tokens with _ | ⟨h₀, _ | ⟨l₀, _ | ⟨h₁, _ | ⟨l₁, rest⟩⟩⟩⟩ <;> rfl
      rw [hfour]
      exact readsFront_token.bind fun _ => readsFront_token.bind fun _ =>
        readsFront_token.bind fun _ => readsFront_token.bind fun _ => readsFront_pure _
  · have hnothing : part (Operand.takeImmediate type components) = pure none := by
      funext tokens
      rw [part, Operand.takeImmediate_of_ne h32 h64]
      rfl
    rw [hnothing]
    exact readsFront_pure none

end Tokens

section Operands

variable {n : Nat}

def operand : TokenReader Operand := Operand.decode

def indices (forms : List Nat) : TokenReader (List (OperandIndex Operand)) :=
  Operand.decodeIndices forms

def index (form : Nat) : TokenReader (OperandIndex Operand) := Operand.decodeIndex form

def operands (count : Nat) : TokenReader (List Operand) := Operand.decodeList count

theorem operand_eq : operand = do
    let t ← token
    match ComponentCount.ofField? (t.field 0 2) with
    | none => stop (.componentCount (t.field 0 2))
    | some components => do
      let chain ← part (Token.takeExtended t.isExtended)
      let indices ← indices (Operand.indexFields t)
      let immediate ← part (Operand.takeImmediate (Operand.typeField t) components)
      return ⟨Operand.typeField t, components, Operand.selectionField t, .ofChain chain, indices,
        immediate⟩ := by
  funext tokens
  cases tokens with
  | nil => exact Operand.decode_nil
  | cons t tail =>
    rw [token_bind_cons, operand, Operand.decode_cons]
    cases ComponentCount.ofField? (t.field 0 2) with
    | none => rfl
    | some components =>
      dsimp only
      cases hchain : Token.takeExtended t.isExtended tail with
      | none => rw [bind_of_error (by rw [part, hchain]; rfl)]
      | some taken =>
        rw [bind_of_ok (by rw [part, hchain]; rfl)]
        cases hindices : indices (Operand.indexFields t) taken.2 with
        | error stop =>
          have hdecode : Operand.decodeIndices (Operand.indexFields t) taken.2 = .error stop :=
            hindices
          rw [bind_of_error hindices]
          simp only [hdecode, bind, Except.bind]
        | ok taken' =>
          have hdecode : Operand.decodeIndices (Operand.indexFields t) taken.2 = .ok taken' :=
            hindices
          rw [bind_of_ok hindices]
          cases himmediate : Operand.takeImmediate (Operand.typeField t) components taken'.2 with
          | none =>
            rw [bind_of_error (by rw [part, himmediate]; rfl)]
            simp only [hdecode, himmediate, bind, Except.bind]
          | some taken'' =>
            rw [bind_of_ok (by rw [part, himmediate]; rfl)]
            simp only [hdecode, himmediate, bind, Except.bind]
            rfl

theorem indices_cons (form : Nat) (forms : List Nat) : indices (form :: forms) = do
    let i ← index form
    let is ← indices forms
    return i :: is := by
  funext tokens
  exact Operand.decodeIndices_cons form forms tokens

theorem index_eq (form : Nat) : index form =
    match IndexForm.ofField? form with
    | none => stop (.indexRepresentation form)
    | some form => do
      let offset ← part (Operand.takeOffset form)
      if form.hasBase then do
        let base ← operand
        return ⟨offset, some base⟩
      else return ⟨offset, none⟩ := by
  funext tokens
  rw [index, Operand.decodeIndex_eq]
  cases IndexForm.ofField? form with
  | none => rfl
  | some form =>
    dsimp only
    cases hoffset : Operand.takeOffset form tokens with
    | none => rw [bind_of_error (by rw [part, hoffset]; rfl)]
    | some taken =>
      rw [bind_of_ok (by rw [part, hoffset]; rfl)]
      cases form.hasBase <;> rfl

theorem readsFront_index (h : ReadsFront operand n) (form : Nat) : ReadsFront (index form) n := by
  rw [index_eq]
  cases IndexForm.ofField? form with
  | none => exact readsFront_stop _
  | some form =>
    refine (readsFront_offset form).bind fun offset => ?_
    cases form.hasBase with
    | false => exact readsFront_pure _
    | true => exact h.bind fun base => readsFront_pure _

theorem readsFront_indices (h : ReadsFront operand n) (forms : List Nat) :
    ReadsFront (indices forms) n := by
  induction forms with
  | nil =>
    have hnil : indices [] = pure [] := by
      funext tokens
      exact Operand.decodeIndices_nil tokens
    rw [hnil]
    exact readsFront_pure []
  | cons form forms ih =>
    rw [indices_cons]
    exact (readsFront_index h form).bind fun i => ih.bind fun is => readsFront_pure _

/-- The operand in an index stands behind the first token of the operand that has the index. -/
theorem readsFront_operand (n : Nat) : ReadsFront operand n := by
  induction n using Nat.strongRecOn with
  | ind n ih =>
    rw [operand_eq]
    refine readsFront_token_bind fun m hm t => ?_
    cases ComponentCount.ofField? (t.field 0 2) with
    | none => exact readsFront_stop _
    | some components =>
      exact (readsFront_chain _).bind fun chain => (readsFront_indices (ih m hm) _).bind fun is =>
        (readsFront_values _ _).bind fun immediate => readsFront_pure _

theorem readsFront_operands (count : Nat) : ReadsFront (operands count) n := by
  induction count with
  | zero => exact readsFront_pure []
  | succ count ih =>
    exact (readsFront_operand n).bind fun o => ih.bind fun os => readsFront_pure _

def instruction (format : InstructionFormat) (t : Token) : TokenReader Instruction := do
  let _ ← part (Token.takeExtended t.isExtended)
  let destinations ← operands format.destinations
  let sources ← operands format.sources
  return ⟨t.opcode, format.kind, t.controls, t.saturate, destinations, sources⟩

theorem readsFront_instruction (format : InstructionFormat) (t : Token) :
    ReadsFront (instruction format t) n :=
  (readsFront_chain _).bind fun _ => (readsFront_operands _).bind fun _ =>
    (readsFront_operands _).bind fun _ => readsFront_pure _

theorem ofBlock_eq (format : InstructionFormat) (t : Token) (tail : List Token) :
    Instruction.ofBlock format t tail = (instruction format t tail).map Prod.fst := by
  rw [Instruction.ofBlock, instruction]
  cases hchain : Token.takeExtended t.isExtended tail with
  | none => rw [bind_of_error (by rw [part, hchain]; rfl)]; rfl
  | some taken =>
    rw [bind_of_ok (by rw [part, hchain]; rfl)]
    change _ = Except.map Prod.fst (Operand.decodeList format.destinations taken.2 >>= fun d =>
      Operand.decodeList format.sources d.2 >>= fun s =>
        pure (Instruction.mk t.opcode format.kind t.controls t.saturate d.1 s.1, s.2))
    cases hdestinations : Operand.decodeList format.destinations taken.2 with
    | error stop => simp only [hdestinations, bind, Except.bind, Except.map]
    | ok taken' =>
      cases hsources : Operand.decodeList format.sources taken'.2 <;>
        simp only [hdestinations, hsources, bind, Except.bind, pure, Except.pure, Except.map]

end Operands

end TokenReader

end ShaderKit

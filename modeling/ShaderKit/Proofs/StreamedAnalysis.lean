import ShaderKit.Shader
import ShaderKit.ContainerBuilding
import ShaderKit.Proofs.BlockTiling
import ShaderKit.Proofs.ProgramRoundTrip

/-!
# Streams that are read as they come

A stream answers every request: with its instructions in order, then with the fault that ends it
if there is one, and with nothing from then on. The instructions of a program are what its stream
yields, unless a fault ends the stream.

An analysis notes each instruction before it knows whether the next one can be read. Nothing of
this shows: its result is that of noting all instructions of the program at once, and where some
part of the shader cannot be read, the fault that shows is that of the first such part.
-/

namespace ShaderKit

namespace InstructionStream

variable {s s' : InstructionStream} {k : Nat}

/-- The stream behind its next item. A stream without items has no tokens left behind it. -/
def afterNext (s : InstructionStream) : InstructionStream :=
  match s.next? with
  | some (_, s') => s'
  | none => ⟨s.position + s.tokens.length, []⟩

/-- The answer to each request for the next item, in the order of the requests. -/
def answer (s : InstructionStream) : Nat → Option StreamItem
  | 0 => s.next?.map (·.1)
  | k + 1 => s.afterNext.answer k

/-- Instructions that a fault may end. -/
def endedBy (is : List Instruction) (fault? : Option DecodeFault) : List StreamItem :=
  is.map Except.ok ++ fault?.toList.map Except.error

theorem next?_nil (position : Nat) : next? ⟨position, []⟩ = none := by
  rw [next?]

theorem answer_nil (position k : Nat) : answer ⟨position, []⟩ k = none := by
  induction k generalizing position with
  | zero => rw [answer, next?_nil, Option.map_none]
  | succ k ih =>
    rw [answer, afterNext, next?_nil]
    exact ih position

theorem answer_eq_getElem? (s : InstructionStream) (k : Nat) : s.answer k = s.items[k]? := by
  induction k generalizing s with
  | zero =>
    rw [answer]
    cases hnext : s.next? with
    | none => rw [items_of_none hnext]; rfl
    | some next => rw [items_of_some hnext]; rfl
  | succ k ih =>
    rw [answer, afterNext]
    cases hnext : s.next? with
    | none => rw [answer_nil, items_of_none hnext, List.getElem?_nil]
    | some next => rw [items_of_some hnext, List.getElem?_cons_succ, ih]

/-- A fault leaves nothing behind. -/
theorem tokens_of_next?_error {e : DecodeFault} (h : s.next? = some (.error e, s')) :
    s'.tokens = [] := by
  fun_induction next? s with
  | case1 => cases h
  | case2 => cases h; rfl
  | case3 position t tail block rest hcut stop hitem ih => exact ih h
  | case4 => cases h
  | case5 => cases h; rfl

theorem items_of_tokens_eq_nil (h : s.tokens = []) : s.items = [] := by
  obtain ⟨position, tokens⟩ := s
  obtain rfl : tokens = [] := h
  exact items_nil

theorem length_items_le (s : InstructionStream) : s.items.length ≤ s.tokens.length := by
  induction s using run.induct with
  | case1 s hnext =>
    rw [items_of_none hnext]
    exact Nat.zero_le _
  | case2 s item s' hnext _ _ _ ih =>
    have hlt := length_lt_of_next? hnext
    rw [items_of_some hnext, List.length_cons]
    omega

/-- Only the last item of a stream can be a fault, and the instructions that are collected from the
stream are its items if there is none. -/
theorem exists_items_eq_endedBy (s : InstructionStream) :
    ∃ is fault?, s.items = endedBy is fault? ∧ s.collect = fault?.elim (.ok is) .error := by
  induction s using run.induct with
  | case1 s hnext =>
    refine ⟨[], none, items_of_none hnext, ?_⟩
    rw [collect, items_of_none hnext]
    rfl
  | case2 s item s' hnext _ _ _ ih =>
    have hitems := items_of_some hnext
    cases item with
    | error e =>
      -- The fault takes the rest of the tokens with it, so that no item comes behind it.
      rw [items_of_tokens_eq_nil (tokens_of_next?_error hnext)] at hitems
      refine ⟨[], some e, hitems, ?_⟩
      rw [collect, hitems]
      rfl
    | ok i =>
      obtain ⟨is, fault?, hrest, hcollect⟩ := ih
      refine ⟨i :: is, fault?, ?_, ?_⟩
      · rw [hitems, hrest]
        rfl
      · rw [collect] at hcollect
        rw [collect, hitems, List.mapM_cons, hcollect]
        cases fault? <;> rfl

end InstructionStream

theorem Program.instructions_eq_collect (p : Program) :
    p.instructions = (InstructionStream.ofProgram p).collect := rfl

theorem ShaderUsage.noteStream_eq (u : ShaderUsage) (s : InstructionStream) :
    u.noteStream s = u.noteAll <$> s.collect := by
  fun_induction noteStream u s with
  | case1 u s hnext =>
    rw [InstructionStream.collect, InstructionStream.items_of_none hnext]
    rfl
  | case2 u s i s' hnext ih =>
    rw [ih, InstructionStream.collect, InstructionStream.collect,
      InstructionStream.items_of_some hnext, List.mapM_cons]
    cases s'.items.mapM id <;> rfl
  | case3 u s fault s' hnext =>
    rw [InstructionStream.collect, InstructionStream.items_of_some hnext, List.mapM_cons]
    rfl

namespace Container

variable {c : Container} {kind : FourCC}

def signatureFault? (c : Container) (kind : FourCC) : Option FormatFault :=
  match c.signature? kind with
  | some (.error fault) => some fault
  | _ => none

/-- The faults of the signatures, in the order of the look-ups. -/
def signatureFaults (c : Container) : List FormatFault :=
  [FourCC.isgn, .osgn, .pcsg].filterMap c.signatureFault?

/-- The signatures that the look-ups find. -/
structure Carries (c : Container) (signatures : ShaderSignatures) : Prop where
  input_eq : c.signature? .isgn = signatures.input.map .ok
  output_eq : c.signature? .osgn = signatures.output.map .ok
  patchConstant_eq : c.signature? .pcsg = signatures.patchConstant.map .ok

/-- The fault of the program of a container. -/
def programFault? (c : Container) : Option ShaderFault :=
  match Program.ofContainer c with
  | .error fault => some (.program fault)
  | .ok p =>
    match p.instructions with
    | .error fault => some (.decode fault)
    | .ok _ => none

theorem optionalSignature_cases (c : Container) (kind : FourCC) :
    (∃ s?, c.optionalSignature kind = .ok s? ∧ c.signature? kind = s?.map .ok ∧
      c.signatureFault? kind = none) ∨
    ∃ fault, c.optionalSignature kind = .error fault ∧ c.signatureFault? kind = some fault := by
  rw [optionalSignature, signatureFault?]
  rcases c.signature? kind with _ | fault | s
  · exact .inl ⟨none, rfl, rfl, rfl⟩
  · exact .inr ⟨fault, rfl, rfl⟩
  · exact .inl ⟨some s, rfl, rfl, rfl⟩

theorem signatures_cases (c : Container) :
    (∃ s, c.signatures = .ok s ∧ c.Carries s ∧ c.signatureFaults = []) ∨
    ∃ fault rest, c.signatures = .error fault ∧ c.signatureFaults = fault :: rest := by
  rw [signatures, signatureFaults]
  rcases c.optionalSignature_cases .isgn with ⟨input, hi, hinput, hin⟩ | ⟨fault, hi, hin⟩
  · rw [hi, List.filterMap_cons_none hin]
    rcases c.optionalSignature_cases .osgn with ⟨output, ho, houtput, hon⟩ | ⟨fault, ho, hon⟩
    · rw [ho, List.filterMap_cons_none hon]
      rcases c.optionalSignature_cases .pcsg with ⟨patch, hp, hpatch, hpn⟩ | ⟨fault, hp, hpn⟩
      · rw [hp, List.filterMap_cons_none hpn]
        exact .inl ⟨⟨input, output, patch⟩, rfl, ⟨hinput, houtput, hpatch⟩, rfl⟩
      · rw [hp, List.filterMap_cons_some hpn]
        exact .inr ⟨fault, _, rfl, rfl⟩
    · rw [ho, List.filterMap_cons_some hon]
      exact .inr ⟨fault, _, rfl, rfl⟩
  · rw [hi, List.filterMap_cons_some hin]
    exact .inr ⟨fault, _, rfl, rfl⟩

/-- The program of a container with all of its instructions. -/
def instructions (c : Container) : Except ShaderFault (Program × List Instruction) := do
  let p ← (Program.ofContainer c).mapError .program
  let is ← p.instructions.mapError .decode
  return (p, is)

theorem instructions_cases (c : Container) :
    (∃ p is, c.instructions = .ok (p, is) ∧ Program.ofContainer c = .ok p ∧
      p.instructions = .ok is ∧ c.programFault? = none) ∨
    ∃ fault, c.instructions = .error fault ∧ c.programFault? = some fault := by
  rw [instructions, programFault?]
  cases hprogram : Program.ofContainer c with
  | error fault => exact .inr ⟨_, rfl, rfl⟩
  | ok p =>
    cases his : p.instructions with
    | error fault =>
      refine .inr ⟨.decode fault, ?_, ?_⟩
      · simp only [Except.mapError, bind, Except.bind, his]
      · simp only [his]
    | ok is =>
      refine .inl ⟨p, is, ?_, rfl, his, ?_⟩
      · simp only [Except.mapError, bind, Except.bind, his]
        rfl
      · simp only [his]

end Container

/-- All faults of an input, in the order in which its parts are read. A part that is found inside
of another can be faulty only where the other could be read. -/
def shaderFaults (input : Bytes) : List ShaderFault :=
  match Container.parse input with
  | .error fault => [.format fault]
  | .ok c => c.signatureFaults.map .format ++ c.programFault?.toList

theorem shaderFaults_of_parse {input : Bytes} {c : Container} (h : Container.parse input = .ok c) :
    shaderFaults input = c.signatureFaults.map .format ++ c.programFault?.toList := by
  rw [shaderFaults, h]

/-- The analysis of a container: that of all instructions of its program at once. -/
theorem analyzeShader_of_parse {input : Bytes} {c : Container} (h : Container.parse input = .ok c) :
    analyzeShader input = do
      let signatures ← c.signatures.mapError .format
      let (program, is) ← c.instructions
      return (program, (ShaderUsage.ofSignatures signatures).noteAll is) := by
  rw [analyzeShader, h, Container.instructions]
  simp only [ShaderUsage.noteStream_eq, Program.instructions_eq_collect, Except.mapError, bind,
    Except.bind]
  cases c.signatures with
  | error fault => rfl
  | ok signatures =>
    cases Program.ofContainer c with
    | error fault => rfl
    | ok p =>
      dsimp only
      cases (InstructionStream.ofProgram p).collect <;> rfl

theorem analyzeShader_cases (input : Bytes) :
    (∃ c s p is, Container.parse input = .ok c ∧ c.Carries s ∧ Program.ofContainer c = .ok p ∧
      p.instructions = .ok is ∧
      analyzeShader input = .ok (p, (ShaderUsage.ofSignatures s).noteAll is) ∧
      shaderFaults input = []) ∨
    ∃ fault rest, analyzeShader input = .error fault ∧ shaderFaults input = fault :: rest := by
  cases hparse : Container.parse input with
  | error fault =>
    exact .inr ⟨.format fault, [], by rw [analyzeShader, hparse]; rfl,
      by rw [shaderFaults, hparse]⟩
  | ok c =>
    rw [analyzeShader_of_parse hparse, shaderFaults_of_parse hparse]
    rcases c.signatures_cases with ⟨s, hs, hcarries, hnone⟩ | ⟨fault, rest, hs, hfaults⟩
    · rcases c.instructions_cases with ⟨p, is, hall, hp, his, hfault⟩ | ⟨fault, hall, hfault⟩
      · exact .inl ⟨c, s, p, is, rfl, hcarries, hp, his, by rw [hs, hall]; rfl,
          by rw [hnone, hfault]; rfl⟩
      · exact .inr ⟨fault, [], by rw [hs, hall]; rfl, by rw [hnone, hfault]; rfl⟩
    · exact .inr ⟨.format fault, _, by rw [hs]; rfl, by rw [hfaults]; rfl⟩

/-- An analysis fails with the first fault of its input. Where there is none, its result is that of
noting all instructions of the program at once. The stream of a program answers with instructions,
then with a fault if one ends it, and with nothing from then on; it holds no more items than there
are tokens, and the instructions of the program are what it holds, unless it ends in a fault. -/
theorem analysis_is_of_whole_program :
    (∀ input fault, analyzeShader input = .error fault ↔
      (shaderFaults input).head? = some fault) ∧
    (∀ input, shaderFaults input = [] → ∃ c s p is, Container.parse input = .ok c ∧
      c.Carries s ∧ Program.ofContainer c = .ok p ∧ p.instructions = .ok is ∧
      analyzeShader input = .ok (p, (ShaderUsage.ofSignatures s).noteAll is)) ∧
    ∀ p : Program, ∃ is fault?,
      (∀ k, (InstructionStream.ofProgram p).answer k =
        (InstructionStream.endedBy is fault?)[k]?) ∧
      (InstructionStream.endedBy is fault?).length ≤ p.body.length ∧
      p.instructions = fault?.elim (.ok is) .error := by
  refine ⟨fun input fault => ?_, fun input hnone => ?_, fun p => ?_⟩
  · rcases analyzeShader_cases input with
      ⟨c, s, p, is, -, -, -, -, hanalysis, hnone⟩ | ⟨first, rest, hanalysis, hfaults⟩
    · simp [hanalysis, hnone]
    · simp [hanalysis, hfaults]
  · rcases analyzeShader_cases input with
      ⟨c, s, p, is, hparse, hcarries, hp, his, hanalysis, -⟩ | ⟨first, rest, -, hfaults⟩
    · exact ⟨c, s, p, is, hparse, hcarries, hp, his, hanalysis⟩
    · simp [hfaults] at hnone
  · obtain ⟨is, fault?, hitems, hcollect⟩ :=
      (InstructionStream.ofProgram p).exists_items_eq_endedBy
    refine ⟨is, fault?, fun k => ?_, ?_, hcollect⟩
    · rw [InstructionStream.answer_eq_getElem?, hitems]
    · rw [← hitems]
      exact (InstructionStream.ofProgram p).length_items_le

/-- A program of one instruction, which discards pixels. -/
def discardingProgram : Program :=
  ⟨.pixel, ⟨5, 0⟩, [0x50, 5, 0x0300000D, 0x00004001, 7]⟩

def discardingContainer : Container :=
  ⟨List.replicate 16 0, 64, 1, [⟨.shex, Bytes.ofDwords discardingProgram.tokens⟩]⟩

def discardingShader : Bytes := Container.build discardingContainer.chunks

/-- A shader whose output signature and whose program are both cut off. -/
def brokenShader : Bytes := Container.build [⟨.shdr, []⟩, ⟨.osgn, [1]⟩]

theorem instructions_discardingProgram :
    ∃ is, discardingProgram.instructions = .ok is ∧
      ∀ u : ShaderUsage, (u.noteAll is).discards = true := by
  let discarding : WrittenInstruction :=
    { opcode := .discard
      format := ⟨.controlFlow, 0, 1⟩
      operands := [.immediateWord 7]
      length_operands := rfl }
  have hbody : discardingProgram.body = [discarding].flatMap WrittenInstruction.tokens := by
    decide
  exact ⟨_, Program.instructions_of_body hbody, fun u => rfl⟩

theorem shaderFaults_discardingShader : shaderFaults discardingShader = [] := by
  have hparse : Container.parse discardingShader = .ok discardingContainer := rfl
  have hprogram : Program.ofContainer discardingContainer = .ok discardingProgram := rfl
  obtain ⟨is, his, -⟩ := instructions_discardingProgram
  simp only [shaderFaults_of_parse hparse, Container.programFault?, hprogram, his]
  rfl

theorem analysis_of_discarding_and_broken :
    shaderFaults discardingShader = [] ∧
      (∃ p u, analyzeShader discardingShader = .ok (p, u) ∧ u.discards = true) ∧
      shaderFaults brokenShader =
        [.format (.signatureChunk .osgn (.headerTruncated 1)), .program (.tooShort 0)] ∧
      analyzeShader brokenShader =
        .error (.format (.signatureChunk .osgn (.headerTruncated 1))) := by
  obtain ⟨hfirst, hwhole, -⟩ := analysis_is_of_whole_program
  have hbroken : shaderFaults brokenShader =
      [.format (.signatureChunk .osgn (.headerTruncated 1)), .program (.tooShort 0)] := by
    decide +kernel
  refine ⟨shaderFaults_discardingShader, ?_, hbroken, (hfirst _ _).2 (by rw [hbroken]; rfl)⟩
  obtain ⟨c, s, p, is, hparse, -, hprogram, his, hanalysis⟩ :=
    hwhole discardingShader shaderFaults_discardingShader
  obtain rfl : discardingContainer = c := Except.ok.inj hparse
  obtain rfl : discardingProgram = p := Except.ok.inj hprogram
  obtain ⟨is', his', hdiscards⟩ := instructions_discardingProgram
  obtain rfl : is' = is := Except.ok.inj (his'.symm.trans his)
  exact ⟨_, _, hanalysis, hdiscards _⟩

end ShaderKit

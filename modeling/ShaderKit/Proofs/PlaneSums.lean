import ShaderKit.Proofs.ChunkLookup
import ShaderKit.Proofs.SignatureAcceptance
import ShaderKit.Proofs.SignatureChoice
import ShaderKit.Proofs.UsageSteps

/-!
# Sums of clip and cull distances

The counts of clip and cull distances are sums over all elements of a signature, kept in 32 bits.
They cannot overflow: an element takes 24 bytes of its chunk for at most four components, and a
chunk is no longer than its container, whose size is stated in 32 bits. A count depends on the
chunks of one signature alone, whatever the other chunks of the container are.
-/

namespace ShaderKit

/-- The used components of an element, if its system value has the given code. -/
def SignatureElement.planes (e : SignatureElement) (code : UInt32) : Nat :=
  if e.systemValue = .ofCode code then e.mask.count else 0

def planeSum (es : List SignatureElement) (code : UInt32) : Nat := (es.map (·.planes code)).sum

/-- Counts that are kept in 32 bits. -/
structure PlaneWords where
  clip : UInt32
  cull : UInt32

namespace PlaneWords

def counts (w : PlaneWords) : PlaneCounts := ⟨w.clip.toNat, w.cull.toNat⟩

/-- Adds to a count. There is no result if the sum does not fit into 32 bits. -/
def add? (a : UInt32) (n : Nat) : Option UInt32 :=
  if a.toNat + n < UInt32.size then some (a + UInt32.ofNat n) else none

/-- Counts the components of the next element. -/
def note? (w : PlaneWords) (e : SignatureElement) : Option PlaneWords :=
  match e.systemValue with
  | .clipDistance => (add? w.clip e.mask.count).map fun clip => { w with clip := clip }
  | .cullDistance => (add? w.cull e.mask.count).map fun cull => { w with cull := cull }
  | _ => some w

def noteAll? (w : PlaneWords) (es : List SignatureElement) : Option PlaneWords := es.foldlM note? w

variable {w : PlaneWords} {e : SignatureElement}

theorem add?_of_lt {a : UInt32} {n : Nat} (h : a.toNat + n < UInt32.size) :
    ∃ b, add? a n = some b ∧ b.toNat = a.toNat + n := by
  refine ⟨a + UInt32.ofNat n, if_pos h, ?_⟩
  rw [UInt32.toNat_add, UInt32.toNat_ofNat_of_lt' (by omega), Nat.mod_eq_of_lt h]

theorem note?_of_lt (hclip : w.clip.toNat + e.planes 2 < UInt32.size)
    (hcull : w.cull.toNat + e.planes 3 < UInt32.size) :
    ∃ w', w.note? e = some w' ∧ w'.clip.toNat = w.clip.toNat + e.planes 2 ∧
      w'.cull.toNat = w.cull.toNat + e.planes 3 := by
  have hclipCode : SystemValue.ofCode 2 = .clipDistance := rfl
  have hcullCode : SystemValue.ofCode 3 = .cullDistance := rfl
  simp only [SignatureElement.planes, hclipCode, hcullCode] at hclip hcull ⊢
  cases hvalue : e.systemValue with
  | clipDistance =>
    rw [hvalue, if_pos rfl] at hclip
    obtain ⟨clip, hadd, hsum⟩ := add?_of_lt hclip
    exact ⟨{ w with clip := clip }, by simp [note?, hvalue, hadd], by simpa using hsum, by simp⟩
  | cullDistance =>
    rw [hvalue, if_pos rfl] at hcull
    obtain ⟨cull, hadd, hsum⟩ := add?_of_lt hcull
    exact ⟨{ w with cull := cull }, by simp [note?, hvalue, hadd], by simp, by simpa using hsum⟩
  | _ => exact ⟨w, by simp [note?, hvalue], by simp, by simp⟩

/-- As long as the sums fit into 32 bits, counting comes to them. -/
theorem noteAll?_of_lt (es : List SignatureElement)
    (hclip : w.clip.toNat + planeSum es 2 < UInt32.size)
    (hcull : w.cull.toNat + planeSum es 3 < UInt32.size) :
    ∃ w', w.noteAll? es = some w' ∧ w'.clip.toNat = w.clip.toNat + planeSum es 2 ∧
      w'.cull.toNat = w.cull.toNat + planeSum es 3 := by
  induction es generalizing w with
  | nil => exact ⟨w, rfl, rfl, rfl⟩
  | cons e es ih =>
    simp only [planeSum, List.map_cons, List.sum_cons] at hclip hcull ih ⊢
    obtain ⟨next, hnext, hnextClip, hnextCull⟩ :=
      note?_of_lt (w := w) (e := e) (by omega) (by omega)
    obtain ⟨last, hlast, hlastClip, hlastCull⟩ := ih (w := next) (by omega) (by omega)
    refine ⟨last, ?_, by omega, by omega⟩
    rw [noteAll?, List.foldlM_cons, hnext]
    exact hlast

end PlaneWords

theorem planeSum_le (es : List SignatureElement) (code : UInt32) :
    planeSum es code ≤ 4 * es.length := by
  induction es with
  | nil => exact Nat.le_refl 0
  | cons e es ih =>
    have hplanes : e.planes code ≤ 4 := by
      rw [SignatureElement.planes]
      split
      · exact e.mask.count_le
      · exact Nat.zero_le 4
    rw [planeSum, List.map_cons, List.sum_cons, ← planeSum, List.length_cons]
    omega

theorem Signature.componentsOf_ofCode (s : Signature) (code : UInt32) :
    s.componentsOf (.ofCode code) = planeSum s.elements code := by
  rw [componentsOf, planeSum]
  induction s.elements with
  | nil => rfl
  | cons e es ih =>
    rw [List.map_cons, List.sum_cons, ← ih, SignatureElement.planes, List.filter_cons]
    by_cases hvalue : e.systemValue = .ofCode code <;> simp [hvalue]

theorem PlaneCounts.ofSignature_some (s : Signature) :
    PlaneCounts.ofSignature (some s) = ⟨planeSum s.elements 2, planeSum s.elements 3⟩ := by
  rw [← s.componentsOf_ofCode, ← s.componentsOf_ofCode]
  rfl

namespace Container

/-- The counts of the signature that is chosen for a kind: a missing signature counts as empty, the
counts of one that is there are the sums over its elements, and keeping them in 32 bits loses
nothing. -/
structure CountsPlanes (c : Container) (kind : FourCC) (planes : PlaneCounts) : Prop where
  readable : ∀ fault, c.signature? kind ≠ some (.error fault)
  of_none : c.signature? kind = none → planes = ⟨0, 0⟩
  of_some : ∀ s, c.signature? kind = some (.ok s) →
    planes = ⟨planeSum s.elements 2, planeSum s.elements 3⟩
  fits : ∀ s, c.signature? kind = some (.ok s) →
    ∃ w, PlaneWords.noteAll? ⟨0, 0⟩ s.elements = some w ∧ w.counts = planes

variable {input : Bytes} {c c' : Container} {kind : FourCC} {s : Signature} {s? : Option Signature}

/-- A payload is no longer than its container, whose size is stated in 32 bits. -/
theorem length_payload_lt (h : parse input = .ok c) {k : Chunk} (hk : k ∈ c.chunks) :
    k.payload.length < UInt32.size := by
  obtain ⟨hformed, hcontents⟩ := parse_eq_ok_iff.1 h
  obtain ⟨i, hi, rfl⟩ := List.getElem_of_mem hk
  have hpayload := hformed.payload_le_total i (hcontents.length_chunks ▸ hi)
  have htotal : statedTotal input < UInt32.size := UInt32.toNat_lt _
  rw [hcontents.length_payload i hi]
  omega

/-- A signature has too few elements for a sum over them to need more than 32 bits. -/
theorem planeSum_lt (h : parse input = .ok c) (hs : c.signature? kind = some (.ok s))
    (code : UInt32) : planeSum s.elements code < UInt32.size := by
  obtain ⟨k, hk, -, hreading⟩ := exists_reading_of_signature? hs
  have hpayload := length_payload_lt h hk
  have helements := Signature.length_elements_of_parse hreading
  have hsum := planeSum_le s.elements code
  omega

theorem countsPlanes_of_parse (h : parse input = .ok c) (hs : c.signature? kind = s?.map .ok) :
    c.CountsPlanes kind (.ofSignature s?) := by
  cases s? with
  | none =>
    rw [Option.map_none] at hs
    exact ⟨by simp [hs], fun _ => rfl, by simp [hs], by simp [hs]⟩
  | some s =>
    rw [Option.map_some] at hs
    have hsame : ∀ s', c.signature? kind = some (.ok s') → s' = s := by
      intro s' hs'
      rw [hs] at hs'
      exact (Except.ok.inj (Option.some.inj hs')).symm
    refine ⟨by simp [hs], by simp [hs], ?_, ?_⟩
    · intro s' hs'
      rw [hsame s' hs', PlaneCounts.ofSignature_some]
    · intro s' hs'
      rw [hsame s' hs', PlaneCounts.ofSignature_some]
      obtain ⟨w, hw, hclip, hcull⟩ := PlaneWords.noteAll?_of_lt (w := ⟨0, 0⟩) s.elements
        (by simpa using planeSum_lt h hs 2) (by simpa using planeSum_lt h hs 3)
      refine ⟨w, hw, ?_⟩
      rw [PlaneWords.counts, hclip, hcull]
      simp

/-- The signature of a kind is chosen among the chunks of its spellings. -/
theorem signature?_eq_of_spellings
    (h : ∀ name ∈ kind.spellings, named c.chunks name = named c'.chunks name) :
    c.signature? kind = c'.signature? kind :=
  signature?_congr (h kind (List.mem_cons_self ..)) fun variant hvariant =>
    h variant (List.mem_cons_of_mem _ (Option.mem_toList.2 hvariant))

end Container

open Container

/-- Only the signatures say what the counts are, and no instruction changes them. -/
theorem planes_of_analyzeShader {input : Bytes} {p : Program} {u : ShaderUsage}
    (h : analyzeShader input = .ok (p, u)) :
    ∃ c s, Container.parse input = .ok c ∧ c.Carries s ∧
      u.inputPlanes = .ofSignature s.input ∧ u.outputPlanes = .ofSignature s.output := by
  rcases analyzeShader_cases input with
    ⟨c, s, p', is, hparse, hcarries, -, -, hanalysis, -⟩ | ⟨fault, rest, hanalysis, -⟩
  · rw [h] at hanalysis
    obtain rfl : u = (ShaderUsage.ofSignatures s).noteAll is :=
      congrArg Prod.snd (Except.ok.inj hanalysis)
    have hkept := ShaderUsage.extends_noteAll (.ofSignatures s) is
    exact ⟨c, s, hparse, hcarries, hkept.inputPlanes_eq, hkept.outputPlanes_eq⟩
  · rw [h] at hanalysis
    cases hanalysis

/-- The counts of an analysis are the sums over the input signature and over the output signature,
and 32 bits are enough for them. Whatever program and whatever other chunks two shaders have, they
have the same counts for the signature whose chunks they share. -/
theorem plane_counts_are_sums {input : Bytes} {p : Program} {u : ShaderUsage}
    (h : analyzeShader input = .ok (p, u)) :
    ∃ c, Container.parse input = .ok c ∧
      c.CountsPlanes .isgn u.inputPlanes ∧ c.CountsPlanes .osgn u.outputPlanes ∧
      ∀ other c' p' u', Container.parse other = .ok c' → analyzeShader other = .ok (p', u') →
        ((∀ name ∈ FourCC.isgn.spellings, named c.chunks name = named c'.chunks name) →
          u'.inputPlanes = u.inputPlanes) ∧
        ((∀ name ∈ FourCC.osgn.spellings, named c.chunks name = named c'.chunks name) →
          u'.outputPlanes = u.outputPlanes) := by
  have hinjective : ∀ {s? t? : Option Signature},
      s?.map (.ok : Signature → Except FormatFault Signature) = t?.map .ok → s? = t? :=
    fun heq => Option.map_injective (fun _ _ => Except.ok.inj) heq
  obtain ⟨c, s, hparse, hcarries, hinput, houtput⟩ := planes_of_analyzeShader h
  refine ⟨c, hparse, ?_, ?_, fun other c' p' u' hparse' h' => ?_⟩
  · rw [hinput]
    exact countsPlanes_of_parse hparse hcarries.input_eq
  · rw [houtput]
    exact countsPlanes_of_parse hparse hcarries.output_eq
  obtain ⟨c'', s', hread, hcarries', hinput', houtput'⟩ := planes_of_analyzeShader h'
  obtain rfl : c' = c'' := Except.ok.inj (hparse'.symm.trans hread)
  constructor
  · intro hsame
    have hsignature := signature?_eq_of_spellings hsame
    rw [hcarries.input_eq, hcarries'.input_eq] at hsignature
    rw [hinput, hinput', hinjective hsignature]
  · intro hsame
    have hsignature := signature?_eq_of_spellings hsame
    rw [hcarries.output_eq, hcarries'.output_eq] at hsignature
    rw [houtput, houtput', hinjective hsignature]

/-- Three clip distances over two elements and two cull distances. The high bits of the masks are
set. -/
def planedSignature : List Signature.Description :=
  [⟨"", 0, 2, 3, 1, 0xF3, 0, 0⟩, ⟨"", 1, 2, 3, 2, 0xF8, 0, 0⟩, ⟨"", 0, 3, 3, 3, 0xF5, 0, 0⟩,
    ⟨"", 0, 1, 3, 0, 0xFF, 0, 0⟩]

def planedContainer : Container :=
  ⟨List.replicate 16 0, 184, 2, [⟨.isgn, Signature.build planedSignature⟩,
    ⟨.shex, Bytes.ofDwords discardingProgram.tokens⟩]⟩

def planedShader : Bytes := Container.build planedContainer.chunks

theorem parse_planedShader : Container.parse planedShader = .ok planedContainer := by
  decide +kernel

theorem exists_analyzeShader_planedShader :
    ∃ u, analyzeShader planedShader = .ok (discardingProgram, u) := by
  obtain ⟨is, his, -⟩ := instructions_discardingProgram
  obtain ⟨s, hs⟩ : ∃ s, planedContainer.signatures = .ok s := ⟨_, rfl⟩
  have hprogram : Program.ofContainer planedContainer = .ok discardingProgram := rfl
  rw [analyzeShader_of_parse parse_planedShader, Container.instructions, hs, hprogram]
  simp only [Except.mapError, bind, Except.bind, his]
  exact ⟨_, rfl⟩

theorem plane_counts_of_planedShader :
    ∃ u, analyzeShader planedShader = .ok (discardingProgram, u) ∧
      u.inputPlanes = ⟨3, 2⟩ ∧ u.outputPlanes = ⟨0, 0⟩ := by
  obtain ⟨u, hanalysis⟩ := exists_analyzeShader_planedShader
  obtain ⟨s, hs, hclip, hcull⟩ : ∃ s, planedContainer.signature? .isgn = some (.ok s) ∧
      planeSum s.elements 2 = 3 ∧ planeSum s.elements 3 = 2 := ⟨_, rfl, rfl, rfl⟩
  obtain ⟨c, hparse, hinput, houtput, -⟩ := plane_counts_are_sums hanalysis
  obtain rfl : planedContainer = c := Except.ok.inj (parse_planedShader.symm.trans hparse)
  refine ⟨u, hanalysis, ?_, houtput.of_none rfl⟩
  rw [hinput.of_some s hs, hclip, hcull]

end ShaderKit

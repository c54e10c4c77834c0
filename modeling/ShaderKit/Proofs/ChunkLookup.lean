import ShaderKit.SignatureBuilding
import ShaderKit.Proofs.ContainerRoundTrip
import ShaderKit.Proofs.StreamedAnalysis

/-!
# What an analysis sees of a container

An analysis looks chunks up by their names. It sees the chunks of each name that it asks for in
their order, but neither chunks of other names nor how the chunks of different names are mixed;
and behind a program chunk of shader model 5 it does not see those of shader model 4. Two
containers that are the same in its view have the same analysis, down to the fault that ends it.
-/

namespace ShaderKit

namespace Container

variable {c c' : Container} {kind name : FourCC} {chunks others : List Chunk}

/-- The chunks of a name, in file order. -/
def named (chunks : List Chunk) (name : FourCC) : List Chunk := chunks.filter (·.name = name)

/-- The names of the signatures that an analysis asks for, in both spellings. -/
def signatureNames : List FourCC := [.isgn, .isg1, .osgn, .osg1, .pcsg, .pcg1]

theorem chunk?_eq_head? (c : Container) (name : FourCC) :
    c.chunk? name = (named c.chunks name).head? :=
  List.head?_filter.symm

theorem firstSignature?_congr (h : named c.chunks name = named c'.chunks name) :
    c.firstSignature? name = c'.firstSignature? name := by
  rw [firstSignature?, firstSignature?, ← named, ← named, h]

/-- The signature of a kind depends on the chunks of its two spellings only. -/
theorem signature?_congr (hkind : named c.chunks kind = named c'.chunks kind)
    (hvariant : ∀ variant ∈ kind.signatureVariant?,
      named c.chunks variant = named c'.chunks variant) :
    c.signature? kind = c'.signature? kind := by
  rw [signature?, signature?, firstSignature?_congr hkind]
  cases hv : kind.signatureVariant? with
  | none => rcases c'.firstSignature? kind with _ | _ | _ <;> rfl
  | some variant =>
    have hother := firstSignature?_congr (hvariant variant hv)
    rcases c'.firstSignature? kind with _ | _ | _ <;> simp only [hother]

theorem optionalSignature_congr
    (h : ∀ name ∈ signatureNames, named c.chunks name = named c'.chunks name)
    (hkind : kind ∈ signatureNames)
    (hvariant : ∀ variant ∈ kind.signatureVariant?, variant ∈ signatureNames) :
    c.optionalSignature kind = c'.optionalSignature kind := by
  rw [optionalSignature, optionalSignature,
    signature?_congr (h kind hkind) fun variant hv => h variant (hvariant variant hv)]

theorem signatures_congr
    (h : ∀ name ∈ signatureNames, named c.chunks name = named c'.chunks name) :
    c.signatures = c'.signatures := by
  have hkinds : ∀ kind ∈ [FourCC.isgn, .osgn, .pcsg], kind ∈ signatureNames ∧
      ∀ variant ∈ kind.signatureVariant?, variant ∈ signatureNames := by decide
  have hlookup : ∀ kind ∈ [FourCC.isgn, .osgn, .pcsg],
      c.optionalSignature kind = c'.optionalSignature kind := fun kind hkind =>
    optionalSignature_congr h (hkinds kind hkind).1 (hkinds kind hkind).2
  rw [signatures, signatures, hlookup _ (by decide), hlookup _ (by decide), hlookup _ (by decide)]

/-- The program chunk of shader model 4 counts only where there is none of shader model 5. -/
theorem programChunk?_congr (hshex : named c.chunks .shex = named c'.chunks .shex)
    (hshdr : named c.chunks .shdr = named c'.chunks .shdr ∨ named c.chunks .shex ≠ []) :
    c.programChunk? = c'.programChunk? := by
  simp only [programChunk?, chunk?_eq_head?]
  rcases hshdr with hshdr | hpresent
  · rw [hshex, hshdr]
  · obtain ⟨chunk, rest, hchunks⟩ := List.exists_cons_of_ne_nil hpresent
    rw [← hshex, hchunks]
    rfl

theorem instructions_congr (h : c.programChunk? = c'.programChunk?) :
    c.instructions = c'.instructions := by
  rw [instructions, instructions, Program.ofContainer, Program.ofContainer, h]

theorem exists_parse_build (hcount : chunks.length ≤ maxChunkCount)
    (hlength : (build chunks).length < 2 ^ 32) :
    ∃ c, parse (build chunks) = .ok c ∧ c.chunks = chunks := by
  have hread := parse_eq_ok_iff.2
    ⟨wellFormed_build hlength [] hcount, isContents_build hlength []⟩
  rw [List.append_nil] at hread
  exact ⟨_, hread, rfl⟩

end Container

open Container

/-- Two written containers have the same analysis if they have the same chunks of each name that
an analysis asks for, in the same order. Where there is a program chunk of shader model 5, those
of shader model 4 may differ. -/
theorem analyzeShader_build_eq {chunks others : List Chunk}
    (hcount : chunks.length ≤ 4096) (hcount' : others.length ≤ 4096)
    (hlength : (build chunks).length < 2 ^ 32) (hlength' : (build others).length < 2 ^ 32)
    (hsignatures : ∀ name ∈ signatureNames, named chunks name = named others name)
    (hshex : named chunks .shex = named others .shex)
    (hshdr : named chunks .shdr = named others .shdr ∨ named chunks .shex ≠ []) :
    analyzeShader (build chunks) = analyzeShader (build others) := by
  obtain ⟨c, hparse, rfl⟩ := exists_parse_build hcount hlength
  obtain ⟨c', hparse', rfl⟩ := exists_parse_build hcount' hlength'
  rw [analyzeShader_of_parse hparse, analyzeShader_of_parse hparse', signatures_congr hsignatures,
    instructions_congr (programChunk?_congr hshex hshdr)]

/-- A signature that cannot be read and one that can, in front of programs of both shader models. -/
def mixedChunks : List Chunk :=
  [⟨.isgn, [1]⟩, ⟨.isgn, Signature.build []⟩, ⟨.shdr, [2]⟩, ⟨.shex, Bytes.ofDwords [0x50, 2]⟩]

/-- The same in another order, among other chunks and with another program of shader model 4. -/
def remixedChunks : List Chunk :=
  [⟨.shex, Bytes.ofDwords [0x50, 2]⟩, ⟨.isgn, [1]⟩, ⟨.psgn, [3]⟩, ⟨.shdr, [4, 5]⟩,
    ⟨.isgn, Signature.build []⟩, ⟨.psgn, [6]⟩]

theorem analyzeShader_mixedChunks :
    mixedChunks.length ≤ 4096 ∧ remixedChunks.length ≤ 4096 ∧
      (build mixedChunks).length < 2 ^ 32 ∧ (build remixedChunks).length < 2 ^ 32 ∧
      (∀ name ∈ signatureNames, named mixedChunks name = named remixedChunks name) ∧
      named mixedChunks .shex = named remixedChunks .shex ∧ named mixedChunks .shex ≠ [] ∧
      named mixedChunks .shdr ≠ named remixedChunks .shdr ∧
      analyzeShader (build mixedChunks) = analyzeShader (build remixedChunks) := by
  have hlength : (build mixedChunks).length < 2 ^ 32 := by
    rw [length_build]
    decide
  have hlength' : (build remixedChunks).length < 2 ^ 32 := by
    rw [length_build]
    decide
  have hsignatures : ∀ name ∈ signatureNames,
      named mixedChunks name = named remixedChunks name := by decide
  have hpresent : named mixedChunks .shex ≠ [] := by decide
  refine ⟨by decide, by decide, hlength, hlength', hsignatures, by decide, hpresent, by decide, ?_⟩
  exact analyzeShader_build_eq (by decide) (by decide) hlength hlength' hsignatures (by decide)
    (.inr hpresent)

end ShaderKit

import Mathlib.Data.Set.Function
import ShaderKit.ComputeShader
import ShaderKit.Proofs.TextBytes

/-!
# Shaders with the same key

A compute shader is made in steps. Each of them writes the interface that the shader has from then
on and takes the key from what was written, so that the key belongs to the last interface, which
forgets the order of steps that set different things.

What was written says what the interface is. Each part of it says where it ends: a number has a
fixed width, and a text or a list stands behind its length. The parts can thus be told apart from
the front, also where one looks like the length of another.
-/

namespace ShaderKit

namespace Bytes

section SelfDelimiting

variable {α : Type} {write : α → Bytes}

/-- What is written for an item of the set says which item it is and where its bytes end. -/
def SelfDelimiting (write : α → Bytes) (s : Set α) : Prop :=
  ∀ ⦃a⦄, a ∈ s → ∀ ⦃b⦄, b ∈ s → ∀ ⦃rest rest' : Bytes⦄,
    write a ++ rest = write b ++ rest' → a = b ∧ rest = rest'

theorem SelfDelimiting.injOn {s : Set α} (h : SelfDelimiting write s) : Set.InjOn write s :=
  fun _ ha _ hb hsame => (h ha hb (congrArg (· ++ []) hsame)).1

theorem selfDelimiting_singleton : SelfDelimiting (fun b : UInt8 => [b]) .univ :=
  fun _ _ _ _ _ _ h => List.cons.inj h

theorem selfDelimiting_ofDword : SelfDelimiting ofDword .univ := by
  intro w _ w' _ rest rest' h
  have hread : dwordAt? (ofDword w' ++ rest') 0 = some w := h ▸ dwordAt?_append [] w rest
  obtain rfl : w' = w := Option.some.inj ((dwordAt?_append [] w' rest').symm.trans hread)
  exact ⟨rfl, List.append_cancel_left h⟩

theorem selfDelimiting_ofQword : SelfDelimiting ofQword {n | n < 2 ^ 64} := by
  intro m hm n hn rest rest' h
  rw [ofQword, ofQword, List.append_assoc, List.append_assoc] at h
  obtain ⟨hlow, h⟩ := selfDelimiting_ofDword trivial trivial h
  obtain ⟨hhigh, hrest⟩ := selfDelimiting_ofDword trivial trivial h
  have hlow := congrArg UInt32.toNat hlow
  have hhigh := congrArg UInt32.toNat hhigh
  simp only [UInt32.toNat_ofNat', Nat.shiftRight_eq_div_pow] at hlow hhigh
  rw [Set.mem_ofPred_eq] at hm hn
  exact ⟨by omega, hrest⟩

/-- Items are told apart one by one if it is known how many there are. -/
theorem SelfDelimiting.flatMap (hwrite : SelfDelimiting write .univ) (n : Nat) :
    SelfDelimiting (fun items : List α => items.flatMap write) {items | items.length = n} := by
  intro items hitems others hothers rest rest' h
  -- Of lists of different lengths, the rest behind the shorter one could look like an item.
  induction n generalizing items others with
  | zero =>
    obtain rfl := List.eq_nil_of_length_eq_zero hitems
    obtain rfl := List.eq_nil_of_length_eq_zero hothers
    exact ⟨rfl, h⟩
  | succ n ih =>
    obtain ⟨item, items, rfl⟩ := List.exists_cons_of_length_eq_add_one hitems
    obtain ⟨other, others, rfl⟩ := List.exists_cons_of_length_eq_add_one hothers
    simp only [List.flatMap_cons, List.append_assoc] at h
    obtain ⟨hhead, h⟩ := hwrite trivial trivial h
    obtain ⟨htail, hrest⟩ := ih (Nat.succ.inj hitems) (Nat.succ.inj hothers) h
    exact ⟨congrArg₂ List.cons hhead htail, hrest⟩

/-- A list behind the number of its items. -/
def counted (write : α → Bytes) (items : List α) : Bytes :=
  ofQword items.length ++ items.flatMap write

theorem SelfDelimiting.counted (hwrite : SelfDelimiting write .univ) :
    SelfDelimiting (counted write) {items | items.length < 2 ^ 64} := by
  intro items hitems others hothers rest rest' h
  rw [Bytes.counted, Bytes.counted, List.append_assoc, List.append_assoc] at h
  obtain ⟨hcount, h⟩ := selfDelimiting_ofQword hitems hothers h
  exact hwrite.flatMap others.length hcount rfl h

end SelfDelimiting

end Bytes

theorem DescriptorType.code_lt (t : DescriptorType) : t.code < 256 := by
  cases t <;> decide

theorem ViewType.code_lt (v : ViewType) : v.code < 256 := by
  cases v <;> decide

namespace ShaderInterface

open Bytes

theorem textBytes_eq_counted (s : String) : textBytes s = counted (fun b => [b]) (ofText s) := by
  rw [textBytes, counted, List.flatMap_singleton']

theorem selfDelimiting_textBytes :
    SelfDelimiting textBytes {s | (ofText s).length < 2 ^ 64} := by
  intro s hs t ht rest rest' h
  rw [textBytes_eq_counted, textBytes_eq_counted] at h
  obtain ⟨hsame, hrest⟩ := selfDelimiting_singleton.counted hs ht h
  exact ⟨ofText_injective hsame, hrest⟩

theorem selfDelimiting_slotBytes : SelfDelimiting slotBytes .univ := by
  rintro ⟨slot, type, view, access⟩ _ ⟨slot', type', view', access'⟩ _ rest rest' h
  simp only [slotBytes, List.append_assoc, List.cons_append, List.nil_append] at h
  obtain ⟨hslot, h⟩ := selfDelimiting_ofDword trivial trivial h
  obtain ⟨htype, h⟩ := List.cons.inj h
  obtain ⟨hview, h⟩ := List.cons.inj h
  obtain ⟨haccess, hrest⟩ := selfDelimiting_ofDword trivial trivial h
  obtain rfl : type = type' := DescriptorType.code_injective <| by
    simpa [Nat.mod_eq_of_lt, type.code_lt, type'.code_lt] using congrArg UInt8.toNat htype
  obtain rfl : view = view' := ViewType.code_injective <| by
    simpa [Nat.mod_eq_of_lt, view.code_lt, view'.code_lt] using congrArg UInt8.toNat hview
  subst hslot haccess
  exact ⟨rfl, hrest⟩

/-- The lengths of texts and lists fit into the qwords in front of them. -/
structure Fits (i : ShaderInterface) : Prop where
  code : (ofText i.code).length < 2 ^ 64
  entryPoint : (ofText i.entryPoint).length < 2 ^ 64
  slots : i.slots.length < 2 ^ 64
  overrides : i.overrides.length < 2 ^ 64

theorem bytes_eq_counted (i : ShaderInterface) :
    i.bytes = textBytes i.code ++ (textBytes i.entryPoint ++
      ([i.workgroup.x, i.workgroup.y, i.workgroup.z, i.subgroupSize].flatMap ofDword ++
        (counted slotBytes i.slots ++ counted ofDword i.overrides))) := by
  simp only [bytes, counted, ofDwords, List.append_assoc]

theorem selfDelimiting_bytes : SelfDelimiting bytes {i | i.Fits} := by
  intro i hi j hj rest rest' h
  rw [bytes_eq_counted, bytes_eq_counted] at h
  simp only [List.append_assoc] at h
  obtain ⟨hcode, h⟩ := selfDelimiting_textBytes hi.code hj.code h
  obtain ⟨hentry, h⟩ := selfDelimiting_textBytes hi.entryPoint hj.entryPoint h
  obtain ⟨hsizes, h⟩ := selfDelimiting_ofDword.flatMap 4 rfl rfl h
  obtain ⟨hslots, h⟩ := selfDelimiting_slotBytes.counted hi.slots hj.slots h
  obtain ⟨hoverrides, hrest⟩ := selfDelimiting_ofDword.counted hi.overrides hj.overrides h
  obtain ⟨code, entryPoint, ⟨x, y, z⟩, subgroupSize, slots, overrides⟩ := i
  obtain ⟨code', entryPoint', ⟨x', y', z'⟩, subgroupSize', slots', overrides'⟩ := j
  simp only [List.cons.injEq, and_true] at hsizes
  obtain ⟨rfl, rfl, rfl, rfl⟩ := hsizes
  subst hcode hentry hslots hoverrides
  exact ⟨rfl, hrest⟩

theorem bytes_eq_iff {i j : ShaderInterface} (hi : i.Fits) (hj : j.Fits) :
    i.bytes = j.bytes ↔ i.code = j.code ∧ i.entryPoint = j.entryPoint ∧
      i.workgroup = j.workgroup ∧ i.subgroupSize = j.subgroupSize ∧ i.slots = j.slots ∧
      i.overrides = j.overrides := by
  rw [selfDelimiting_bytes.injOn.eq_iff hi hj]
  cases i
  cases j
  simp only [mk.injEq]

end ShaderInterface

/-- A step in the making of a shader. -/
inductive ShaderEdit where
  | workgroup (size : WorkgroupSize)
  | subgroupSize (size : UInt32)
  | slots (slots : List ResourceSlot)
  | overrides (ids : List UInt32)

namespace ShaderEdit

def workgroup? : ShaderEdit → Option WorkgroupSize
  | workgroup size => some size
  | _ => none

def subgroupSize? : ShaderEdit → Option UInt32
  | subgroupSize size => some size
  | _ => none

def addedSlots : ShaderEdit → List ResourceSlot
  | slots ss => ss
  | _ => []

def addedOverrides : ShaderEdit → List UInt32
  | overrides ids => ids
  | _ => []

end ShaderEdit

/-- The interface after a number of steps: sizes are those of the last steps that set them, and
slots and constants of all steps come behind each other. -/
def ShaderInterface.edited (i : ShaderInterface) (edits : List ShaderEdit) : ShaderInterface where
  code := i.code
  entryPoint := i.entryPoint
  workgroup := (edits.filterMap ShaderEdit.workgroup?).getLastD i.workgroup
  subgroupSize := (edits.filterMap ShaderEdit.subgroupSize?).getLastD i.subgroupSize
  slots := i.slots ++ edits.flatMap ShaderEdit.addedSlots
  overrides := i.overrides ++ edits.flatMap ShaderEdit.addedOverrides

theorem ShaderInterface.edited_nil (i : ShaderInterface) : i.edited [] = i := by
  simp [edited]

theorem ShaderInterface.edited_cons (i : ShaderInterface) (e : ShaderEdit)
    (edits : List ShaderEdit) : i.edited (e :: edits) = (i.edited [e]).edited edits := by
  cases e <;>
    simp only [edited, List.filterMap_cons, List.filterMap_nil, List.flatMap_cons,
      List.flatMap_nil, ShaderEdit.workgroup?, ShaderEdit.subgroupSize?, ShaderEdit.addedSlots,
      ShaderEdit.addedOverrides, List.getLastD_cons, List.getLastD_nil, List.append_assoc,
      List.append_nil, List.nil_append]

namespace ComputeShader

def Fresh (s : ComputeShader) : Prop := s.key = .ofCode .compute s.interface.bytes

def edit (s : ComputeShader) : ShaderEdit → ComputeShader
  | .workgroup size => s.withWorkgroup size
  | .subgroupSize size => s.withSubgroupSize size
  | .slots ss => s.withSlots ss
  | .overrides ids => s.withOverrides ids

def editAll (s : ComputeShader) (edits : List ShaderEdit) : ComputeShader := edits.foldl edit s

variable {s : ComputeShader}

theorem fresh_edit (s : ComputeShader) (e : ShaderEdit) : (s.edit e).Fresh := by
  cases e <;> rfl

theorem Fresh.editAll (h : s.Fresh) (edits : List ShaderEdit) : (s.editAll edits).Fresh := by
  induction edits generalizing s with
  | nil => exact h
  | cons e edits ih => exact ih (fresh_edit s e)

theorem interface_edit (s : ComputeShader) (e : ShaderEdit) :
    (s.edit e).interface = s.interface.edited [e] := by
  cases e <;>
    simp [edit, ofInterface, withWorkgroup, withSubgroupSize, withSlots, withOverrides,
      ShaderInterface.edited, ShaderEdit.workgroup?, ShaderEdit.subgroupSize?,
      ShaderEdit.addedSlots, ShaderEdit.addedOverrides]

theorem interface_editAll (s : ComputeShader) (edits : List ShaderEdit) :
    (s.editAll edits).interface = s.interface.edited edits := by
  induction edits generalizing s with
  | nil => exact (s.interface.edited_nil).symm
  | cons e edits ih =>
    rw [ComputeShader.editAll, List.foldl_cons, ← ComputeShader.editAll, ih, interface_edit,
      ← ShaderInterface.edited_cons]

end ComputeShader

/-- How a shader is made: from a code and in steps. -/
structure ShaderRecipe where
  name : String
  code : String
  entryPoint : String
  edits : List ShaderEdit

namespace ShaderRecipe

def shader (r : ShaderRecipe) : ComputeShader :=
  (ComputeShader.ofCode r.name r.code r.entryPoint).editAll r.edits

def interface (r : ShaderRecipe) : ShaderInterface :=
  ShaderInterface.edited ⟨r.code, r.entryPoint, ⟨1, 1, 1⟩, 0, [], []⟩ r.edits

/-- However a shader is made, its key is the hash of its last interface, and what is hashed tells
interfaces apart. -/
theorem key_shader_and_bytes_eq_iff (r : ShaderRecipe) :
    r.shader.key = ⟨.compute, Blake3.hash r.shader.interface.bytes⟩ ∧
      r.shader.interface = r.interface ∧
      ∀ q : ShaderRecipe, r.shader.interface.Fits → q.shader.interface.Fits →
        (r.shader.interface.bytes = q.shader.interface.bytes ↔
          r.shader.interface.code = q.shader.interface.code ∧
          r.shader.interface.entryPoint = q.shader.interface.entryPoint ∧
          r.shader.interface.workgroup = q.shader.interface.workgroup ∧
          r.shader.interface.subgroupSize = q.shader.interface.subgroupSize ∧
          r.shader.interface.slots = q.shader.interface.slots ∧
          r.shader.interface.overrides = q.shader.interface.overrides) := by
  have hfresh : (ComputeShader.ofCode r.name r.code r.entryPoint).Fresh := rfl
  exact ⟨hfresh.editAll r.edits, ComputeShader.interface_editAll _ _,
    fun _ hr hq => ShaderInterface.bytes_eq_iff hr hq⟩

/-- A shader whose slots are added one by one. -/
def tiled : ShaderRecipe where
  name := "tiled"
  code := "fn main"
  entryPoint := "main"
  edits := [.workgroup ⟨8, 8, 1⟩, .slots [⟨4, .storageBuffer, .none, 2⟩], .subgroupSize 32,
    .slots [⟨1, .uniformBuffer, .none, 1⟩], .overrides [384]]

/-- The same in another order, with sizes that are set twice. -/
def retiled : ShaderRecipe where
  name := "retiled"
  code := "fn main"
  entryPoint := "main"
  edits := [.subgroupSize 16, .overrides [384], .workgroup ⟨64, 1, 1⟩,
    .slots [⟨4, .storageBuffer, .none, 2⟩, ⟨1, .uniformBuffer, .none, 1⟩], .subgroupSize 32,
    .slots [], .workgroup ⟨8, 8, 1⟩]

/-- The same texts behind each other, but split elsewhere. -/
def resplit : ShaderRecipe := { tiled with code := "fn ", entryPoint := "mainmain" }

theorem key_tiled_eq_key_retiled :
    tiled.shader.interface.Fits ∧ retiled.shader.interface.Fits ∧ resplit.shader.interface.Fits ∧
      tiled.shader.key = retiled.shader.key ∧
      tiled.shader.interface.bytes ≠ resplit.shader.interface.bytes := by
  have htiled : tiled.shader.interface.Fits := ⟨by decide, by decide, by decide, by decide⟩
  have hretiled : retiled.shader.interface.Fits := ⟨by decide, by decide, by decide, by decide⟩
  have hresplit : resplit.shader.interface.Fits := ⟨by decide, by decide, by decide, by decide⟩
  obtain ⟨hkey, -, hiff⟩ := key_shader_and_bytes_eq_iff tiled
  obtain ⟨hkey', -, -⟩ := key_shader_and_bytes_eq_iff retiled
  have hsame := (hiff retiled htiled hretiled).2 (by decide)
  refine ⟨htiled, hretiled, hresplit, by rw [hkey, hkey', hsame], fun hbytes => ?_⟩
  exact absurd ((hiff resplit htiled hresplit).1 hbytes).1 (by decide)

end ShaderRecipe

end ShaderKit

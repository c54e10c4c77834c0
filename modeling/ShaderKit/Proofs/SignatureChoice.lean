import ShaderKit.SignatureSelection

/-!
# Which signature is chosen

A kind of signature has one or two spellings, and a container may hold any number of chunks of
each, of which some can be read and others cannot. The choice is made in the order of the
spellings first and of the file second: a readable chunk of the asked spelling comes before those of
the other one, wherever they stand. A fault shows only where nothing can be read, and then it is the
fault of the chunk that was tried first.
-/

namespace ShaderKit

/-- The spellings of a kind of signature in the order in which they are tried. -/
def FourCC.spellings (kind : FourCC) : List FourCC := kind :: kind.signatureVariant?.toList

theorem FourCC.mem_spellings {kind name : FourCC} :
    name ∈ kind.spellings ↔ name = kind ∨ kind.signatureVariant? = some name := by
  rw [spellings, List.mem_cons, Option.mem_toList]

theorem FourCC.forall_mem_spellings {kind : FourCC} {p : FourCC → Prop} :
    (∀ name ∈ kind.spellings, p name) ↔
      p kind ∧ ∀ variant, kind.signatureVariant? = some variant → p variant := by
  simp [spellings]

namespace Chunk

variable {k : Chunk} {name : FourCC} {s : Signature}

/-- What comes of reading a chunk as a signature, with entries of the length that its own name calls
for. -/
def reading (k : Chunk) : Except SignatureFault Signature := Signature.parse k.name k.payload

/-- The signature in a chunk, if it has the name and can be read. -/
def signatureAs? (k : Chunk) (name : FourCC) : Option Signature :=
  if k.name = name then k.reading.toOption else none

theorem signatureAs?_eq_some_iff :
    k.signatureAs? name = some s ↔ k.name = name ∧ k.reading = .ok s := by
  rw [signatureAs?]
  split
  · next h => cases hreading : k.reading <;> simp [Except.toOption, h]
  · next h => simp [h]

theorem signatureAs?_eq_none_iff :
    k.signatureAs? name = none ↔ (k.name = name → ∀ s, k.reading ≠ .ok s) := by
  rw [Option.eq_none_iff_forall_ne_some]
  simp only [ne_eq, signatureAs?_eq_some_iff, not_and]
  exact ⟨fun h hname s => h s hname, fun h s hname => h hname s⟩

end Chunk

namespace Container

variable {c : Container} {chunks : List Chunk} {kind name : FourCC} {s t : Signature}
  {fault : SignatureFault} {e : FormatFault}

/-- No chunk of a name can be read. -/
def Unreadable (chunks : List Chunk) (name : FourCC) : Prop :=
  ∀ k ∈ chunks, k.name = name → ∀ s, k.reading ≠ .ok s

/-- The first chunk of a name that can be read has the given signature. -/
def FirstReadable (chunks : List Chunk) (name : FourCC) (s : Signature) : Prop :=
  ∃ before k after, chunks = before ++ k :: after ∧ k.name = name ∧ k.reading = .ok s ∧
    Unreadable before name

/-- The first chunk of a name cannot be read for the given fault. -/
def FirstFaulty (chunks : List Chunk) (name : FourCC) (fault : SignatureFault) : Prop :=
  ∃ before k after, chunks = before ++ k :: after ∧ k.name = name ∧ k.reading = .error fault ∧
    ∀ j ∈ before, j.name ≠ name

/-- The chunk that was tried first, which is the first of the asked spelling or, if there is none,
the first of the other one, cannot be read for the given fault. -/
def FirstTried (chunks : List Chunk) (kind name : FourCC) (fault : SignatureFault) : Prop :=
  FirstFaulty chunks name fault ∧
    (name = kind ∨ (∀ k ∈ chunks, k.name ≠ kind) ∧ kind.signatureVariant? = some name)

theorem unreadable_iff :
    Unreadable chunks name ↔ chunks.findSome? (·.signatureAs? name) = none := by
  simp only [Unreadable, List.findSome?_eq_none_iff, Chunk.signatureAs?_eq_none_iff]

theorem firstReadable_iff :
    FirstReadable chunks name s ↔ chunks.findSome? (·.signatureAs? name) = some s := by
  simp only [FirstReadable, Unreadable, List.findSome?_eq_some_iff,
    Chunk.signatureAs?_eq_some_iff, Chunk.signatureAs?_eq_none_iff, and_assoc]

theorem exists_firstReadable_iff :
    (∃ s, FirstReadable chunks name s) ↔ ∃ k ∈ chunks, k.name = name ∧ ∃ s, k.reading = .ok s := by
  simp only [firstReadable_iff, ← Option.isSome_iff_exists, List.findSome?_isSome_iff]
  simp only [Option.isSome_iff_exists, Chunk.signatureAs?_eq_some_iff, exists_and_left]

theorem unreadable_iff_not_exists :
    Unreadable chunks name ↔ ¬ ∃ s, FirstReadable chunks name s := by
  rw [exists_firstReadable_iff]
  simp [Unreadable]

theorem FirstReadable.not_unreadable (h : FirstReadable chunks name s) :
    ¬ Unreadable chunks name :=
  fun hunreadable => unreadable_iff_not_exists.1 hunreadable ⟨s, h⟩

theorem FirstReadable.exists_mem (h : FirstReadable chunks name s) :
    ∃ k ∈ chunks, k.name = name ∧ k.reading = .ok s := by
  obtain ⟨before, k, after, rfl, hname, hreading, -⟩ := h
  exact ⟨k, by simp, hname, hreading⟩

theorem FirstReadable.unique (h : FirstReadable chunks name s) (h' : FirstReadable chunks name t) :
    s = t :=
  Option.some.inj ((firstReadable_iff.1 h).symm.trans (firstReadable_iff.1 h'))

theorem firstFaulty_iff :
    FirstFaulty chunks name fault ↔
      ∃ k, chunks.find? (·.name = name) = some k ∧ k.reading = .error fault := by
  simp only [FirstFaulty, List.find?_eq_some_iff_append, decide_eq_true_eq,
    Bool.not_eq_true', decide_eq_false_iff_not]
  constructor
  · rintro ⟨before, k, after, hchunks, hname, hreading, hbefore⟩
    exact ⟨k, ⟨hname, before, after, hchunks, hbefore⟩, hreading⟩
  · rintro ⟨k, ⟨hname, before, after, hchunks, hbefore⟩, hreading⟩
    exact ⟨before, k, after, hchunks, hname, hreading, hbefore⟩

theorem FirstFaulty.unique {fault' : SignatureFault} (h : FirstFaulty chunks name fault)
    (h' : FirstFaulty chunks name fault') : fault = fault' := by
  obtain ⟨k, hk, hreading⟩ := firstFaulty_iff.1 h
  obtain ⟨k', hk', hreading'⟩ := firstFaulty_iff.1 h'
  obtain rfl := Option.some.inj (hk.symm.trans hk')
  exact Except.error.inj (hreading.symm.trans hreading')

theorem FirstFaulty.exists_mem (h : FirstFaulty chunks name fault) :
    ∃ k ∈ chunks, k.name = name ∧ k.reading = .error fault := by
  obtain ⟨before, k, after, rfl, hname, hreading, -⟩ := h
  exact ⟨k, by simp, hname, hreading⟩

section OneSpelling

/-- The two searches among the chunks of one spelling, over all chunks of the file. -/
theorem firstSignature?_eq (c : Container) (name : FourCC) :
    c.firstSignature? name =
      match c.chunks.findSome? (·.signatureAs? name) with
      | some s => some (.ok s)
      | none => (c.chunks.find? (·.name = name)).map fun k =>
          k.reading.mapError (.signatureChunk name) := by
  have hreadable : ((c.chunks.filter (·.name = name)).map fun k =>
      Signature.parse name k.payload).findSome? Except.toOption =
        c.chunks.findSome? (·.signatureAs? name) := by
    rw [List.findSome?_map, ← List.head?_filterMap, List.filterMap_filter, List.head?_filterMap]
    congr 1
    funext k
    by_cases hname : k.name = name <;> simp [Chunk.signatureAs?, Chunk.reading, hname]
  have hfirst : ((c.chunks.filter (·.name = name)).map fun k =>
      Signature.parse name k.payload).head? =
        (c.chunks.find? (·.name = name)).map Chunk.reading := by
    rw [List.head?_map, List.head?_filter]
    refine Option.map_congr fun k hk => ?_
    rw [Chunk.reading, show k.name = name by simpa using List.find?_some hk]
  rw [firstSignature?, hreadable, hfirst, Option.map_map]
  rfl

/-- What the chunks of one spelling can come to. -/
inductive SpellingOutcome (chunks : List Chunk) (name : FourCC) :
    Option (Except FormatFault Signature) → Prop
  | absent (habsent : ∀ k ∈ chunks, k.name ≠ name) : SpellingOutcome chunks name none
  | readable {s : Signature} (hfirst : FirstReadable chunks name s) :
      SpellingOutcome chunks name (some (.ok s))
  | faulty {fault : SignatureFault} (hunreadable : Unreadable chunks name)
      (hfirst : FirstFaulty chunks name fault) :
      SpellingOutcome chunks name (some (.error (.signatureChunk name fault)))

theorem firstSignature?_outcome (c : Container) (name : FourCC) :
    SpellingOutcome c.chunks name (c.firstSignature? name) := by
  rw [firstSignature?_eq]
  cases hreadable : c.chunks.findSome? (·.signatureAs? name) with
  | some s => exact .readable (firstReadable_iff.2 hreadable)
  | none =>
    have hunreadable := unreadable_iff.2 hreadable
    cases hfind : c.chunks.find? (·.name = name) with
    | none => exact .absent (by simpa using hfind)
    | some k =>
      have hname : k.name = name := by simpa using List.find?_some hfind
      cases hreading : k.reading with
      | ok s => exact absurd hreading (hunreadable k (List.mem_of_find?_eq_some hfind) hname s)
      | error fault =>
        simp only [Option.map_some, hreading]
        exact .faulty hunreadable (firstFaulty_iff.2 ⟨k, hfind, hreading⟩)

theorem firstSignature?_eq_none_iff :
    c.firstSignature? name = none ↔ ∀ k ∈ c.chunks, k.name ≠ name := by
  have houtcome := c.firstSignature?_outcome name
  generalize c.firstSignature? name = outcome at houtcome ⊢
  cases houtcome with
  | absent habsent => exact iff_of_true rfl habsent
  | readable hfirst =>
    obtain ⟨k, hk, hname, -⟩ := exists_firstReadable_iff.1 ⟨_, hfirst⟩
    exact iff_of_false (Option.some_ne_none _) fun habsent => habsent k hk hname
  | faulty hunreadable hfirst =>
    obtain ⟨k, hk, hname, -⟩ := hfirst.exists_mem
    exact iff_of_false (Option.some_ne_none _) fun habsent => habsent k hk hname

theorem firstSignature?_eq_ok_iff :
    c.firstSignature? name = some (.ok s) ↔ FirstReadable c.chunks name s := by
  have houtcome := c.firstSignature?_outcome name
  generalize c.firstSignature? name = outcome at houtcome ⊢
  cases houtcome with
  | absent habsent =>
    refine iff_of_false (by simp) fun hfirst => ?_
    obtain ⟨k, hk, hname, -⟩ := exists_firstReadable_iff.1 ⟨s, hfirst⟩
    exact habsent k hk hname
  | readable hfirst =>
    rw [Option.some.injEq, Except.ok.injEq]
    exact ⟨fun heq => heq ▸ hfirst, hfirst.unique⟩
  | faulty hunreadable =>
    exact iff_of_false (by simp) fun hfirst => hfirst.not_unreadable hunreadable

theorem firstSignature?_ne_ok_iff :
    (∀ s, c.firstSignature? name ≠ some (.ok s)) ↔ Unreadable c.chunks name := by
  simp only [ne_eq, firstSignature?_eq_ok_iff, ← not_exists, unreadable_iff_not_exists]

theorem firstSignature?_eq_error_iff :
    c.firstSignature? name = some (.error e) ↔ Unreadable c.chunks name ∧
      ∃ fault, FirstFaulty c.chunks name fault ∧ e = .signatureChunk name fault := by
  have houtcome := c.firstSignature?_outcome name
  generalize c.firstSignature? name = outcome at houtcome ⊢
  cases houtcome with
  | absent habsent =>
    refine iff_of_false (by simp) ?_
    rintro ⟨-, fault, hfirst, -⟩
    obtain ⟨k, hk, hname, -⟩ := hfirst.exists_mem
    exact habsent k hk hname
  | readable hfirst =>
    exact iff_of_false (by simp) fun h => hfirst.not_unreadable h.1
  | @faulty fault hunreadable hfirst =>
    rw [Option.some.injEq, Except.error.injEq]
    constructor
    · rintro rfl
      exact ⟨hunreadable, fault, hfirst, rfl⟩
    · rintro ⟨-, fault', hfirst', rfl⟩
      rw [hfirst.unique hfirst']

end OneSpelling

section TwoSpellings

/-- What the chunks of the other spelling come to, if there is another one. -/
def variantSignature? (c : Container) (kind : FourCC) : Option (Except FormatFault Signature) :=
  kind.signatureVariant?.bind c.firstSignature?

/-- The outcomes of the two spellings are put together without another look at the chunks. -/
theorem signature?_eq (c : Container) (kind : FourCC) :
    c.signature? kind =
      match c.firstSignature? kind, c.variantSignature? kind with
      | some (.ok s), _ => some (.ok s)
      | _, some (.ok s) => some (.ok s)
      | none, other => other
      | asked, _ => asked := by
  rw [signature?, variantSignature?]
  cases kind.signatureVariant? with
  | none => rcases c.firstSignature? kind with _ | _ | _ <;> rfl
  | some variant =>
    rcases c.firstSignature? kind with _ | _ | _ <;>
      rcases hother : c.firstSignature? variant with _ | _ | _ <;>
        simp only [Option.bind_some, hother]

theorem signature?_eq_none_iff :
    c.signature? kind = none ↔
      c.firstSignature? kind = none ∧ c.variantSignature? kind = none := by
  rw [signature?_eq]
  rcases c.firstSignature? kind with _ | _ | _ <;>
    rcases c.variantSignature? kind with _ | _ | _ <;> simp

theorem signature?_eq_ok_iff :
    c.signature? kind = some (.ok s) ↔ c.firstSignature? kind = some (.ok s) ∨
      (∀ t, c.firstSignature? kind ≠ some (.ok t)) ∧
        c.variantSignature? kind = some (.ok s) := by
  rw [signature?_eq]
  rcases c.firstSignature? kind with _ | _ | _ <;>
    rcases c.variantSignature? kind with _ | _ | _ <;> simp

theorem signature?_eq_error_iff :
    c.signature? kind = some (.error e) ↔
      (∀ t, c.variantSignature? kind ≠ some (.ok t)) ∧
        (c.firstSignature? kind = some (.error e) ∨
          c.firstSignature? kind = none ∧ c.variantSignature? kind = some (.error e)) := by
  rw [signature?_eq]
  rcases c.firstSignature? kind with _ | _ | _ <;>
    rcases c.variantSignature? kind with _ | _ | _ <;> simp

theorem variantSignature?_eq_none_iff :
    c.variantSignature? kind = none ↔
      ∀ variant, kind.signatureVariant? = some variant → ∀ k ∈ c.chunks, k.name ≠ variant := by
  simp only [variantSignature?, Option.bind_eq_none_iff, firstSignature?_eq_none_iff]

theorem variantSignature?_eq_ok_iff :
    c.variantSignature? kind = some (.ok s) ↔
      ∃ variant, kind.signatureVariant? = some variant ∧ FirstReadable c.chunks variant s := by
  simp only [variantSignature?, Option.bind_eq_some_iff, firstSignature?_eq_ok_iff]

theorem variantSignature?_ne_ok_iff :
    (∀ t, c.variantSignature? kind ≠ some (.ok t)) ↔
      ∀ variant, kind.signatureVariant? = some variant → Unreadable c.chunks variant := by
  simp only [variantSignature?, ne_eq, Option.bind_eq_some_iff, not_exists, not_and]
  exact ⟨fun h variant hv => firstSignature?_ne_ok_iff.1 fun t => h t variant hv,
    fun h t variant hv => firstSignature?_ne_ok_iff.2 (h variant hv) t⟩

theorem variantSignature?_eq_error_iff :
    c.variantSignature? kind = some (.error e) ↔
      ∃ variant, kind.signatureVariant? = some variant ∧ Unreadable c.chunks variant ∧
        ∃ fault, FirstFaulty c.chunks variant fault ∧ e = .signatureChunk variant fault := by
  simp only [variantSignature?, Option.bind_eq_some_iff, firstSignature?_eq_error_iff]

theorem signature?_eq_none_iff_absent :
    c.signature? kind = none ↔ ∀ k ∈ c.chunks, k.name ∉ kind.spellings := by
  rw [signature?_eq_none_iff, firstSignature?_eq_none_iff, variantSignature?_eq_none_iff,
    ← FourCC.forall_mem_spellings (p := fun name => ∀ k ∈ c.chunks, k.name ≠ name)]
  exact ⟨fun h k hk hname => h k.name hname k hk rfl,
    fun h name hname k hk heq => h k hk (heq ▸ hname)⟩

theorem signature?_eq_ok_iff_firstReadable :
    c.signature? kind = some (.ok s) ↔ FirstReadable c.chunks kind s ∨
      Unreadable c.chunks kind ∧
        ∃ variant, kind.signatureVariant? = some variant ∧ FirstReadable c.chunks variant s := by
  rw [signature?_eq_ok_iff, firstSignature?_eq_ok_iff, firstSignature?_ne_ok_iff,
    variantSignature?_eq_ok_iff]

theorem signature?_eq_error_iff_firstTried :
    c.signature? kind = some (.error e) ↔
      (∀ name ∈ kind.spellings, Unreadable c.chunks name) ∧
        ∃ name fault, FirstTried c.chunks kind name fault ∧ e = .signatureChunk name fault := by
  rw [signature?_eq_error_iff, variantSignature?_ne_ok_iff, firstSignature?_eq_error_iff,
    firstSignature?_eq_none_iff, variantSignature?_eq_error_iff, FourCC.forall_mem_spellings]
  constructor
  · rintro ⟨hvariant, ⟨hasked, fault, hfirst, rfl⟩ |
      ⟨habsent, variant, hv, -, fault, hfirst, rfl⟩⟩
    · exact ⟨⟨hasked, hvariant⟩, kind, fault, ⟨hfirst, .inl rfl⟩, rfl⟩
    · exact ⟨⟨fun k hk hname => absurd hname (habsent k hk), hvariant⟩, variant, fault,
        ⟨hfirst, .inr ⟨habsent, hv⟩⟩, rfl⟩
  · rintro ⟨⟨hasked, hvariant⟩, name, fault, ⟨hfirst, rfl | ⟨habsent, hv⟩⟩, rfl⟩
    · exact ⟨hvariant, .inl ⟨hasked, fault, hfirst, rfl⟩⟩
    · exact ⟨hvariant, .inr ⟨habsent, name, hv, hvariant name hv, fault, hfirst, rfl⟩⟩

/-- The signature of a kind was read from one of its chunks. -/
theorem exists_reading_of_signature? (h : c.signature? kind = some (.ok s)) :
    ∃ k ∈ c.chunks, k.name ∈ kind.spellings ∧ k.reading = .ok s := by
  rcases signature?_eq_ok_iff_firstReadable.1 h with hfirst | ⟨-, variant, hv, hfirst⟩
  · obtain ⟨k, hk, rfl, hreading⟩ := hfirst.exists_mem
    exact ⟨k, hk, FourCC.mem_spellings.2 (.inl rfl), hreading⟩
  · obtain ⟨k, hk, rfl, hreading⟩ := hfirst.exists_mem
    exact ⟨k, hk, FourCC.mem_spellings.2 (.inr hv), hreading⟩

theorem exists_signature?_eq_ok_iff :
    (∃ s, c.signature? kind = some (.ok s)) ↔
      ∃ k ∈ c.chunks, k.name ∈ kind.spellings ∧ ∃ s, k.reading = .ok s := by
  constructor
  · rintro ⟨s, hs⟩
    obtain ⟨k, hk, hname, hreading⟩ := exists_reading_of_signature? hs
    exact ⟨k, hk, hname, s, hreading⟩
  · rintro ⟨k, hk, hname, hreading⟩
    have hreadable := exists_firstReadable_iff.2 ⟨k, hk, rfl, hreading⟩
    by_cases hasked : Unreadable c.chunks kind
    · obtain ⟨s, hfirst⟩ := hreadable
      rcases FourCC.mem_spellings.1 hname with hkind | hv
      · exact absurd (hkind ▸ hasked) hfirst.not_unreadable
      · exact ⟨s, signature?_eq_ok_iff_firstReadable.2 (.inr ⟨hasked, k.name, hv, hfirst⟩)⟩
    · obtain ⟨s, hfirst⟩ := Classical.not_not.1 (mt unreadable_iff_not_exists.2 hasked)
      exact ⟨s, signature?_eq_ok_iff_firstReadable.2 (.inl hfirst)⟩

end TwoSpellings

/-- A container has no signature of a kind exactly if it has no chunk of either spelling, and it has
one exactly if some chunk of either spelling can be read. The one that it has is that of the first
readable chunk of the asked spelling, or else that of the first readable chunk of the other. Where
there are chunks and none can be read, the fault names the chunk that was tried first and says why
it cannot be read. -/
theorem chooses_first_readable (c : Container) (kind : FourCC) :
    (c.signature? kind = none ↔ ∀ k ∈ c.chunks, k.name ∉ kind.spellings) ∧
    ((∃ s, c.signature? kind = some (.ok s)) ↔
      ∃ k ∈ c.chunks, k.name ∈ kind.spellings ∧ ∃ s, k.reading = .ok s) ∧
    (∀ s, c.signature? kind = some (.ok s) ↔ FirstReadable c.chunks kind s ∨
      Unreadable c.chunks kind ∧
        ∃ variant, kind.signatureVariant? = some variant ∧ FirstReadable c.chunks variant s) ∧
    (∀ e, c.signature? kind = some (.error e) ↔
      (∀ name ∈ kind.spellings, Unreadable c.chunks name) ∧
        ∃ name fault, FirstTried c.chunks kind name fault ∧ e = .signatureChunk name fault) ∧
    ∀ e, c.signature? kind = some (.error e) → e.family = .invalidChunk ∧
      ∃ k ∈ c.chunks, ∃ fault, k.reading = .error fault ∧
        e.message = "invalid DXBC chunk: " ++
          (k.name.text ++ " signature chunk: " ++ fault.message) := by
  refine ⟨signature?_eq_none_iff_absent, exists_signature?_eq_ok_iff,
    fun s => signature?_eq_ok_iff_firstReadable, fun e => signature?_eq_error_iff_firstTried,
    fun e he => ?_⟩
  obtain ⟨-, name, fault, ⟨hfirst, -⟩, rfl⟩ := signature?_eq_error_iff_firstTried.1 he
  obtain ⟨k, hk, rfl, hreading⟩ := hfirst.exists_mem
  exact ⟨rfl, k, hk, fault, hreading, rfl⟩

end Container

end ShaderKit

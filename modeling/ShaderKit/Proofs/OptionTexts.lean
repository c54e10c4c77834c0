import Mathlib.Data.List.Forall2
import Mathlib.Data.Nat.Digits.Defs
import ShaderKit.PipelineOptions

/-!
# Texts of options

What the text of a variable denotes, as a grammar: a numeral or a word for a truth value, with white
space around it. A numeral has at most one sign and any number of leading zeros. Words are the same
in upper and lower case. Each option is read by its grammar, and from its own variable only.
-/

namespace ShaderKit

namespace WhiteSpace

/-- A text is its core with white space around it, of which the core has none at its ends. -/
structure IsCore (core text : List Char) : Prop where
  surrounded : ∃ before after, text = before ++ (core ++ after) ∧
    (∀ c ∈ before, isSpace c = true) ∧ ∀ c ∈ after, isSpace c = true
  first : ∀ c ∈ core.head?, isSpace c = false
  last : ∀ c ∈ core.getLast?, isSpace c = false

variable {text core : List Char}

theorem head?_dropWhile (text : List Char) :
    ∀ c ∈ (text.dropWhile isSpace).head?, isSpace c = false := by
  intro c hc
  have hhead := List.head?_dropWhile_not isSpace text
  rw [hc] at hhead
  exact hhead

theorem isCore_trim (text : List Char) : IsCore (trim text) text := by
  have hfront := List.takeWhile_append_dropWhile (p := isSpace) (l := text)
  have hback := congrArg List.reverse
    (List.takeWhile_append_dropWhile (p := isSpace) (l := (text.dropWhile isSpace).reverse))
  rw [List.reverse_append, List.reverse_reverse] at hback
  have hspace : ∀ l : List Char, ∀ c ∈ l.takeWhile isSpace, isSpace c = true := fun l =>
    List.all_eq_true.1 List.all_takeWhile
  refine ⟨⟨_, ((text.dropWhile isSpace).reverse.takeWhile isSpace).reverse, ?_, hspace text, ?_⟩,
    ?_, ?_⟩
  · rw [trim, hback, hfront]
  · intro c hc
    exact hspace _ c (List.mem_reverse.1 hc)
  · intro c hc
    apply head?_dropWhile text c
    rw [← hback]
    exact List.mem_head?_append_of_mem_head? hc
  · intro c hc
    rw [trim, List.getLast?_reverse] at hc
    exact head?_dropWhile _ c hc

/-- The core of a text is what trimming leaves of it. -/
theorem trim_eq_iff : trim text = core ↔ IsCore core text := by
  constructor
  · rintro rfl
    exact isCore_trim text
  · rintro ⟨⟨before, after, rfl, hbefore, hafter⟩, hfirst, hlast⟩
    rw [trim, List.dropWhile_append_of_pos hbefore]
    cases core with
    | nil =>
      have hnone : after.dropWhile isSpace = [] := by
        rw [← List.append_nil after, List.dropWhile_append_of_pos hafter, List.dropWhile_nil]
      rw [List.nil_append, hnone]
      rfl
    | cons c core =>
      have hafter' : ∀ c ∈ after.reverse, isSpace c = true := fun c hc =>
        hafter c (List.mem_reverse.1 hc)
      have hlast' : ∀ d ∈ (c :: core).reverse.head?, isSpace d = false := by
        rwa [List.head?_reverse]
      have hfirst' : ∀ d ∈ (c :: core ++ after).head?, isSpace d = false := hfirst
      rw [dropWhile_eq_self hfirst', List.reverse_append, List.dropWhile_append_of_pos hafter',
        dropWhile_eq_self hlast', List.reverse_reverse]

theorem exists_isCore_and_iff {P : List Char → Prop} :
    (∃ core, IsCore core text ∧ P core) ↔ P (trim text) := by
  constructor
  · rintro ⟨core, hcore, h⟩
    rwa [trim_eq_iff.2 hcore]
  · intro h
    exact ⟨_, isCore_trim text, h⟩

end WhiteSpace

namespace PipelineOptions

/-- The number of which the decimal digits are given, those of the higher places first. -/
def valueOf (digits : List (Fin 10)) : Nat := Nat.ofDigits 10 (digits.map Fin.val).reverse

def digitChar (d : Fin 10) : Char := Nat.digitChar d

/-- A number is written in decimal digits, at least one, with or without a plus sign in front. -/
inductive IsNumeral : List Char → Nat → Prop where
  | plain {digits : List (Fin 10)} (hdigits : digits ≠ []) :
      IsNumeral (digits.map digitChar) (valueOf digits)
  | signed {digits : List (Fin 10)} (hdigits : digits ≠ []) :
      IsNumeral ('+' :: digits.map digitChar) (valueOf digits)

/-- Two characters are the same, or a capital and a small letter of the ASCII alphabet. -/
def SameLetter (c d : Char) : Prop :=
  c = d ∨ ∃ k < 26, c.toNat = 'A'.toNat + k ∧ d.toNat = 'a'.toNat + k ∨
    c.toNat = 'a'.toNat + k ∧ d.toNat = 'A'.toNat + k

/-- A truth value is written as a digit or as a word, which may be in capitals. -/
inductive IsTruthWord : List Char → Bool → Prop where
  | one : IsTruthWord ['1'] true
  | zero : IsTruthWord ['0'] false
  | yes {cs : List Char} {word : String} (hword : word ∈ ["true", "yes", "on"])
      (hletters : List.Forall₂ SameLetter cs word.toList) : IsTruthWord cs true
  | no {cs : List Char} {word : String} (hword : word ∈ ["false", "no", "off"])
      (hletters : List.Forall₂ SameLetter cs word.toList) : IsTruthWord cs false

/-- A text denotes a number below a limit. -/
def DenotesNumber (limit : Nat) (text : String) (value : Nat) : Prop :=
  value < limit ∧ ∃ core, WhiteSpace.IsCore core text.toList ∧ IsNumeral core value

/-- A text denotes a truth value. -/
def DenotesTruth (text : String) (value : Bool) : Prop :=
  ∃ core, WhiteSpace.IsCore core text.toList ∧ IsTruthWord core value

section Numbers

variable {limit acc value : Nat} {c : Char} {cs : List Char} {text : String}

theorem toNat_digitChar (d : Fin 10) : (digitChar d).toNat = '0'.toNat + d :=
  Nat.toNat_digitChar_of_lt_ten d.isLt

theorem isDigit_iff : isDigit c = true ↔ ∃ d, digitChar d = c := by
  have hrange : isDigit c = true ↔ '0'.toNat ≤ c.toNat ∧ c.toNat ≤ '9'.toNat := by
    rw [isDigit, Bool.and_eq_true, decide_eq_true_iff, decide_eq_true_iff]
    rfl
  rw [hrange]
  constructor
  · rintro ⟨hle, hge⟩
    have hlt : c.toNat - '0'.toNat < 10 := by
      change c.toNat ≤ 57 at hge
      change c.toNat - 48 < 10
      omega
    refine ⟨⟨_, hlt⟩, Char.toNat_inj.1 ?_⟩
    rw [toNat_digitChar]
    exact Nat.add_sub_cancel' hle
  · rintro ⟨d, rfl⟩
    rw [toNat_digitChar]
    have hd := d.isLt
    change 48 ≤ 48 + d.val ∧ 48 + d.val ≤ 57
    omega

/-- The number with more digits behind it. -/
def extend (acc : Nat) (digits : List (Fin 10)) : Nat :=
  digits.foldl (fun n d => 10 * n + d.val) acc

theorem le_extend (acc : Nat) (digits : List (Fin 10)) : acc ≤ extend acc digits := by
  induction digits generalizing acc with
  | nil => exact Nat.le_refl acc
  | cons d digits ih =>
    have hstep : acc ≤ 10 * acc + d := by omega
    exact Nat.le_trans hstep (ih _)

theorem extend_zero (digits : List (Fin 10)) : extend 0 digits = valueOf digits := by
  rw [valueOf, Nat.ofDigits_eq_foldr, List.foldr_reverse, List.foldl_map, extend]
  simp only [Nat.cast_id, Nat.add_comm]

/-- A number that has reached the limit would not come below it again, so that it does not matter
at which digit the limit is checked. -/
theorem readDigits_eq_some_iff (hacc : acc < limit) :
    readDigits limit acc cs = some value ↔
      value < limit ∧ ∃ digits : List (Fin 10), cs = digits.map digitChar ∧
        value = extend acc digits := by
  induction cs generalizing acc with
  | nil =>
    rw [readDigits, Option.some_inj]
    constructor
    · rintro rfl
      exact ⟨hacc, [], rfl, rfl⟩
    · rintro ⟨-, digits, hdigits, rfl⟩
      obtain rfl := List.map_eq_nil_iff.1 hdigits.symm
      rfl
  | cons c cs ih =>
    rw [readDigits]
    constructor
    · intro h
      split at h
      · next hread =>
        obtain ⟨hdigit, hlt⟩ := hread
        obtain ⟨d, rfl⟩ := isDigit_iff.1 hdigit
        obtain ⟨hvalue, digits, rfl, rfl⟩ := (ih hlt).1 h
        refine ⟨hvalue, d :: digits, rfl, ?_⟩
        rw [toNat_digitChar, Nat.add_sub_cancel_left]
        rfl
      · cases h
    · rintro ⟨hvalue, digits, hdigits, rfl⟩
      obtain ⟨d, digits, rfl, rfl, rfl⟩ := List.map_eq_cons_iff.1 hdigits.symm
      have hstep : 10 * acc + ((digitChar d).toNat - '0'.toNat) = 10 * acc + d := by
        rw [toNat_digitChar, Nat.add_sub_cancel_left]
      have hlt : 10 * acc + d < limit := Nat.lt_of_le_of_lt (le_extend _ digits) hvalue
      rw [hstep, if_pos ⟨isDigit_iff.2 ⟨d, rfl⟩, hlt⟩]
      exact (ih hlt).2 ⟨hvalue, digits, rfl, rfl⟩

/-- A numeral is digits behind the sign, if there is one. -/
theorem isNumeral_iff :
    IsNumeral cs value ↔ ∃ digits : List (Fin 10), digits ≠ [] ∧
      (if cs.head? = some '+' then cs.tail else cs) = digits.map digitChar ∧
        value = valueOf digits := by
  constructor
  · intro h
    cases h with
    | @plain digits hdigits =>
      refine ⟨digits, hdigits, if_neg ?_, rfl⟩
      cases digits with
      | nil => exact absurd rfl hdigits
      | cons d digits =>
        have hdigit : ∀ d, digitChar d ≠ '+' := by decide
        simpa using hdigit d
    | @signed digits hdigits => exact ⟨digits, hdigits, rfl, rfl⟩
  · rintro ⟨digits, hdigits, hcs, rfl⟩
    split at hcs
    · next hsign =>
      obtain ⟨cs, rfl⟩ := List.head?_eq_some_iff.1 hsign
      rw [List.tail_cons] at hcs
      rw [hcs]
      exact .signed hdigits
    · rw [hcs]
      exact .plain hdigits

theorem number?_eq_some_iff (hlimit : 0 < limit) :
    number? limit text = some value ↔ DenotesNumber limit text value := by
  rw [DenotesNumber, WhiteSpace.exists_isCore_and_iff, isNumeral_iff, number?]
  generalize (if (WhiteSpace.trim text.toList).head? = some '+' then _ else _ : List Char) = cs
  constructor
  · intro h
    split at h
    · cases h
    · next hne =>
      obtain ⟨hvalue, digits, rfl, rfl⟩ := (readDigits_eq_some_iff hlimit).1 h
      refine ⟨hvalue, digits, ?_, rfl, extend_zero digits⟩
      rintro rfl
      exact hne rfl
  · rintro ⟨hvalue, digits, hdigits, rfl, rfl⟩
    rw [if_neg (by simpa using hdigits)]
    exact (readDigits_eq_some_iff hlimit).2 ⟨hvalue, digits, rfl, (extend_zero digits).symm⟩

end Numbers

section Truths

variable {c d : Char} {cs ds : List Char} {text : String} {value : Bool}

theorem toNat_toLower (c : Char) :
    c.toLower.toNat =
      if 'A'.toNat ≤ c.toNat ∧ c.toNat ≤ 'Z'.toNat then c.toNat + 32 else c.toNat := by
  by_cases h : c.val ≥ 'A'.val ∧ c.val ≤ 'Z'.val
  · have hlower : c.toLower.val = c.val + ('a'.val - 'A'.val) := congrArg Char.val (dif_pos h)
    have hsum : (c.val + ('a'.val - 'A'.val)).toNat = c.toNat + 32 := by
      have hle : c.val.toNat ≤ 90 := h.2
      rw [UInt32.toNat_add]
      change (c.val.toNat + 32) % 2 ^ 32 = c.val.toNat + 32
      omega
    calc c.toLower.toNat = (c.val + ('a'.val - 'A'.val)).toNat := congrArg UInt32.toNat hlower
      _ = c.toNat + 32 := hsum
      _ = _ := (if_pos h).symm
  · have hlower : c.toLower = c := dif_neg h
    rw [hlower]
    exact (if_neg h).symm

theorem sameLetter_iff : SameLetter c d ↔ c.toLower = d.toLower := by
  have hA : 'A'.toNat = 65 := rfl
  have hZ : 'Z'.toNat = 90 := rfl
  have ha : 'a'.toNat = 97 := rfl
  rw [SameLetter, ← Char.toNat_inj, ← Char.toNat_inj, toNat_toLower, toNat_toLower, hA, hZ, ha]
  constructor
  · rintro (hself | ⟨k, hk, ⟨hc, hd⟩ | ⟨hc, hd⟩⟩)
    · rw [hself]
    · rw [if_pos (by omega), if_neg (by omega)]
      omega
    · rw [if_neg (by omega), if_pos (by omega)]
      omega
  · intro h
    by_cases hself : c.toNat = d.toNat
    · exact .inl hself
    -- Characters that differ have the same small letter only if just one of them is a capital.
    · split at h <;> split at h
      · omega
      · exact .inr ⟨c.toNat - 65, by omega, .inl ⟨by omega, by omega⟩⟩
      · exact .inr ⟨d.toNat - 65, by omega, .inr ⟨by omega, by omega⟩⟩
      · omega

theorem forall₂_sameLetter_iff :
    List.Forall₂ SameLetter cs ds ↔ cs.map Char.toLower = ds.map Char.toLower := by
  have hsame : SameLetter = fun c d => c.toLower = d.toLower := by
    funext c d
    exact propext sameLetter_iff
  rw [hsame, ← List.forall₂_eq_eq_eq, List.forall₂_map_left_iff, List.forall₂_map_right_iff]

/-- Words in small letters can be compared once the text is put into small letters. -/
theorem map_toLower_mem_iff {words : List String}
    (hwords : ∀ word ∈ words, word.toList.map Char.toLower = word.toList) :
    String.ofList (cs.map Char.toLower) ∈ words ↔
      ∃ word ∈ words, List.Forall₂ SameLetter cs word.toList := by
  simp only [forall₂_sameLetter_iff]
  constructor
  · intro h
    refine ⟨_, h, ?_⟩
    rw [hwords _ h, String.toList_ofList]
  · rintro ⟨word, hword, h⟩
    rwa [h, hwords word hword, String.ofList_toList]

theorem SameLetter.eq_of_lt (h : SameLetter c d) (hd : d.toNat < 'A'.toNat) : c = d := by
  rcases h with h | ⟨k, -, ⟨-, hk⟩ | ⟨-, hk⟩⟩
  · exact h
  · have hA : 'A'.toNat < 'a'.toNat := by decide
    omega
  · omega

/-- A digit is a word for a truth value like the others, since it has no other case. -/
theorem isTruthWord_iff :
    IsTruthWord cs value ↔
      ∃ word ∈ (if value then yesWords else noWords), List.Forall₂ SameLetter cs word.toList := by
  constructor
  · intro h
    cases h with
    | one => exact ⟨"1", List.mem_cons_self, .cons (.inl rfl) .nil⟩
    | zero => exact ⟨"0", List.mem_cons_self, .cons (.inl rfl) .nil⟩
    | yes hword hletters | no hword hletters =>
      exact ⟨_, List.mem_cons_of_mem _ hword, hletters⟩
  · rintro ⟨word, hword, hletters⟩
    have hsingle : ∀ d, word.toList = [d] → d.toNat < 'A'.toNat → cs = [d] := by
      intro d hd hlt
      rw [hd, List.forall₂_cons_right_iff] at hletters
      obtain ⟨c, _, hc, hnil, rfl⟩ := hletters
      rw [hc.eq_of_lt hlt, List.forall₂_nil_right_iff.1 hnil]
    cases value with
    | true =>
      rcases List.mem_cons.1 hword with rfl | hword
      · rw [hsingle '1' rfl (by decide)]
        exact .one
      · exact .yes hword hletters
    | false =>
      rcases List.mem_cons.1 hword with rfl | hword
      · rw [hsingle '0' rfl (by decide)]
        exact .zero
      · exact .no hword hletters

theorem truth?_eq_some_iff : truth? text = some value ↔ DenotesTruth text value := by
  have hsmall : ∀ word ∈ yesWords ++ noWords,
      word.toList.map Char.toLower = word.toList := by decide
  have hyes := @map_toLower_mem_iff (WhiteSpace.trim text.toList) yesWords fun word hword =>
    hsmall word (List.mem_append_left _ hword)
  have hno := @map_toLower_mem_iff (WhiteSpace.trim text.toList) noWords fun word hword =>
    hsmall word (List.mem_append_right _ hword)
  have hdisjoint : ∀ word ∈ noWords, word ∉ yesWords := by decide
  rw [DenotesTruth, WhiteSpace.exists_isCore_and_iff, isTruthWord_iff, truth?]
  cases value with
  | true =>
    rw [if_pos rfl, ← hyes]
    split
    · next h => exact iff_of_true rfl h
    · next h => split <;> simp [h]
  | false =>
    rw [if_neg Bool.false_ne_true, ← hno]
    split
    · next h => exact iff_of_false (by simp) fun h' => hdisjoint _ h' h
    · split
      · next h => exact iff_of_true rfl h
      · next h => exact iff_of_false (by simp) h

end Truths

/-- An option has the value that the text of its variable denotes. It has the standard value if the
variable is not set or its text denotes nothing. -/
structure Follows {α : Type} (denotes : String → α → Prop) (text? : Option String)
    (standard value : α) : Prop where
  denoted : ∀ text ∈ text?, ∀ v, denotes text v → value = v
  otherwise : (∀ text ∈ text?, ∀ v, ¬ denotes text v) → value = standard

theorem follows_getD {α : Type} {denotes : String → α → Prop} {read : String → Option α}
    (h : ∀ text v, read text = some v ↔ denotes text v) (text? : Option String) (standard : α) :
    Follows denotes text? standard ((text?.bind read).getD standard) where
  denoted text htext v hv := by
    obtain rfl := Option.mem_def.1 htext
    rw [Option.bind_some, (h text v).2 hv, Option.getD_some]
  otherwise hnone := by
    have hread : text?.bind read = none := by
      refine Option.bind_eq_none_iff.2 fun text htext => ?_
      refine Option.eq_none_iff_forall_ne_some.2 fun v hv => ?_
      exact hnone text htext v ((h text v).1 hv)
    rw [hread, Option.getD_none]

/-- Each option follows its own variable, by the grammar of its texts, and no other variable has an
influence on it. -/
theorem options_follow_own_variables (lookup : String → Option String) :
    (Follows (DenotesNumber (2 ^ 32)) (lookup uniformBuffersVariable)
        standard.maxDynamicUniformBuffers (ofEnvironment lookup).maxDynamicUniformBuffers ∧
      Follows (DenotesNumber (2 ^ 32)) (lookup storageBuffersVariable)
        standard.maxDynamicStorageBuffers (ofEnvironment lookup).maxDynamicStorageBuffers ∧
      Follows DenotesTruth (lookup stateCacheVariable)
        standard.stateCache (ofEnvironment lookup).stateCache ∧
      Follows (DenotesNumber (2 ^ 64)) (lookup compilerThreadsVariable)
        standard.compilerThreads (ofEnvironment lookup).compilerThreads) ∧
    ∀ lookup' : String → Option String,
      let o := ofEnvironment lookup
      let o' := ofEnvironment lookup'
      (lookup' uniformBuffersVariable = lookup uniformBuffersVariable →
          o'.maxDynamicUniformBuffers = o.maxDynamicUniformBuffers) ∧
        (lookup' storageBuffersVariable = lookup storageBuffersVariable →
          o'.maxDynamicStorageBuffers = o.maxDynamicStorageBuffers) ∧
        (lookup' stateCacheVariable = lookup stateCacheVariable → o'.stateCache = o.stateCache) ∧
        (lookup' compilerThreadsVariable = lookup compilerThreadsVariable →
          o'.compilerThreads = o.compilerThreads) := by
  have hword : ∀ text v, number? UInt32.size text = some v ↔ DenotesNumber (2 ^ 32) text v :=
    fun text v => number?_eq_some_iff (by decide)
  have hlong : ∀ text v, number? UInt64.size text = some v ↔ DenotesNumber (2 ^ 64) text v :=
    fun text v => number?_eq_some_iff (by decide)
  refine ⟨⟨follows_getD hword _ _, follows_getD hword _ _,
    follows_getD (fun text v => truth?_eq_some_iff) _ _, follows_getD hlong _ _⟩,
    fun lookup' => ⟨?_, ?_, ?_, ?_⟩⟩
  all_goals
    intro hown
    simp only [ofEnvironment, hown]

/-- A number with a sign, leading zeros and white space beyond ASCII around it, a number at the
limit, a word in mixed case, and the greatest number of threads. -/
def spacedEnvironment : String → Option String := fun name => List.lookup name
  [(uniformBuffersVariable, "\u00a0+0016\t"), (storageBuffersVariable, "4294967296"),
    (stateCacheVariable, "\u3000oFf\n"), (compilerThreadsVariable, "18446744073709551615")]

theorem options_of_spacedEnvironment :
    let o := ofEnvironment spacedEnvironment
    let o' := ofEnvironment fun name =>
      if name = stateCacheVariable then none else spacedEnvironment name
    (o.maxDynamicUniformBuffers = 16 ∧ o.maxDynamicStorageBuffers = 4 ∧ o.stateCache = false ∧
        o.compilerThreads = 2 ^ 64 - 1) ∧
      o'.stateCache = true ∧ o'.compilerThreads = o.compilerThreads := by
  intro o o'
  obtain ⟨⟨huniform, hstorage, hcache, hthreads⟩, hown⟩ :=
    options_follow_own_variables spacedEnvironment
  obtain ⟨⟨-, -, hunset, -⟩, -⟩ := options_follow_own_variables fun name =>
    if name = stateCacheVariable then none else spacedEnvironment name
  have htoo : ∀ v, ¬ DenotesNumber (2 ^ 32) "4294967296" v := by
    intro v hv
    have hnone : number? (2 ^ 32) "4294967296" = none := by decide +kernel
    cases hnone.symm.trans ((number?_eq_some_iff (by decide)).2 hv)
  refine ⟨⟨?_, ?_, ?_, ?_⟩, ?_, ?_⟩
  · exact huniform.denoted _ rfl 16 ⟨by decide, _, WhiteSpace.trim_eq_iff.1 (by decide +kernel),
      @IsNumeral.signed [0, 0, 1, 6] (by decide)⟩
  · refine hstorage.otherwise fun text htext => ?_
    obtain rfl : "4294967296" = text := Option.some.inj htext
    exact htoo
  · exact hcache.denoted _ rfl false ⟨['o', 'F', 'f'], WhiteSpace.trim_eq_iff.1 (by decide +kernel),
      @IsTruthWord.no _ "off" (by decide) (forall₂_sameLetter_iff.2 (by decide))⟩
  · exact hthreads.denoted _ rfl _ ((number?_eq_some_iff (by decide)).1 (by decide +kernel))
  · exact hunset.otherwise fun text htext => by cases htext
  · exact (hown _).2.2.2 rfl

end PipelineOptions

end ShaderKit

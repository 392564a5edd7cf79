import ResourceApi.Compilation
import ResourceApi.Proofs.Except
import ResourceApi.Proofs.Signature
import ResourceApi.Proofs.Text.Word

/-!
# Plurals and singulars apart

An identifier and its plural begin with the same text; what differs is the last hump.  Of ASCII text that
has no upper-case letters every way of putting it in the case of a hump can be undone by lower case.  So
the lower case of the hump of the plural is the inflected word, which is not the lower case of the hump
of the identifier, as a word that is its own plural has been told apart before.
-/

namespace ResourceApi

namespace Text

/-! ## Lower case of ASCII text -/

def IsAscii (text : String) : Prop := ∀ c ∈ text.toList, isAscii c = true

/-- ASCII text without upper-case letters. -/
def IsLowerAscii (text : String) : Prop := ∀ c ∈ text.toList, isAscii c = true ∧ isUpper c = false

instance (text : String) : Decidable (IsAscii text) :=
  List.decidableBAll (fun c ↦ isAscii c = true) text.toList

instance (text : String) : Decidable (IsLowerAscii text) :=
  List.decidableBAll (fun c ↦ isAscii c = true ∧ isUpper c = false) text.toList

variable {text word inflected name : String} {c : Char}

theorem isAscii_iff : isAscii c = true ↔ c.toNat < 128 := decide_eq_true_iff

theorem IsLowerAscii.isAscii (h : IsLowerAscii text) : IsAscii text := fun c hc ↦ (h c hc).1

theorem isUpper_eq_false_iff (ascii : isAscii c = true) :
    isUpper c = false ↔ ¬(65 ≤ c.toNat ∧ c.toNat ≤ 90) := by
  unfold isUpper Char.isUpper
  rw [if_pos ascii, decide_eq_false_iff_not, ge_iff_le, UInt32.le_iff_toNat_le, UInt32.le_iff_toNat_le]
  exact Iff.rfl

theorem isLowerAscii_toLower (ascii : isAscii c = true) :
    isAscii c.toLower = true ∧ isUpper c.toLower = false := by
  have hcode := isAscii_iff.mp ascii
  have hlower : isAscii c.toLower = true := by
    rw [isAscii_iff, toNat_toLower]
    split <;> omega
  refine ⟨hlower, (isUpper_eq_false_iff hlower).mpr ?_⟩
  rw [toNat_toLower]
  split <;> omega

theorem eq_of_toNat_eq {d : Char} (h : c.toNat = d.toNat) : c = d :=
  Char.ext (UInt32.toNat_inj.mp h)

theorem toLower_eq_self (ascii : isAscii c = true) (lower : isUpper c = false) : c.toLower = c := by
  apply eq_of_toNat_eq
  rw [toNat_toLower, if_neg ((isUpper_eq_false_iff ascii).mp lower)]

theorem toLower_toUpper (ascii : isAscii c = true) (lower : isUpper c = false) :
    c.toUpper.toLower = c := by
  have hcode := (isUpper_eq_false_iff ascii).mp lower
  apply eq_of_toNat_eq
  rw [toNat_toLower, toNat_toUpper]
  by_cases hlower : 97 ≤ c.toNat ∧ c.toNat ≤ 122
  · rw [if_pos hlower, if_pos (by omega)]
    omega
  · rw [if_neg hlower, if_neg hcode]

/-- A capital sigma, whose lower case depends on its neighbours, is no ASCII character. -/
theorem lowerCaseAfter_eq_map {before chars : List Char} (ascii : ∀ c ∈ chars, isAscii c = true) :
    lowerCaseAfter before chars = chars.map Char.toLower := by
  induction chars generalizing before with
  | nil => rfl
  | cons first rest ih =>
    obtain ⟨hfirst, hrest⟩ := List.forall_mem_cons.mp ascii
    have hsigma : ¬(first == 'Σ') = true := by
      rw [beq_iff_eq]
      rintro rfl
      cases hfirst
    rw [lowerCaseAfter, if_neg hsigma, ih hrest, lowerChars, if_pos hfirst]
    rfl

theorem lowerCase_ofList {chars : List Char} (ascii : ∀ c ∈ chars, isAscii c = true) :
    lowerCase (String.ofList chars) = String.ofList (chars.map Char.toLower) := by
  rw [lowerCase, String.toList_ofList, lowerCaseAfter_eq_map ascii]

theorem isLowerAscii_lowerCase (ascii : IsAscii text) : IsLowerAscii (lowerCase text) := by
  intro c hc
  rw [← String.ofList_toList (s := text), lowerCase_ofList ascii, String.toList_ofList] at hc
  obtain ⟨d, hd, rfl⟩ := List.mem_map.mp hc
  exact isLowerAscii_toLower (ascii d hd)

/-! ## The case of a hump -/

theorem isAscii_toUpper (ascii : isAscii c = true) : isAscii c.toUpper = true := by
  rw [isAscii_iff] at ascii ⊢
  rw [toNat_toUpper]
  split <;> omega

theorem upperChars_eq (ascii : isAscii c = true) : upperChars c = [c.toUpper] := if_pos ascii

theorem lowerCase_upperCase (h : IsLowerAscii text) : lowerCase (upperCase text) = text := by
  have hupper : text.toList.flatMap upperChars = text.toList.map Char.toUpper := by
    rw [List.map_eq_flatMap]
    exact List.flatMap_congr fun c hc ↦ upperChars_eq (h c hc).1
  have hascii : ∀ c ∈ text.toList.map Char.toUpper, isAscii c = true :=
    List.forall_mem_map.mpr fun c hc ↦ isAscii_toUpper (h c hc).1
  have hback : (text.toList.map Char.toUpper).map Char.toLower = text.toList := by
    rw [List.map_map]
    exact (List.map_congr_left fun c hc ↦ toLower_toUpper (h c hc).1 (h c hc).2).trans (List.map_id _)
  rw [upperCase, hupper, lowerCase_ofList hascii, hback, String.ofList_toList]

theorem map_toLower_eq_self {chars : List Char} (h : ∀ c ∈ chars, isAscii c = true ∧ isUpper c = false) :
    chars.map Char.toLower = chars :=
  (List.map_congr_left fun c hc ↦ toLower_eq_self (h c hc).1 (h c hc).2).trans (List.map_id _)

/-- Lower case undoes what gives an inflected word the case of a hump. -/
theorem lowerCase_matchCase (word : String) (h : IsLowerAscii inflected) :
    lowerCase (matchCase word inflected) = inflected := by
  have hsame : lowerCase inflected = inflected := by
    rw [← String.ofList_toList (s := inflected), lowerCase_ofList h.isAscii, map_toLower_eq_self h]
  unfold matchCase
  split
  · exact lowerCase_upperCase h
  · split
    · rename_i first _ c rest _ hinflected
      split
      · have hchars : ∀ d ∈ c :: rest, isAscii d = true ∧ isUpper d = false := hinflected ▸ h
        obtain ⟨⟨hascii, hlower⟩, hrest⟩ := List.forall_mem_cons.mp hchars
        have hcapital : ∀ d ∈ c.toUpper :: rest, isAscii d = true :=
          List.forall_mem_cons.mpr ⟨isAscii_toUpper hascii, fun d hd ↦ (hrest d hd).1⟩
        calc
          lowerCase (String.ofList (upperChars c ++ rest)) =
              lowerCase (String.ofList (c.toUpper :: rest)) := by rw [upperChars_eq hascii]; rfl
          _ = String.ofList (c.toUpper.toLower :: rest.map Char.toLower) := lowerCase_ofList hcapital
          _ = String.ofList inflected.toList := by
            rw [toLower_toUpper hascii hlower, map_toLower_eq_self hrest, hinflected]
          _ = inflected := String.ofList_toList
      · exact hsame
    · exact hsame

/-! ## Plurals of identifiers -/

theorem splitHump_append (hump chars : List Char) :
    (splitHump hump chars).1 ++ (splitHump hump chars).2 = chars.reverse ++ hump := by
  induction chars generalizing hump with
  | nil => rfl
  | cons c rest ih =>
    cases rest with
    | nil => rfl
    | cons before more =>
      have hreverse : (c :: before :: more).reverse ++ hump = (before :: more).reverse ++ c :: hump := by
        rw [List.reverse_cons, List.append_assoc, List.singleton_append]
      rw [splitHump, hreverse]
      split
      · rfl
      · exact ih (c :: hump)

theorem lastHump_append (name : String) : (lastHump name).1 ++ (lastHump name).2 = name := by
  have hsplit := splitHump_append [] name.toList.reverse
  rw [List.reverse_reverse, List.append_nil] at hsplit
  rw [lastHump, ← String.ofList_append, hsplit, String.ofList_toList]

theorem IsAscii.lastHump (ascii : IsAscii name) : IsAscii (lastHump name).2 := by
  intro c hc
  rw [← lastHump_append name] at ascii
  apply ascii
  rw [String.toList_append]
  exact List.mem_append_right _ hc

/-- The plurals of lower-case ASCII words are such words again. -/
def KeepsLowerAscii (inflect : String → String) : Prop :=
  ∀ word, IsLowerAscii word → IsLowerAscii (inflect word)

theorem isLowerAscii_of_mem_pluralParts : ∀ part ∈ pluralParts, IsLowerAscii part := by
  decide

theorem keepsLowerAscii_plural : KeepsLowerAscii plural := by
  intro word h c hc
  rcases mem_of_mem_plural hc with hword | ⟨part, hpart, hmem⟩
  · exact h c hword
  · exact isLowerAscii_of_mem_pluralParts part hpart c hmem

theorem pluralizeBy_ne {inflect : String → String} (keeps : KeepsLowerAscii inflect)
    (ascii : IsAscii name) : pluralizeBy inflect name ≠ name := by
  have hsingular : IsLowerAscii (lowerCase (lastHump name).2) := isLowerAscii_lowerCase ascii.lastHump
  have hinflected := getD_wholeWord isLowerAscii_of_mem_pluralParts (keeps _ hsingular)
    (lowerCase (lastHump name).2)
  unfold pluralizeBy
  dsimp only
  split
  · intro hsame
    have hlength := congrArg String.length hsame
    rw [String.length_append] at hlength
    exact absurd hlength (Nat.succ_ne_self _)
  · rename_i hdiffers
    intro hsame
    rw [beq_iff_eq] at hdiffers
    -- then the hump and the recased word are the same, and so are their lower cases
    have hhump : matchCase (lastHump name).2 _ = (lastHump name).2 :=
      (String.append_right_inj (lastHump name).1).mp (hsame.trans (lastHump_append name).symm)
    have hlower := lowerCase_matchCase (lastHump name).2 hinflected
    rw [hhump] at hlower
    exact hdiffers hlower.symm

end Text

/-! ## Mutations of one and of many records -/

open Text (IsAscii KeepsLowerAscii pluralizeBy plural)

variable {names : OperationNames} {stage : Stage}

/-- Mutations of one action for one record and for many have different synthesized names, whatever the
options and the types. -/
def OperationNames.MutationsApart (names : OperationNames) : Prop :=
  ∀ config graph action,
    ∀ single ∈ (OperationSchema.ofGraph names config graph).mutations,
      ∀ multi ∈ (OperationSchema.ofGraph names config graph).mutations,
        single.operation = .mutation action .single → multi.operation = .mutation action .multi →
          single.synthesized ≠ multi.synthesized

theorem OperationNames.mutationsApart (apart : names.plural ≠ names.resource) :
    names.MutationsApart := by
  intro config graph action single hsingle multi hmulti one many
  obtain ⟨operation, rfl, -⟩ :=
    OperationSchema.served_of_mem_signatures (List.mem_append_right _ hsingle)
  obtain ⟨operation', rfl, -⟩ :=
    OperationSchema.served_of_mem_signatures (List.mem_append_right _ hmulti)
  obtain rfl : operation = .mutation action .single := one
  obtain rfl : operation' = .mutation action .multi := many
  change names.synthesized (.mutation action .single) ≠ names.synthesized (.mutation action .multi)
  intro hsame
  exact apart (OperationNames.synthesized_mutation_injective hsame).2.symm

theorem Stage.plural_names (derived : stage.schema.plural = none) :
    stage.names.plural = pluralizeBy plural stage.names.resource := by
  change stage.schema.plural.getD (Text.pluralize stage.schema.resource) =
    pluralizeBy plural stage.schema.resource
  rw [derived, Option.getD_none, Text.pluralize]

/-- No name is its own plural, so the mutations of resources without a plural of their own are apart. -/
theorem plural_apart :
    (∀ inflect, KeepsLowerAscii inflect →
      (∀ name, IsAscii name → pluralizeBy inflect name ≠ name) ∧
        ∀ names : OperationNames, IsAscii names.resource →
          names.plural = pluralizeBy inflect names.resource → names.MutationsApart) ∧
      ∀ stage : Stage, stage.schema.plural = none → IsAscii stage.schema.resource →
        stage.names.MutationsApart := by
  have hnames : ∀ inflect, KeepsLowerAscii inflect → ∀ names : OperationNames, IsAscii names.resource →
      names.plural = pluralizeBy inflect names.resource → names.MutationsApart :=
    fun inflect keeps names ascii hplural ↦
      OperationNames.mutationsApart (hplural ▸ Text.pluralizeBy_ne keeps ascii)
  refine ⟨fun inflect keeps ↦ ⟨fun name ↦ Text.pluralizeBy_ne keeps, hnames inflect keeps⟩, ?_⟩
  intro stage derived ascii
  exact hnames plural Text.keepsLowerAscii_plural stage.names ascii (Stage.plural_names derived)

/-- A last word without a plural, in upper case; both mutations that create are served. -/
theorem plural_apart_sheep :
    let schema : ResourceSchema :=
      ⟨"FarmSHEEP", ⟨none, [("name", .primitive "String")], []⟩, [], [], none⟩
    ∃ stage, Compiler.stage ⟨.full, ⟨[]⟩⟩ [] schema = .ok stage ∧
      (stage.schema.plural = none ∧ IsAscii stage.schema.resource) ∧
      ["createFarmSHEEP", "createFarmSHEEPs"] ⊆ stage.operations.mutations.map (·.synthesized) ∧
      pluralizeBy plural "FarmSHEEP" ≠ "FarmSHEEP" ∧ stage.names.MutationsApart := by
  intro schema
  obtain ⟨stage, hstage, hserved⟩ : ∃ stage, Compiler.stage ⟨.full, ⟨[]⟩⟩ [] schema = .ok stage ∧
      decide ((stage.schema.plural = none ∧ IsAscii stage.schema.resource) ∧
        ["createFarmSHEEP", "createFarmSHEEPs"] ⊆ stage.operations.mutations.map (·.synthesized)) = true :=
    Except.exists_of_passes (by decide +kernel)
  obtain ⟨⟨hderived, hascii⟩, hmutations⟩ := of_decide_eq_true hserved
  exact ⟨stage, hstage, ⟨hderived, hascii⟩, hmutations,
    (plural_apart.1 plural Text.keepsLowerAscii_plural).1 "FarmSHEEP" (by decide),
    plural_apart.2 stage hderived hascii⟩

end ResourceApi

import Mathlib.Data.List.Forall2
import Mathlib.Data.List.Perm.Basic
import ResourceApi.Proofs.Document.Completion

/-!
# The order of a document

Completion changes a document in place: at most the first entry of a root type loses its extending flag.
What it adds depends on the names that the document refers to and defines, not on their order.
-/

namespace ResourceApi

open List (Forall₂)

/-! ## Promotion in place -/

/-- The first definition stands as the second after promotion. -/
def Definition.Promotes (before after : Definition) : Prop :=
  after = before ∨
    (∃ kind : OperationKind, before.name = kind.rootType) ∧ after = { before with extending := false }

/-- The definition, with an extension of a root type taken for a definition. -/
def Definition.rootDefined (definition : Definition) : Definition :=
  if definition.name = OperationKind.query.rootType ∨
      definition.name = OperationKind.mutation.rootType then
    { definition with extending := false }
  else definition

namespace Definition.Promotes

variable {first second third : Definition}

theorem refl (definition : Definition) : definition.Promotes definition := .inl rfl

theorem trans (h : first.Promotes second) (h' : second.Promotes third) : first.Promotes third := by
  rcases h with rfl | ⟨hroot, rfl⟩
  · exact h'
  · rcases h' with rfl | ⟨-, rfl⟩ <;> exact .inr ⟨hroot, rfl⟩

theorem resource (h : first.Promotes second) : second.resource = first.resource := by
  rcases h with rfl | ⟨-, rfl⟩ <;> rfl

theorem eq_of_defined (h : first.Promotes second) (defined : first.extending = false) :
    second = first := by
  rcases h with rfl | ⟨-, rfl⟩
  · rfl
  · rw [← defined]

theorem rootDefined (h : first.Promotes second) : second.rootDefined = first.rootDefined := by
  rcases h with rfl | ⟨⟨kind, hroot⟩, rfl⟩
  · rfl
  · cases kind <;> simp [Definition.rootDefined, hroot]

end Definition.Promotes

namespace TypeDocument

open Definition (Promotes)

variable {document document' later last : TypeDocument} {scalars : ScalarRegistry} {root : String}

/-- The entries of the document stand at the same places of the later one, unchanged but for the first
entry of a root type, which may have lost its extending flag. -/
def Keeps (document later : TypeDocument) : Prop :=
  ∀ (index : Nat) (definition : Definition), document[index]? = some definition →
    later[index]? = some definition ∨
      later[index]? = some { definition with extending := false } ∧
        (∃ kind : OperationKind, definition.name = kind.rootType) ∧
        ∀ earlier ∈ document.take index, earlier.name ≠ definition.name

theorem promoteFirst_cases (root : String) (document : TypeDocument) :
    promoteFirst root document = document ∨
      ∃ (before : TypeDocument) (definition : Definition) (after : TypeDocument),
        document = before ++ definition :: after ∧ definition.name = root ∧
          (∀ earlier ∈ before, earlier.name ≠ root) ∧
          promoteFirst root document = before ++ { definition with extending := false } :: after := by
  induction document with
  | nil => exact .inl rfl
  | cons first rest ih =>
    unfold promoteFirst
    split
    · rename_i hfirst
      exact .inr ⟨[], first, rest, rfl, beq_iff_eq.mp hfirst, List.forall_mem_nil _, rfl⟩
    · rename_i hfirst
      rcases ih with hsame | ⟨before, definition, after, rfl, hname, hearlier, hpromoted⟩
      · exact .inl (congrArg _ hsame)
      · refine .inr ⟨first :: before, definition, after, rfl, hname, ?_, congrArg _ hpromoted⟩
        exact List.forall_mem_cons.mpr ⟨by simpa using hfirst, hearlier⟩

theorem forall₂_promotes_refl (document : TypeDocument) : Forall₂ Promotes document document :=
  List.forall₂_same.mpr fun definition _ ↦ .refl definition

theorem forall₂_promotes_trans (h : Forall₂ Promotes document later)
    (h' : Forall₂ Promotes later last) : Forall₂ Promotes document last := by
  induction h generalizing last with
  | nil => exact h'
  | cons hfirst hrest ih =>
    cases h' with
    | cons hfirst' hrest' => exact .cons (hfirst.trans hfirst') (ih hrest')

theorem forall₂_promoteRoot (document : TypeDocument) (kind : OperationKind) :
    Forall₂ Promotes document (document.promoteRoot kind) := by
  unfold promoteRoot
  split
  · exact forall₂_promotes_refl document
  · rcases promoteFirst_cases kind.rootType document with
      hsame | ⟨before, definition, after, hdocument, hname, -, hpromoted⟩
    · rw [hsame]
      exact forall₂_promotes_refl document
    · rw [hpromoted, hdocument]
      refine List.rel_append (forall₂_promotes_refl before) ?_
      exact .cons (.inr ⟨⟨kind, hname⟩, rfl⟩) (forall₂_promotes_refl after)

theorem keeps_promoteRoot (document : TypeDocument) (kind : OperationKind) :
    document.Keeps (document.promoteRoot kind) := by
  unfold promoteRoot
  split
  · exact fun _ _ h ↦ .inl h
  · rcases promoteFirst_cases kind.rootType document with
      hsame | ⟨before, definition, after, rfl, hname, hearlier, hpromoted⟩
    · rw [hsame]
      exact fun _ _ h ↦ .inl h
    · rw [hpromoted]
      intro index entry hentry
      rcases Nat.lt_trichotomy index before.length with hless | rfl | hmore
      · left
        rwa [List.getElem?_append_left hless] at hentry ⊢
      · right
        rw [List.getElem?_append_right (Nat.le_refl _), Nat.sub_self] at hentry ⊢
        cases hentry
        refine ⟨rfl, ⟨kind, hname⟩, ?_⟩
        rw [List.take_left, hname]
        exact hearlier
      · left
        obtain ⟨more, rfl⟩ := Nat.exists_eq_add_of_lt hmore
        have hplace : before.length + more + 1 - before.length = more + 1 := by omega
        rw [List.getElem?_append_right (Nat.le_of_lt hmore), hplace] at hentry ⊢
        exact hentry

/-- Every name before a place of the document stands before this place of the later one. -/
theorem Keeps.exists_earlier (h : document.Keeps later) {index : Nat} {definition : Definition}
    (mem : definition ∈ document.take index) :
    ∃ earlier ∈ later.take index, earlier.name = definition.name := by
  obtain ⟨place, hplace⟩ := List.mem_iff_getElem?.mp mem
  rw [List.getElem?_take] at hplace
  split at hplace
  · rename_i hless
    have hearlier : ∃ entry, later[place]? = some entry ∧ entry.name = definition.name := by
      rcases h place definition hplace with hlater | ⟨hlater, -⟩ <;> exact ⟨_, hlater, rfl⟩
    obtain ⟨entry, hentry, hname⟩ := hearlier
    refine ⟨entry, List.mem_of_getElem? (i := place) ?_, hname⟩
    rwa [List.getElem?_take, if_pos hless]
  · cases hplace

theorem Keeps.trans (h : document.Keeps later) (h' : later.Keeps last) : document.Keeps last := by
  intro index definition hdefinition
  rcases h index definition hdefinition with hlater | ⟨hlater, hroot, hfirst⟩
  · rcases h' index definition hlater with hlast | ⟨hlast, hroot, hfirst⟩
    · exact .inl hlast
    · refine .inr ⟨hlast, hroot, fun earlier hearlier ↦ ?_⟩
      obtain ⟨entry, hentry, hname⟩ := h.exists_earlier hearlier
      exact hname ▸ hfirst entry hentry
  · rcases h' index _ hlater with hlast | ⟨hlast, -⟩ <;> exact .inr ⟨hlast, hroot, hfirst⟩

theorem Keeps.of_append {more : TypeDocument} (h : Keeps (document ++ more) later) :
    document.Keeps later := by
  intro index definition hdefinition
  obtain ⟨hless, -⟩ := List.getElem?_eq_some_iff.mp hdefinition
  have hentry : (document ++ more)[index]? = some definition := by
    rwa [List.getElem?_append_left hless]
  refine (h index definition hentry).imp_right fun ⟨hlater, hroot, hfirst⟩ ↦ ⟨hlater, hroot, ?_⟩
  rwa [List.take_append_of_le_length (Nat.le_of_lt hless)] at hfirst

/-- Completion keeps the entries of a document in their places. -/
theorem keeps_complete (document : TypeDocument) (scalars : ScalarRegistry) :
    document.Keeps (complete document scalars) := by
  unfold complete
  rw [promoteRootExtensions_eq]
  exact ((keeps_promoteRoot _ .query).trans (keeps_promoteRoot _ .mutation)).of_append

theorem forall₂_complete (document : TypeDocument) (scalars : ScalarRegistry) :
    Forall₂ Promotes (document ++ document.supportDefinitions scalars)
      (complete document scalars) := by
  unfold complete
  rw [promoteRootExtensions_eq]
  exact forall₂_promotes_trans (forall₂_promoteRoot _ .query) (forall₂_promoteRoot _ .mutation)

theorem forall₂_filter_resource (h : Forall₂ Promotes document later) (p : Option String → Bool) :
    Forall₂ Promotes (document.filter fun definition ↦ p definition.resource)
      (later.filter fun definition ↦ p definition.resource) :=
  List.rel_filter (fun _ _ h ↦ by simp only [Promotes.resource h]) h

/-- Promotion changes no definitions. -/
theorem eq_of_forall₂_promotes (h : Forall₂ Promotes document later)
    (defined : ∀ definition ∈ document, definition.extending = false) : later = document := by
  have hboth := (List.forall₂_and_left _ _).mpr ⟨defined, h⟩
  rw [← List.forall₂_eq_eq_eq]
  exact hboth.flip.imp fun _ _ h ↦ h.2.eq_of_defined h.1

/-- Up to root types, completion gives a resource nothing. -/
theorem forResource_complete (document : TypeDocument) (scalars : ScalarRegistry)
    (resource : String) :
    ((complete document scalars).forResource resource).map Definition.rootDefined =
      (document.forResource resource).map Definition.rootDefined := by
  have hsupport : (document.supportDefinitions scalars).filter (·.resource == some resource) = [] := by
    refine List.filter_eq_nil_iff.mpr fun definition hmem ↦ ?_
    rw [resource_supportDefinitions hmem]
    exact Bool.false_ne_true
  have howned := forall₂_filter_resource (forall₂_complete document scalars) (· == some resource)
  rw [List.filter_append, hsupport, List.append_nil] at howned
  rw [← List.forall₂_eq_eq_eq, List.forall₂_map_left_iff, List.forall₂_map_right_iff]
  exact howned.flip.imp fun _ _ ↦ Promotes.rootDefined

/-- Behind the first part of a document, if all else is of resources, completion has its support and
nothing else that is shared. -/
theorem shared_complete (front back : TypeDocument) (scalars : ScalarRegistry)
    (owned : ∀ definition ∈ back, definition.resource ≠ none) :
    ((complete (front ++ back) scalars).drop front.length).filter (·.resource.isNone) =
      supportDefinitions (front ++ back) scalars := by
  have hback : back.filter (·.resource.isNone) = [] := by
    refine List.filter_eq_nil_iff.mpr fun definition hmem ↦ ?_
    rw [Option.isNone_iff_eq_none]
    exact owned definition hmem
  have hsupport : (supportDefinitions (front ++ back) scalars).filter (·.resource.isNone) =
      supportDefinitions (front ++ back) scalars := by
    refine List.filter_eq_self.mpr fun definition hmem ↦ ?_
    rw [resource_supportDefinitions hmem]
    rfl
  have hshared := forall₂_filter_resource
    (List.forall₂_drop front.length (forall₂_complete (front ++ back) scalars)) Option.isNone
  rw [List.append_assoc, List.drop_left, List.filter_append, hback, List.nil_append, hsupport]
    at hshared
  exact eq_of_forall₂_promotes hshared fun _ hmem ↦ (defined_supportDefinitions hmem).1

/-! ## Support definitions in another order -/

/-- What completion adds depends on the names that are referred to and on those that are defined. -/
theorem perm_supportDefinitions (refers : ∀ name, document.Refers name ↔ document'.Refers name)
    (defines : ∀ name, document.Defines name ↔ document'.Defines name) (scalars : ScalarRegistry) :
    (document.supportDefinitions scalars).Perm (document'.supportDefinitions scalars) := by
  have hanswers : ∀ definition, definition ∈ document.answers scalars ↔
      definition ∈ document'.answers scalars := by
    intro definition
    simp only [mem_answers, refers, defines]
  have hdistinct := (nodup_supportDefinitions document scalars).of_map
  have hdistinct' := (nodup_supportDefinitions document' scalars).of_map
  refine (List.perm_ext_iff_of_nodup hdistinct hdistinct').mpr fun definition ↦ ?_
  simp only [mem_supportDefinitions, hanswers, defines]

end TypeDocument
end ResourceApi

import ResourceApi.Document
import ResourceApi.Proofs.Graph.Builder

/-!
# Closed documents

A document is closed when everything it refers to is a scalar of the language or defined in it, and
every root type that it extends is also defined.  Completion closes a document whose open references
are all names that it knows how to define: the definitions that it adds ask for nothing else.
-/

namespace ResourceApi.TypeDocument

variable {document : TypeDocument} {scalars : ScalarRegistry} {name : String}
  {definition : Definition}

/-- The document has a definition of the name, extensions apart. -/
def Defines (document : TypeDocument) (name : String) : Prop :=
  ∃ definition ∈ document, definition.name = name ∧ definition.extending = false

/-- A field, an argument or a union member of the document is of the named type. -/
def Refers (document : TypeDocument) (name : String) : Prop :=
  ∃ definition ∈ document, name ∈ referencesOf definition

/-- A definition or an extension of the document has the name. -/
def Mentions (document : TypeDocument) (name : String) : Prop :=
  ∃ definition ∈ document, definition.name = name

/-- Everything that is referred to is defined, and so are the root types. -/
structure Closed (document : TypeDocument) : Prop where
  references : ∀ name, document.Refers name →
    Scalar.isStandard name = true ∨ document.Defines name
  roots : ∀ kind : OperationKind, document.Mentions kind.rootType →
    document.Defines kind.rootType

theorem mem_definedTypes : name ∈ document.definedTypes ↔ document.Defines name := by
  unfold definedTypes Defines
  constructor
  · intro h
    obtain ⟨definition, hmem, hname⟩ := List.mem_map.mp h
    obtain ⟨hdocument, hdefined⟩ := List.mem_filter.mp hmem
    exact ⟨definition, hdocument, hname, by simpa using hdefined⟩
  · rintro ⟨definition, hmem, hname, hdefined⟩
    exact List.mem_map.mpr ⟨definition, List.mem_filter.mpr ⟨hmem, by simp [hdefined]⟩, hname⟩

theorem mem_referencedTypes : name ∈ document.referencedTypes ↔ document.Refers name := by
  unfold referencedTypes
  rw [mem_addMissing, List.mem_flatMap]
  constructor
  · rintro (hnone | h)
    · cases hnone
    · exact h
  · exact .inr

theorem get?_isSome_iff : (get? document name).isSome = true ↔ document.Defines name := by
  unfold get? Defines
  rw [List.find?_isSome]
  simp

theorem Defines.append_left (h : document.Defines name) (more : TypeDocument) :
    Defines (document ++ more) name := by
  obtain ⟨definition, hmem, hdefines⟩ := h
  exact ⟨definition, List.mem_append_left _ hmem, hdefines⟩

theorem Defines.append_right {more : TypeDocument} (h : more.Defines name)
    (document : TypeDocument) : Defines (document ++ more) name := by
  obtain ⟨definition, hmem, hdefines⟩ := h
  exact ⟨definition, List.mem_append_right _ hmem, hdefines⟩

theorem refers_append {more : TypeDocument} :
    Refers (document ++ more) name ↔ document.Refers name ∨ more.Refers name := by
  unfold Refers
  simp [or_and_right, exists_or]

/-! ## Root types -/

theorem refers_promoteFirst (root : String) :
    Refers (promoteFirst root document) name ↔ document.Refers name := by
  induction document with
  | nil => exact Iff.rfl
  | cons first rest ih =>
    unfold promoteFirst
    split
    · simp [Refers, referencesOf]
    · have hcons : ∀ more : TypeDocument, Refers (first :: more) name ↔
          name ∈ referencesOf first ∨ more.Refers name := by
        simp [Refers]
      rw [hcons, hcons, ih]

theorem mentions_promoteFirst (root : String) :
    Mentions (promoteFirst root document) name ↔ document.Mentions name := by
  induction document with
  | nil => exact Iff.rfl
  | cons first rest ih =>
    have hcons : ∀ (definition : Definition) (more : TypeDocument),
        Mentions (definition :: more) name ↔ definition.name = name ∨ more.Mentions name := by
      simp [Mentions]
    unfold promoteFirst
    split
    · rw [hcons, hcons]
    · rw [hcons, hcons, ih]

theorem Defines.promoteFirst (h : document.Defines name) (root : String) :
    Defines (promoteFirst root document) name := by
  induction document with
  | nil => exact h
  | cons first rest ih =>
    obtain ⟨definition, hmem, hname, hdefined⟩ := h
    unfold TypeDocument.promoteFirst
    split
    · rcases List.mem_cons.mp hmem with rfl | hrest
      · exact ⟨_, List.mem_cons_self, hname, rfl⟩
      · exact ⟨definition, List.mem_cons_of_mem _ hrest, hname, hdefined⟩
    · rcases List.mem_cons.mp hmem with rfl | hrest
      · exact ⟨definition, List.mem_cons_self, hname, hdefined⟩
      · obtain ⟨held, hheld, hdefines⟩ := ih ⟨definition, hrest, hname, hdefined⟩
        exact ⟨held, List.mem_cons_of_mem _ hheld, hdefines⟩

/-- Promoting a name that is mentioned defines it. -/
theorem defines_promoteFirst (h : document.Mentions name) :
    Defines (promoteFirst name document) name := by
  induction document with
  | nil =>
    obtain ⟨_, hmem, -⟩ := h
    cases hmem
  | cons first rest ih =>
    unfold promoteFirst
    split
    · rename_i hfirst
      exact ⟨_, List.mem_cons_self, by simpa using hfirst, rfl⟩
    · rename_i hfirst
      obtain ⟨definition, hmem, hname⟩ := h
      rcases List.mem_cons.mp hmem with rfl | hrest
      · exact absurd hname (by simpa using hfirst)
      · obtain ⟨held, hheld, hdefines⟩ := ih ⟨definition, hrest, hname⟩
        exact ⟨held, List.mem_cons_of_mem _ hheld, hdefines⟩

/-- The promotion of one root type. -/
def promoteRoot (document : TypeDocument) (kind : OperationKind) : TypeDocument :=
  if (get? document kind.rootType).isSome then document
  else promoteFirst kind.rootType document

theorem promoteRootExtensions_eq (document : TypeDocument) :
    promoteRootExtensions document = (document.promoteRoot .query).promoteRoot .mutation := rfl

theorem refers_promoteRoot (kind : OperationKind) :
    (document.promoteRoot kind).Refers name ↔ document.Refers name := by
  unfold promoteRoot
  split
  · exact Iff.rfl
  · exact refers_promoteFirst _

theorem mentions_promoteRoot (kind : OperationKind) :
    (document.promoteRoot kind).Mentions name ↔ document.Mentions name := by
  unfold promoteRoot
  split
  · exact Iff.rfl
  · exact mentions_promoteFirst _

theorem Defines.promoteRoot (h : document.Defines name) (kind : OperationKind) :
    (document.promoteRoot kind).Defines name := by
  unfold TypeDocument.promoteRoot
  split
  · exact h
  · exact h.promoteFirst _

theorem defines_promoteRoot {kind : OperationKind} (h : document.Mentions kind.rootType) :
    (document.promoteRoot kind).Defines kind.rootType := by
  unfold promoteRoot
  split
  · rename_i hdefined
    exact get?_isSome_iff.mp hdefined
  · exact defines_promoteFirst h

/-- Promotion keeps the references closed and closes the root types. -/
theorem closed_promoteRootExtensions
    (h : ∀ name, document.Refers name → Scalar.isStandard name = true ∨ document.Defines name) :
    (promoteRootExtensions document).Closed := by
  rw [promoteRootExtensions_eq]
  refine ⟨fun name hrefers ↦ ?_, fun kind hmentions ↦ ?_⟩
  · rw [refers_promoteRoot, refers_promoteRoot] at hrefers
    exact (h name hrefers).imp id fun hdefines ↦ (hdefines.promoteRoot _).promoteRoot _
  · rw [mentions_promoteRoot, mentions_promoteRoot] at hmentions
    cases kind with
    | query => exact (defines_promoteRoot hmentions).promoteRoot _
    | mutation => exact defines_promoteRoot ((mentions_promoteRoot _).mpr hmentions)

/-! ## Support definitions -/

theorem name_supportFor? (h : supportFor? scalars name = some definition) :
    definition.name = name ∧ definition.extending = false := by
  unfold supportFor? at h
  split at h
  · rename_i hname
    cases h
    exact ⟨(beq_iff_eq.mp hname).symm, rfl⟩
  · split at h
    · rename_i hname
      cases h
      exact ⟨(beq_iff_eq.mp hname).symm, rfl⟩
    · split at h <;> cases h
      exact ⟨rfl, rfl⟩

/-- A definition that completion adds refers to scalars of the language, and for pagination to the
untyped scalar. -/
theorem references_supportFor? (h : supportFor? scalars name = some definition) {reference : String}
    (href : reference ∈ referencesOf definition) :
    Scalar.isStandard reference = true ∨
      reference = Scalar.json ∧ definition.name = paginationInputType := by
  unfold supportFor? at h
  split at h
  · cases h
    have hreferences : ∀ reference ∈ referencesOf paginationInput,
        Scalar.isStandard reference = true ∨ reference = Scalar.json := by decide
    exact (hreferences reference href).imp id fun hjson ↦ ⟨hjson, rfl⟩
  · split at h
    · cases h
      have hreferences : ∀ reference ∈ referencesOf nameAndId,
          Scalar.isStandard reference = true := by decide
      exact .inl (hreferences reference href)
    · split at h <;> cases h
      cases href

/-- The definitions that answer the open references. -/
def answers (document : TypeDocument) (scalars : ScalarRegistry) : List Definition :=
  (document.referencedTypes.filter fun name ↦
    !document.definedTypes.contains name && !Scalar.isStandard name).filterMap (supportFor? scalars)

theorem mem_answers : definition ∈ document.answers scalars ↔
    ∃ name, document.Refers name ∧ ¬document.Defines name ∧ Scalar.isStandard name = false ∧
      supportFor? scalars name = some definition := by
  unfold answers
  rw [List.mem_filterMap]
  simp only [List.mem_filter, mem_referencedTypes, Bool.and_eq_true, Bool.not_eq_true',
    List.contains_eq_mem, decide_eq_false_iff_not, mem_definedTypes, and_assoc]

/-- Completion adds the answers, and the untyped scalar when pagination needs it. -/
theorem mem_supportDefinitions : definition ∈ document.supportDefinitions scalars ↔
    definition ∈ document.answers scalars ∨
      definition = .new Scalar.json .scalar ∧
        (∃ answer ∈ document.answers scalars, answer.name = paginationInputType) ∧
        (∀ answer ∈ document.answers scalars, answer.name ≠ Scalar.json) ∧
        ¬document.Defines Scalar.json := by
  have hsplit : ∀ support : List Definition,
      definition ∈ support.filter (·.kind == .scalar) ++ support.filter (·.kind != .scalar) ↔
        definition ∈ support := by
    intro support
    rw [List.mem_append, List.mem_filter, List.mem_filter, ← and_or_left]
    exact and_iff_left (by simpa using eq_or_ne definition.kind .scalar)
  have hneeds : ((document.answers scalars).any (·.name == paginationInputType) &&
      !((document.answers scalars).any (·.name == Scalar.json) ||
        document.definedTypes.contains Scalar.json)) = true ↔
      (∃ answer ∈ document.answers scalars, answer.name = paginationInputType) ∧
        (∀ answer ∈ document.answers scalars, answer.name ≠ Scalar.json) ∧
        ¬document.Defines Scalar.json := by
    simp [mem_definedTypes]
  unfold supportDefinitions
  dsimp only
  rw [hsplit, ← hneeds]
  change definition ∈ ite _ (document.answers scalars ++ _) (document.answers scalars) ↔ _
  split
  · rename_i hadded
    rw [List.mem_append, List.mem_singleton]
    exact or_congr_right (iff_self_and.mpr fun _ ↦ hadded)
  · rename_i hadded
    exact (or_iff_left fun h ↦ hadded h.2).symm

theorem defines_json (h : ∃ answer ∈ document.answers scalars, answer.name = paginationInputType) :
    Defines (document ++ document.supportDefinitions scalars) Scalar.json := by
  by_cases hdefined : document.Defines Scalar.json
  · exact hdefined.append_left _
  · refine Defines.append_right ?_ document
    by_cases hanswer : ∃ answer ∈ document.answers scalars, answer.name = Scalar.json
    · obtain ⟨answer, hmem, hname⟩ := hanswer
      obtain ⟨_, -, -, -, hsupport⟩ := mem_answers.mp hmem
      exact ⟨answer, mem_supportDefinitions.mpr (.inl hmem), hname, (name_supportFor? hsupport).2⟩
    · have hnone : ∀ answer ∈ document.answers scalars, answer.name ≠ Scalar.json :=
        fun answer hmem hname ↦ hanswer ⟨answer, hmem, hname⟩
      exact ⟨_, mem_supportDefinitions.mpr (.inr ⟨rfl, h, hnone, hdefined⟩), rfl, rfl⟩

/-- A name that is referred to and can be completed is defined after completion. -/
theorem Refers.defines (h : document.Refers name)
    (support : (supportFor? scalars name).isSome = true) : Scalar.isStandard name = true ∨
      Defines (document ++ document.supportDefinitions scalars) name := by
  by_cases hstandard : Scalar.isStandard name = true
  · exact .inl hstandard
  by_cases hdefined : document.Defines name
  · exact .inr (hdefined.append_left _)
  obtain ⟨definition, hdefinition⟩ := Option.isSome_iff_exists.mp support
  obtain ⟨hname, hextending⟩ := name_supportFor? hdefinition
  have hanswer : definition ∈ document.answers scalars :=
    mem_answers.mpr ⟨name, h, hdefined, by simpa using hstandard, hdefinition⟩
  refine .inr (Defines.append_right ?_ document)
  exact ⟨definition, mem_supportDefinitions.mpr (.inl hanswer), hname, hextending⟩

/-- What the added definitions refer to is defined beside them. -/
theorem defines_of_refers_support (h : Refers (document.supportDefinitions scalars) name) :
    Scalar.isStandard name = true ∨
      Defines (document ++ document.supportDefinitions scalars) name := by
  obtain ⟨definition, hmem, href⟩ := h
  rcases mem_supportDefinitions.mp hmem with hanswer | ⟨rfl, -⟩
  · obtain ⟨_, -, -, -, hsupport⟩ := mem_answers.mp hanswer
    rcases references_supportFor? hsupport href with hstandard | ⟨rfl, hpagination⟩
    · exact .inl hstandard
    · exact .inr (defines_json ⟨definition, hanswer, hpagination⟩)
  · cases href

/-- Completion closes a document if every open reference is a name that it can define. -/
theorem closed_complete (h : ∀ name, document.Refers name → Scalar.isStandard name = true ∨
      document.Defines name ∨ (supportFor? scalars name).isSome = true) :
    (complete document scalars).Closed := by
  refine closed_promoteRootExtensions fun name hrefers ↦ ?_
  rcases refers_append.mp hrefers with hdocument | hsupport
  · rcases h name hdocument with hstandard | hdefined | hsupport
    · exact .inl hstandard
    · exact .inr (hdefined.append_left _)
    · exact hdocument.defines hsupport
  · exact defines_of_refers_support hsupport

end ResourceApi.TypeDocument

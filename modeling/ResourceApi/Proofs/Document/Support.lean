import ResourceApi.Proofs.Document.Completion

/-!
# Support definitions

The support definitions of a document complete it in one step.  They define what is referred to and has no
definition, each name once and scalars first; what they refer to themselves is among them or was defined
before.  So a document with its support definitions asks for no others.
-/

namespace ResourceApi.TypeDocument

variable {document : TypeDocument} {scalars : ScalarRegistry} {name : String}
  {definition : Definition}

/-- The names that can be supported: the two shared types, the untyped scalar, counts, times, and every
registered scalar that the schema language does not know. -/
def Supported (scalars : ScalarRegistry) (name : String) : Prop :=
  name ∈ [paginationInputType, nameAndIdType, Scalar.json, Scalar.nonNegativeInt, Scalar.dateTime] ∨
    scalars.has name = true ∧ name ∉ Scalar.standard

theorem supported_iff : Supported scalars name ↔
    (supportFor? scalars name).isSome = true ∧ Scalar.isStandard name = false := by
  have hshared : ∀ shared ∈ [paginationInputType, nameAndIdType, Scalar.json, Scalar.nonNegativeInt,
      Scalar.dateTime], Scalar.isStandard shared = false := by decide
  have hstandard : Scalar.isStandard name = false ↔ name ∉ Scalar.standard := by
    simp [Scalar.isStandard]
  have hsome : (supportFor? scalars name).isSome = true ↔ name = paginationInputType ∨
      name = nameAndIdType ∨ Scalar.isBuiltin name = true ∨ name = Scalar.dateTime ∨
        scalars.has name = true := by
    unfold supportFor?
    split
    · simp_all
    · split
      · simp_all
      · split <;> simp_all [or_assoc]
  rw [hsome, Supported]
  constructor
  · rintro (hmem | ⟨hhas, hapart⟩)
    · refine ⟨?_, hshared name hmem⟩
      simp only [List.mem_cons, List.not_mem_nil, or_false] at hmem
      rcases hmem with rfl | rfl | rfl | rfl | rfl <;> simp [Scalar.isBuiltin]
    · exact ⟨.inr (.inr (.inr (.inr hhas))), hstandard.mpr hapart⟩
  · rintro ⟨hsupport, hapart⟩
    rcases hsupport with rfl | rfl | hbuiltin | rfl | hhas
    · simp
    · simp
    · rcases (by simpa [Scalar.isBuiltin, hapart] using hbuiltin) with rfl | rfl <;> simp
    · simp
    · exact .inr ⟨hhas, hstandard.mp hapart⟩

/-- Scalars come before the other kinds. -/
theorem scalars_first (document : TypeDocument) (scalars : ScalarRegistry) :
    (document.supportDefinitions scalars).Pairwise fun first later ↦
      later.kind = .scalar → first.kind = .scalar := by
  unfold supportDefinitions
  refine List.pairwise_append.mpr ⟨?_, ?_, fun first hfirst _ _ _ ↦ ?_⟩
  · refine List.pairwise_of_forall_mem_list fun first hfirst _ _ _ ↦ ?_
    exact beq_iff_eq.mp (List.mem_filter.mp hfirst).2
  · refine List.pairwise_of_forall_mem_list fun _ _ later hlater hscalar ↦ ?_
    exact absurd hscalar (bne_iff_ne.mp (List.mem_filter.mp hlater).2)
  · exact beq_iff_eq.mp (List.mem_filter.mp hfirst).2

/-- With its support definitions a document defines every name it refers to that can be supported. -/
theorem defines_of_supported
    (h : Refers (document ++ document.supportDefinitions scalars) name)
    (supported : Supported scalars name) :
    Defines (document ++ document.supportDefinitions scalars) name := by
  obtain ⟨hsome, hapart⟩ := supported_iff.mp supported
  have hdefined := (refers_append.mp h).elim (·.defines hsome) defines_of_refers_support
  exact hdefined.resolve_left (by simp [hapart])

/-- A support definition is of a name that the document refers to, or of the untyped scalar beside the
pagination input, which refers to it. -/
theorem refers_of_mem_support (h : definition ∈ document.supportDefinitions scalars) :
    Refers (document ++ document.supportDefinitions scalars) definition.name := by
  rcases mem_supportDefinitions.mp h with hanswer | ⟨rfl, ⟨pagination, hpagination, hname⟩, -⟩
  · obtain ⟨name, hrefers, -, -, hsupport⟩ := mem_answers.mp hanswer
    rw [(name_supportFor? hsupport).1]
    exact refers_append.mpr (.inl hrefers)
  · obtain ⟨name, -, -, -, hsupport⟩ := mem_answers.mp hpagination
    obtain rfl := (name_supportFor? hsupport).1.symm.trans hname
    obtain rfl : paginationInput = pagination := Option.some.inj hsupport
    exact refers_append.mpr
      (.inr ⟨paginationInput, mem_supportDefinitions.mpr (.inl hpagination), by decide⟩)

theorem supportDefinitions_eq_nil (h : document.answers scalars = []) :
    document.supportDefinitions scalars = [] := by
  refine List.eq_nil_iff_forall_not_mem.mpr fun definition hmem ↦ ?_
  rcases mem_supportDefinitions.mp hmem with hanswer | ⟨-, ⟨_, hanswer, -⟩, -⟩ <;>
  · rw [h] at hanswer
    cases hanswer

/-- No reference of a document with its support definitions is open that could be supported. -/
theorem answers_supported (document : TypeDocument) (scalars : ScalarRegistry) :
    answers (document ++ document.supportDefinitions scalars) scalars = [] := by
  refine List.eq_nil_iff_forall_not_mem.mpr fun definition hanswer ↦ ?_
  obtain ⟨name, hrefers, hundefined, hapart, hsupport⟩ := mem_answers.mp hanswer
  have hsome := Option.isSome_iff_exists.mpr ⟨definition, hsupport⟩
  exact hundefined (defines_of_supported hrefers (supported_iff.mpr ⟨hsome, hapart⟩))

/-- The support definitions complete a document in one step.  They are definitions of names that have
none and are referred to, no name twice, scalars first.  With them every supported name that is referred
to is defined, also by the support definitions themselves, and nothing is left to support. -/
theorem supportDefinitions_complete (document : TypeDocument) (scalars : ScalarRegistry) :
    let support := document.supportDefinitions scalars
    (∀ definition ∈ support, definition.extending = false ∧ ¬document.Defines definition.name ∧
      Refers (document ++ support) definition.name) ∧
    (support.map (·.name)).Nodup ∧
    support.Pairwise (fun first later ↦ later.kind = .scalar → first.kind = .scalar) ∧
    (∀ name, Refers (document ++ support) name → Supported scalars name →
      Defines (document ++ support) name) ∧
    supportDefinitions (document ++ support) scalars = [] := by
  refine ⟨fun definition hmem ↦ ?_, nodup_supportDefinitions document scalars,
    scalars_first document scalars, fun name hrefers hsupported ↦ ?_, ?_⟩
  · obtain ⟨hdefined, hnew⟩ := defined_supportDefinitions hmem
    exact ⟨hdefined, mt mem_definedTypes.mpr hnew, refers_of_mem_support hmem⟩
  · exact defines_of_supported hrefers hsupported
  · exact supportDefinitions_eq_nil (answers_supported document scalars)

/-- A document that only extends the untyped scalar, and asks for pages and for an address, gets the
scalar with the pagination input. -/
theorem supportDefinitions_complete_pages :
    let page : FieldDefinition :=
      ⟨"page", "[NameAndId!]!", [⟨"pagination", "PaginationInput!", none⟩], none, none⟩
    let query : Definition := { Definition.new "Query" .object with
      extending := true, fields := [page, .new "email" "Email", .new "missing" "Nowhere"] }
    let json : Definition := { Definition.new "JSON" .scalar with extending := true }
    let scalars : ScalarRegistry := ⟨[("Email", fun _ ↦ true)]⟩
    let support := supportDefinitions [query, json] scalars
    support.map (·.name) = ["Email", "JSON", "NameAndId", "PaginationInput"] ∧
    Defines ([query, json] ++ support) "JSON" ∧
    supportDefinitions ([query, json] ++ support) scalars = [] := by
  intro page query json scalars support
  obtain ⟨-, -, -, hdefines, hnil⟩ := supportDefinitions_complete [query, json] scalars
  have hnames : support.map (·.name) = ["Email", "JSON", "NameAndId", "PaginationInput"] := by
    decide +kernel
  refine ⟨hnames, hdefines "JSON" ⟨paginationInput, ?_, ?_⟩ ?_, hnil⟩
  · exact List.mem_append_right _ (by decide +kernel)
  · decide
  · exact .inl (by decide)

end ResourceApi.TypeDocument

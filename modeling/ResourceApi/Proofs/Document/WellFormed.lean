import ResourceApi.Proofs.Document.Order

/-!
# Well-formed documents

A well-formed document defines every name at most once, and over the definition and all extensions of a
name no field, member or value occurs twice.  Two documents stay well formed together if neither repeats
what the other has.  Completion keeps a document well formed, unless a shared type that it adds repeats
the fields of an extension.
-/

namespace ResourceApi.TypeDocument

variable {document more : TypeDocument} {scalars : ScalarRegistry} {name : String}
  {definition : Definition} {part : Definition → List String}

/-! ## The parts of a type -/

/-- The parts of some kind that a type has, over its definition and all its extensions. -/
def parts (document : TypeDocument) (part : Definition → List String) (name : String) :
    List String :=
  (document.allNamed name).flatMap part

/-- The names of the fields of a definition. -/
def fieldNames (definition : Definition) : List String := definition.fields.map (·.name)

theorem parts_fieldNames (document : TypeDocument) (name : String) :
    document.parts fieldNames name = document.typeFields name := by
  unfold typeFields fieldsOf
  rw [List.map_flatMap]
  rfl

theorem mem_parts {text : String} : text ∈ document.parts part name ↔
    ∃ definition ∈ document, definition.name = name ∧ text ∈ part definition := by
  unfold parts allNamed
  simp [and_assoc]

theorem parts_append (document more : TypeDocument) (part : Definition → List String)
    (name : String) : parts (document ++ more) part name =
      document.parts part name ++ parts more part name := by
  unfold parts allNamed
  rw [List.filter_append, List.flatMap_append]

theorem parts_eq_nil (h : ∀ definition ∈ document, definition.name = name → part definition = []) :
    document.parts part name = [] := by
  rw [List.eq_nil_iff_forall_not_mem]
  intro text htext
  obtain ⟨definition, hmem, hname, htext⟩ := mem_parts.mp htext
  rw [h definition hmem hname] at htext
  cases htext

/-- A type that stands in one place has no part twice if it has none twice there. -/
theorem nodup_parts (distinct : (document.map (·.name)).Nodup)
    (each : ∀ definition ∈ document, (part definition).Nodup) (name : String) :
    (document.parts part name).Nodup := by
  unfold parts allNamed
  refine List.nodup_flatMap.mpr ⟨fun definition hmem ↦ each definition (List.mem_of_mem_filter hmem), ?_⟩
  have hapart := (List.pairwise_map.mp distinct).filter (·.name == name)
  refine hapart.imp_of_mem fun {first second} hfirst hsecond hne ↦ ?_
  have hname := beq_iff_eq.mp (List.mem_filter.mp hfirst).2
  have hname' := beq_iff_eq.mp (List.mem_filter.mp hsecond).2
  exact absurd (hname.trans hname'.symm) hne

/-- Promotion keeps the parts of all types. -/
theorem parts_of_promotes {later : TypeDocument} (h : List.Forall₂ Definition.Promotes document later)
    (keeps : ∀ definition extending, part { definition with extending := extending } = part definition)
    (name : String) : later.parts part name = document.parts part name := by
  have hcons : ∀ (definition : Definition) (document : TypeDocument),
      parts (definition :: document) part name =
        (if definition.name = name then part definition else []) ++ document.parts part name := by
    intro definition document
    unfold parts allNamed
    by_cases hname : definition.name = name <;> simp [hname]
  induction h with
  | nil => rfl
  | cons hfirst _ ih =>
    rw [hcons, hcons, ih]
    rcases hfirst with rfl | ⟨-, rfl⟩
    · rfl
    · rw [keeps]

/-! ## Well-formed documents -/

/-- No name is defined twice, and no type has a field, a member or a value twice. -/
structure WellFormed (document : TypeDocument) : Prop where
  definitions : document.definedTypes.Nodup
  fields : ∀ name, (document.typeFields name).Nodup
  members : ∀ name, (document.parts (·.members) name).Nodup
  values : ∀ name, (document.parts (·.values) name).Nodup

/-- It is enough to look at the names that the document mentions. -/
theorem wellFormed_iff : document.WellFormed ↔ document.definedTypes.Nodup ∧
    ∀ name ∈ document.map (·.name), (document.typeFields name).Nodup ∧
      (document.parts (·.members) name).Nodup ∧ (document.parts (·.values) name).Nodup := by
  constructor
  · exact fun h ↦ ⟨h.definitions, fun name _ ↦ ⟨h.fields name, h.members name, h.values name⟩⟩
  · rintro ⟨hdefinitions, hparts⟩
    have hunnamed : ∀ name ∉ document.map (·.name), ∀ part, document.parts part name = [] :=
      fun name hname part ↦ parts_eq_nil fun definition hmem heq ↦
        absurd (List.mem_map.mpr ⟨definition, hmem, heq⟩) hname
    refine ⟨hdefinitions, fun name ↦ ?_, fun name ↦ ?_, fun name ↦ ?_⟩ <;>
      by_cases hname : name ∈ document.map (·.name)
    · exact (hparts name hname).1
    · rw [← parts_fieldNames, hunnamed name hname]
      exact List.nodup_nil
    · exact (hparts name hname).2.1
    · rw [hunnamed name hname]
      exact List.nodup_nil
    · exact (hparts name hname).2.2
    · rw [hunnamed name hname]
      exact List.nodup_nil

instance (document : TypeDocument) : Decidable document.WellFormed :=
  decidable_of_iff _ wellFormed_iff.symm

theorem nodup_parts_append (h : (document.parts part name).Nodup)
    (h' : (more.parts part name).Nodup)
    (apart : ∀ definition ∈ more, ∀ text ∈ part definition,
      text ∉ document.parts part definition.name) :
    (parts (document ++ more) part name).Nodup := by
  rw [parts_append]
  refine h.append h' fun text htext hmore ↦ ?_
  obtain ⟨definition, hmem, rfl, hpart⟩ := mem_parts.mp hmore
  exact apart definition hmem text hpart htext

/-- The document has nothing of what the entry brings: no definition of its name if it is one, and none
of its fields, members and values. -/
structure Lacks (document : TypeDocument) (definition : Definition) : Prop where
  definitions : definition.extending = false → definition.name ∉ document.definedTypes
  fields : ∀ field ∈ fieldNames definition, field ∉ document.typeFields definition.name
  members : ∀ member ∈ definition.members, member ∉ document.parts (·.members) definition.name
  values : ∀ value ∈ definition.values, value ∉ document.parts (·.values) definition.name

/-- Two well-formed documents are so together if the second repeats nothing of the first. -/
theorem WellFormed.append (h : document.WellFormed) (h' : more.WellFormed)
    (lacks : ∀ definition ∈ more, document.Lacks definition) :
    WellFormed (document ++ more) where
  definitions := by
    rw [definedTypes_append]
    refine h.definitions.append h'.definitions fun name hname hmore ↦ ?_
    obtain ⟨definition, hmem, rfl, hdefined⟩ := mem_definedTypes.mp hmore
    exact (lacks definition hmem).definitions hdefined hname
  fields name := by
    rw [← parts_fieldNames]
    refine nodup_parts_append (parts_fieldNames document name ▸ h.fields name)
      (parts_fieldNames more name ▸ h'.fields name) fun definition hmem ↦ ?_
    rw [parts_fieldNames]
    exact (lacks definition hmem).fields
  members name := nodup_parts_append (h.members name) (h'.members name) fun definition hmem ↦
    (lacks definition hmem).members
  values name := nodup_parts_append (h.values name) (h'.values name) fun definition hmem ↦
    (lacks definition hmem).values

theorem definedTypes_perm (perm : document.Perm more) :
    document.definedTypes.Perm more.definedTypes :=
  (perm.filter _).map _

theorem parts_perm (perm : document.Perm more) (part : Definition → List String) (name : String) :
    (document.parts part name).Perm (more.parts part name) :=
  (perm.filter _).flatMap_right part

/-- The order of a document does not matter. -/
theorem WellFormed.of_perm (h : document.WellFormed) (perm : document.Perm more) :
    more.WellFormed where
  definitions := (definedTypes_perm perm).nodup h.definitions
  fields name := by
    rw [← parts_fieldNames]
    exact (parts_perm perm _ name).nodup (parts_fieldNames document name ▸ h.fields name)
  members name := (parts_perm perm _ name).nodup (h.members name)
  values name := (parts_perm perm _ name).nodup (h.values name)

/-- A document in which each name stands once is well formed if each of its entries is. -/
theorem wellFormed_of_nodup (distinct : (document.map (·.name)).Nodup)
    (each : ∀ definition ∈ document, (fieldNames definition).Nodup ∧ definition.members.Nodup ∧
      definition.values.Nodup) : document.WellFormed where
  definitions := (List.filter_sublist.map _).nodup distinct
  fields name := by
    rw [← parts_fieldNames]
    exact nodup_parts distinct (fun definition hmem ↦ (each definition hmem).1) name
  members := nodup_parts distinct fun definition hmem ↦ (each definition hmem).2.1
  values := nodup_parts distinct fun definition hmem ↦ (each definition hmem).2.2

/-! ## Completed documents -/

/-- A support definition is one of the two shared types, or it holds nothing. -/
theorem cases_supportDefinitions (h : definition ∈ document.supportDefinitions scalars) :
    definition = paginationInput ∨ definition = nameAndId ∨
      definition = .new definition.name .scalar := by
  rcases mem_supportDefinitions.mp h with hanswer | ⟨rfl, -⟩
  · obtain ⟨name, -, -, -, hsupport⟩ := mem_answers.mp hanswer
    unfold supportFor? at hsupport
    split at hsupport
    · exact .inl (Option.some.inj hsupport).symm
    · split at hsupport
      · exact .inr (.inl (Option.some.inj hsupport).symm)
      · split at hsupport <;> cases hsupport
        exact .inr (.inr rfl)
  · exact .inr (.inr rfl)

theorem parts_supportDefinitions (h : definition ∈ document.supportDefinitions scalars) :
    (fieldNames definition).Nodup ∧ definition.members = [] ∧ definition.values = [] := by
  rcases cases_supportDefinitions h with rfl | rfl | hscalar
  · decide
  · decide
  · rw [hscalar]
    exact ⟨List.nodup_nil, rfl, rfl⟩

theorem wellFormed_supportDefinitions (document : TypeDocument) (scalars : ScalarRegistry) :
    WellFormed (document.supportDefinitions scalars) := by
  refine wellFormed_of_nodup (nodup_supportDefinitions document scalars) fun definition hmem ↦ ?_
  obtain ⟨hfields, hmembers, hvalues⟩ := parts_supportDefinitions hmem
  rw [hmembers, hvalues]
  exact ⟨hfields, List.nodup_nil, List.nodup_nil⟩

theorem sublist_definedTypes_of_promotes {later : TypeDocument}
    (h : List.Forall₂ Definition.Promotes document later) :
    document.definedTypes.Sublist later.definedTypes := by
  induction h with
  | nil => exact List.Sublist.refl _
  | @cons first second _ _ hfirst _ ih =>
    cases hextending : first.extending with
    | true =>
      rw [definedTypes_cons_of_extending hextending]
      refine ih.trans ?_
      cases hpromoted : second.extending with
      | true => rw [definedTypes_cons_of_extending hpromoted]
      | false =>
        rw [definedTypes_cons_of_defined hpromoted]
        exact List.sublist_cons_self _ _
    | false =>
      rw [hfirst.eq_of_defined hextending, definedTypes_cons_of_defined hextending,
        definedTypes_cons_of_defined hextending]
      exact ih.cons_cons _

/-- What a document defines it defines after completion, in the same order. -/
theorem sublist_definedTypes_complete (document : TypeDocument) (scalars : ScalarRegistry) :
    document.definedTypes.Sublist (complete document scalars).definedTypes := by
  refine List.Sublist.trans ?_ (sublist_definedTypes_of_promotes (forall₂_complete document scalars))
  rw [definedTypes_append]
  exact List.sublist_append_left _ _

theorem WellFormed.of_promotes {later : TypeDocument} (h : document.WellFormed)
    (promotes : List.Forall₂ Definition.Promotes document later)
    (definitions : later.definedTypes.Nodup) : later.WellFormed where
  definitions := definitions
  fields name := by
    rw [← parts_fieldNames, parts_of_promotes promotes fun _ _ ↦ rfl, parts_fieldNames]
    exact h.fields name
  members name := by
    rw [parts_of_promotes promotes fun _ _ ↦ rfl]
    exact h.members name
  values name := by
    rw [parts_of_promotes promotes fun _ _ ↦ rfl]
    exact h.values name

/-- Completion keeps a document well formed if the shared types that it adds have fields of their own. -/
theorem WellFormed.complete (h : document.WellFormed)
    (support : ∀ definition ∈ document.supportDefinitions scalars,
      ∀ field ∈ fieldNames definition, field ∉ document.typeFields definition.name) :
    (complete document scalars).WellFormed := by
  have hboth : WellFormed (document ++ document.supportDefinitions scalars) := by
    refine h.append (wellFormed_supportDefinitions document scalars) fun definition hmem ↦ ?_
    obtain ⟨-, hmembers, hvalues⟩ := parts_supportDefinitions hmem
    refine ⟨fun _ ↦ (defined_supportDefinitions hmem).2, support definition hmem, ?_, ?_⟩
    · rw [hmembers]
      exact fun _ h ↦ nomatch h
    · rw [hvalues]
      exact fun _ h ↦ nomatch h
  exact hboth.of_promotes (forall₂_complete document scalars)
    (nodup_definedTypes_complete h.definitions)

end ResourceApi.TypeDocument

import ResourceApi.Proofs.Document.Body
import ResourceApi.Proofs.Document.Completion
import ResourceApi.Proofs.Signature

/-!
# Documents that are read as they are printed

The definitions of operations, of their pages and of shared types are legible if the names behind them
are valid, and completion keeps a document legible.
-/

namespace ResourceApi

/-! ## Types of fields -/

section Decorated

variable {name : String}

theorem IsName.isDecorated (h : IsName name) (nullable : List Bool) :
    IsDecorated (decorate name nullable) :=
  ⟨name, nullable, h, rfl⟩

theorem IsName.nullable (h : IsName name) : IsDecorated name :=
  TypeRef.decorate_nullable name ▸ h.isDecorated [true]

theorem IsName.nonNull (h : IsName name) : IsDecorated (name ++ "!") :=
  TypeRef.decorate_nonNull name ▸ h.isDecorated [false]

theorem IsName.list (h : IsName name) : IsDecorated ("[" ++ name ++ "]!") :=
  TypeRef.decorate_list name ▸ h.isDecorated [false, true]

theorem IsName.nonNullList (h : IsName name) : IsDecorated ("[" ++ name ++ "!]!") :=
  TypeRef.decorate_nonNullList name ▸ h.isDecorated [false, false]

theorem isDecorated_id : IsDecorated "ID!" := ⟨"ID", [false], by decide, by decide⟩

theorem isDecorated_int : IsDecorated "Int!" := ⟨"Int", [false], by decide, by decide⟩

end Decorated

theorem FieldDefinition.legible_new {name type : String} (hname : IsName name)
    (htype : IsDecorated type) : (FieldDefinition.new name type).Legible :=
  ⟨hname, htype, nofun, nofun, nofun⟩

/-! ## Operations -/

namespace OperationNames

variable {names : OperationNames}

theorem isName_synthesized (resource : IsWord names.resource) (plural : IsWord names.plural)
    (operation : Operation) : IsName (names.synthesized operation) := by
  cases operation with
  | query range segment part =>
    have hrange : IsWord range.label := by cases range <;> decide
    have hpart : IsWord part.label := by cases part <;> decide
    have hget : IsName "get" := by decide
    exact (((hget.append hrange).append (isName_segment segment).isWord).append plural).append hpart
  | mutation action target =>
    have haction : IsName action.key := by cases action <;> decide
    cases target with
    | single => exact haction.append resource
    | multi => exact haction.append plural

theorem isDecorated_return (resource : IsWord names.resource) (plural : IsWord names.plural)
    (operation : Operation) : IsDecorated (names.signature operation).returnType := by
  cases operation with
  | query range segment part =>
    have hobject := isName_objectTypeName segment resource
    have hpage := isName_pageTypeName segment plural
    have hshared : IsName nameAndIdType := by decide
    have hcount : IsName Scalar.nonNegativeInt := by decide
    cases part with
    | count => cases range <;> exact hcount.nonNull
    | nameAndId => cases range <;> first | exact hshared.nullable | exact hshared.nonNullList
    | whole =>
      cases range <;>
        first | exact hobject.nullable | exact hobject.nonNullList | exact hpage.nonNull
  | mutation action target =>
    have hobject := isName_objectTypeName .own resource
    cases target with
    | single => exact hobject.nullable
    | multi => exact hobject.list

theorem readable_queryArgument (range : QueryRange) :
    ∀ argument ∈ queryArguments range, IsName argument.name ∧ IsDecorated argument.type := by
  have hfilter : IsName "filter" ∧ IsDecorated Scalar.json :=
    ⟨by decide, IsName.nullable (by decide)⟩
  have hpagination : IsName "pagination" ∧ IsDecorated (paginationInputType ++ "!") :=
    ⟨by decide, IsName.nonNull (by decide)⟩
  have hid : IsName "id" ∧ IsDecorated "ID!" := ⟨by decide, isDecorated_id⟩
  cases range with
  | all => exact fun _ h ↦ nomatch h
  | filtered => exact List.forall_mem_singleton.mpr hfilter
  | paginated => exact List.forall_mem_cons.mpr ⟨hfilter, List.forall_mem_singleton.mpr hpagination⟩
  | byId => exact List.forall_mem_singleton.mpr hid

theorem readable_mutationArgument (resource : IsWord names.resource) (action : Action)
    (target : Target) : IsName (names.mutationArgument action target).name ∧
      IsDecorated (names.mutationArgument action target).type := by
  unfold mutationArgument
  cases action.input? with
  | none =>
    have hone : IsName "id" ∧ IsDecorated "ID!" := ⟨by decide, isDecorated_id⟩
    have hlist : IsName "ids" ∧ IsDecorated "[ID!]!" :=
      ⟨by decide, "ID", [false, false], by decide, by decide⟩
    cases target with
    | single => exact hone
    | multi => exact hlist
  | some input =>
    have hdata : IsName "data" := by decide
    have hinput := isName_inputTypeName input resource
    cases target with
    | single => exact ⟨hdata, hinput.nonNull⟩
    | multi => exact ⟨hdata, hinput.nonNullList⟩

theorem legible_signature (resource : IsWord names.resource) (plural : IsWord names.plural)
    (renames : ∀ entry ∈ names.renames, IsName entry.2) (operation : Operation) :
    (TypeDocument.ofSignature (names.signature operation)).Legible where
  name := by
    change IsName ((names.renames.get? (names.synthesized operation)).getD _)
    cases hrename : names.renames.get? (names.synthesized operation) with
    | none => exact isName_synthesized resource plural operation
    | some name => exact renames _ (Entries.mem_of_get? hrename)
  type := isDecorated_return resource plural operation
  arguments := by
    have harguments : ∀ argument ∈ (names.signature operation).arguments,
        IsName argument.name ∧ IsDecorated argument.type := by
      cases operation with
      | query range segment part => exact readable_queryArgument range
      | mutation action target =>
        exact List.forall_mem_singleton.mpr (readable_mutationArgument resource action target)
    intro argument hargument
    obtain ⟨signed, hsigned, rfl⟩ := List.mem_map.mp hargument
    exact ⟨(harguments signed hsigned).1, (harguments signed hsigned).2, nofun⟩
  default := nofun
  description := nofun

end OperationNames

/-! ## Definitions -/

theorem Definition.Legible.promote {definition : Definition} (h : definition.Legible) :
    { definition with extending := false }.Legible := by
  refine ⟨h.name, h.description, nofun, h.fields, h.members, h.values, ?_⟩
  have hfits := h.fits
  unfold FitsKind at hfits ⊢
  cases hkind : definition.kind with
  | scalar =>
    simp only [hkind] at hfits
    exact ⟨rfl, hfits.2⟩
  | _ => simpa only [hkind] using hfits

namespace TypeDocument

variable {document : TypeDocument} {scalars : ScalarRegistry} {definition : Definition}
  {name resource : String}

/-- A type with fields that have no arguments and no defaults. -/
theorem legible_object {kind : DefinitionKind} {fields : List FieldDefinition} (hname : IsName name)
    (hkind : kind = .object ∨ kind = .inputObject) (nonempty : fields ≠ [])
    (hfields : ∀ field ∈ fields, field.Legible ∧ field.arguments = [] ∧ field.default = none)
    (owner : Option String) :
    ({ Definition.new name kind with fields := fields, resource := owner } : Definition).Legible := by
  refine ⟨hname, nofun, nofun, fun field hfield ↦ (hfields field hfield).1, nofun, nofun, ?_⟩
  rcases hkind with rfl | rfl
  · exact ⟨nonempty, fun field hfield ↦ (hfields field hfield).2.2, rfl, rfl⟩
  · exact ⟨nonempty, fun field hfield ↦ (hfields field hfield).2.1, rfl, rfl⟩

theorem legible_scalar (h : IsName name) : (Definition.new name .scalar).Legible :=
  ⟨h, nofun, nofun, nofun, nofun, nofun, rfl, rfl, rfl, rfl⟩

/-- The definition of a type fits its kind if the type has what its kind asks for, and nothing else. -/
theorem fitsKind_ofNode {node : TypeNode} (filled : node.isEmpty = false)
    (fields : node.fields ≠ [] → node.kind ≠ .union ∧ node.kind ≠ .enumeration)
    (members : node.members ≠ [] → node.kind = .union)
    (values : node.values ≠ [] → node.kind = .enumeration) (resource : String) :
    (ofNode resource node).FitsKind := by
  have hfields : node.kind = .union ∨ node.kind = .enumeration → node.fields = [] := fun hkind ↦
    by_contra fun hne ↦ hkind.elim (fields hne).1 (fields hne).2
  have hmembers : node.kind ≠ .union → node.members = [] := fun hkind ↦ by_contra (hkind ∘ members)
  have hvalues : node.kind ≠ .enumeration → node.values = [] := fun hkind ↦ by_contra (hkind ∘ values)
  have hplain : ∀ field ∈ (ofNode resource node).fields, field.arguments = [] ∧ field.default = none := by
    intro field hfield
    obtain ⟨held, -, rfl⟩ := List.mem_map.mp hfield
    exact ⟨rfl, rfl⟩
  have hnone : (ofNode resource node).fields = [] ↔ node.fields = [] :=
    List.map_eq_nil_iff.trans List.map_eq_nil_iff
  unfold TypeNode.isEmpty at filled
  unfold Definition.FitsKind
  rw [show (ofNode resource node).kind = kindOf node.kind from rfl]
  cases hkind : node.kind with
  | union =>
    simp only [hkind, List.isEmpty_eq_false_iff] at filled
    exact ⟨hnone.mpr (hfields (.inl hkind)), filled, hvalues (by simp [hkind])⟩
  | enumeration =>
    simp only [hkind, List.isEmpty_eq_false_iff] at filled
    exact ⟨hnone.mpr (hfields (.inr hkind)), hmembers (by simp [hkind]), filled⟩
  | object | interface =>
    simp only [hkind, List.isEmpty_eq_false_iff] at filled
    exact ⟨mt hnone.mp filled, fun field hfield ↦ (hplain field hfield).2, hmembers (by simp [hkind]),
      hvalues (by simp [hkind])⟩
  | input action =>
    simp only [hkind, List.isEmpty_eq_false_iff] at filled
    exact ⟨mt hnone.mp filled, fun field hfield ↦ (hplain field hfield).1, hmembers (by simp [hkind]),
      hvalues (by simp [hkind])⟩

theorem legible_page {page : PageType} (hname : IsName page.name) (hobject : IsName page.object)
    (resource : String) : (ofPage resource page).Legible := by
  refine legible_object hname (.inl rfl) (List.cons_ne_nil _ _) (fun field hfield ↦ ?_) _
  have hcount : IsDecorated (Scalar.nonNegativeInt ++ "!") := IsName.nonNull (by decide)
  simp only [List.mem_cons, List.not_mem_nil, or_false] at hfield
  rcases hfield with rfl | rfl | rfl | rfl
  · exact ⟨FieldDefinition.legible_new (by decide) hobject.nonNullList, rfl, rfl⟩
  · exact ⟨FieldDefinition.legible_new (by decide) hcount, rfl, rfl⟩
  · exact ⟨FieldDefinition.legible_new (by decide) isDecorated_int, rfl, rfl⟩
  · exact ⟨FieldDefinition.legible_new (by decide) isDecorated_int, rfl, rfl⟩

theorem legible_rootExtension {kind : OperationKind} {signatures : List Signature}
    (h : ∀ signature ∈ signatures, (ofSignature signature).Legible)
    (mem : definition ∈ rootExtension resource kind signatures) : definition.Legible := by
  unfold rootExtension at mem
  split at mem
  · cases mem
  · rename_i hnonempty
    obtain rfl := List.mem_singleton.mp mem
    have hname : IsName kind.rootType := by cases kind <;> decide
    refine ⟨hname, nofun, fun _ ↦ rfl, fun field hfield ↦ ?_, nofun, nofun, ?_, ?_, rfl, rfl⟩
    · obtain ⟨signature, hsignature, rfl⟩ := List.mem_map.mp hfield
      exact h signature hsignature
    · simpa using hnonempty
    · intro field hfield
      obtain ⟨signature, -, rfl⟩ := List.mem_map.mp hfield
      rfl

theorem legible_supportFor? (registered : scalars.Named) (h : supportFor? scalars name = some definition) :
    definition.Legible := by
  unfold supportFor? at h
  split at h
  · cases h
    refine legible_object (by decide) (.inr rfl) (List.cons_ne_nil _ _) (fun field hfield ↦ ?_) _
    simp only [List.mem_cons, List.not_mem_nil, or_false] at hfield
    rcases hfield with rfl | rfl | rfl
    · exact ⟨FieldDefinition.legible_new (by decide) isDecorated_int, rfl, rfl⟩
    · exact ⟨FieldDefinition.legible_new (by decide) isDecorated_int, rfl, rfl⟩
    · exact ⟨FieldDefinition.legible_new (by decide) (IsName.nullable (by decide)), rfl, rfl⟩
  · split at h
    · cases h
      refine legible_object (by decide) (.inl rfl) (List.cons_ne_nil _ _) (fun field hfield ↦ ?_) _
      simp only [List.mem_cons, List.not_mem_nil, or_false] at hfield
      rcases hfield with rfl | rfl
      · exact ⟨FieldDefinition.legible_new (by decide) isDecorated_id, rfl, rfl⟩
      · exact ⟨FieldDefinition.legible_new (by decide) (IsName.nullable (by decide)), rfl, rfl⟩
    · split at h <;> cases h
      rename_i hoffered
      have hscalar : scalars.Offers name := by
        simpa [ScalarRegistry.Offers, or_assoc] using hoffered
      exact legible_scalar (registered.isName hscalar)

theorem legible_supportDefinitions (registered : scalars.Named)
    (h : definition ∈ document.supportDefinitions scalars) : definition.Legible := by
  rcases mem_supportDefinitions.mp h with hanswer | ⟨rfl, -⟩
  · obtain ⟨name, -, -, -, hsupport⟩ := mem_answers.mp hanswer
    exact legible_supportFor? registered hsupport
  · exact legible_scalar (by decide)

/-! ## Completion -/

/-- What a definition keeps when it is promoted holds of a completed document if it holds of the document
and of what supports it. -/
theorem forall_mem_complete {P : Definition → Prop}
    (promoted : ∀ definition, P definition → P { definition with extending := false })
    (h : ∀ definition ∈ document, P definition)
    (support : ∀ definition ∈ document.supportDefinitions scalars, P definition) :
    ∀ definition ∈ complete document scalars, P definition := by
  have hfirst : ∀ (root : String) (document : TypeDocument),
      (∀ definition ∈ document, P definition) →
        ∀ definition ∈ promoteFirst root document, P definition := by
    intro root document hdocument
    induction document with
    | nil => exact hdocument
    | cons first rest ih =>
      obtain ⟨hhead, hrest⟩ := List.forall_mem_cons.mp hdocument
      unfold promoteFirst
      split
      · exact List.forall_mem_cons.mpr ⟨promoted first hhead, hrest⟩
      · exact List.forall_mem_cons.mpr ⟨hhead, ih hrest⟩
  have hroot : ∀ (kind : OperationKind) (document : TypeDocument),
      (∀ definition ∈ document, P definition) →
        ∀ definition ∈ document.promoteRoot kind, P definition := by
    intro kind document hdocument
    unfold promoteRoot
    split
    · exact hdocument
    · exact hfirst _ document hdocument
  unfold complete
  rw [promoteRootExtensions_eq]
  exact hroot _ _ (hroot _ _ (List.forall_mem_append.mpr ⟨h, support⟩))

theorem legible_complete (registered : scalars.Named) (h : ∀ definition ∈ document, definition.Legible) :
    ∀ definition ∈ complete document scalars, definition.Legible :=
  forall_mem_complete (fun _ legible ↦ legible.promote) h fun _ ↦ legible_supportDefinitions registered

end TypeDocument
end ResourceApi

import Mathlib.Data.List.Nodup
import Mathlib.Data.List.Perm.Basic
import ResourceApi.Proofs.Document.Closed
import ResourceApi.Proofs.Document.Fields

/-!
# Completed documents

Completion adds definitions of names that have none, each name once, and promotes an extension only if
its name has no definition.  So it keeps the definitions that are there, and their names distinct.  It
gives no fields to a type, the two shared types apart.
-/

namespace ResourceApi.TypeDocument

variable {document : TypeDocument} {scalars : ScalarRegistry} {name root : String}
  {definition : Definition}

/-! ## Names of definitions -/

theorem definedTypes_append (document more : TypeDocument) :
    definedTypes (document ++ more) = document.definedTypes ++ definedTypes more := by
  unfold definedTypes
  rw [List.filter_append, List.map_append]

theorem definedTypes_flatMap {α : Type} (f : α → TypeDocument) (parts : List α) :
    definedTypes (parts.flatMap f) = parts.flatMap fun part ↦ (f part).definedTypes := by
  unfold definedTypes
  rw [List.filter_flatMap, List.map_flatMap]

theorem definedTypes_cons_of_extending (h : definition.extending = true) :
    definedTypes (definition :: document) = document.definedTypes := by
  simp [definedTypes, h]

theorem definedTypes_cons_of_defined (h : definition.extending = false) :
    definedTypes (definition :: document) = definition.name :: document.definedTypes := by
  simp [definedTypes, h]

theorem mem_definedTypes_promoteFirst (h : name ∈ definedTypes (promoteFirst root document)) :
    name = root ∨ name ∈ document.definedTypes := by
  induction document with
  | nil => exact .inr h
  | cons first rest ih =>
    unfold promoteFirst at h
    split at h
    · rename_i hfirst
      rw [definedTypes_cons_of_defined rfl, List.mem_cons, beq_iff_eq.mp hfirst] at h
      refine h.imp_right fun hrest ↦ ?_
      obtain ⟨held, hheld, hdefines⟩ := mem_definedTypes.mp hrest
      exact mem_definedTypes.mpr ⟨held, List.mem_cons_of_mem _ hheld, hdefines⟩
    · cases hextending : first.extending with
      | true =>
        rw [definedTypes_cons_of_extending hextending] at h ⊢
        exact ih h
      | false =>
        rw [definedTypes_cons_of_defined hextending, List.mem_cons] at h ⊢
        rcases h with hname | hrest
        · exact .inr (.inl hname)
        · exact (ih hrest).imp_right .inr

theorem nodup_definedTypes_promoteFirst (h : document.definedTypes.Nodup)
    (undefined : root ∉ document.definedTypes) : (definedTypes (promoteFirst root document)).Nodup := by
  induction document with
  | nil => exact h
  | cons first rest ih =>
    unfold promoteFirst
    cases hextending : first.extending with
    | true =>
      rw [definedTypes_cons_of_extending hextending] at h undefined
      split
      · rename_i hfirst
        rw [definedTypes_cons_of_defined rfl]
        exact List.nodup_cons.mpr ⟨beq_iff_eq.mp hfirst ▸ undefined, h⟩
      · rw [definedTypes_cons_of_extending hextending]
        exact ih h undefined
    | false =>
      rw [definedTypes_cons_of_defined hextending] at h undefined
      obtain ⟨hne, hrest⟩ := not_or.mp (mt List.mem_cons.mpr undefined)
      obtain ⟨hnew, hdistinct⟩ := List.nodup_cons.mp h
      rw [if_neg (by simpa using Ne.symm hne), definedTypes_cons_of_defined hextending]
      refine List.nodup_cons.mpr ⟨fun hmem ↦ ?_, ih hdistinct hrest⟩
      rcases mem_definedTypes_promoteFirst hmem with heq | hheld
      · exact hne heq.symm
      · exact hnew hheld

theorem nodup_definedTypes_promoteRoot (h : document.definedTypes.Nodup) (kind : OperationKind) :
    (document.promoteRoot kind).definedTypes.Nodup := by
  unfold promoteRoot
  split
  · exact h
  · rename_i hundefined
    refine nodup_definedTypes_promoteFirst h fun hmem ↦ hundefined ?_
    exact get?_isSome_iff.mpr (mem_definedTypes.mp hmem)

theorem exists_of_mem_promoteFirst (h : definition ∈ promoteFirst root document) :
    ∃ before ∈ document, { before with extending := definition.extending } = definition := by
  induction document with
  | nil => cases h
  | cons first rest ih =>
    unfold promoteFirst at h
    split at h
    · rcases List.mem_cons.mp h with rfl | hrest
      · exact ⟨first, List.mem_cons_self, rfl⟩
      · exact ⟨definition, List.mem_cons_of_mem _ hrest, rfl⟩
    · rcases List.mem_cons.mp h with rfl | hrest
      · exact ⟨definition, List.mem_cons_self, rfl⟩
      · obtain ⟨before, hbefore, heq⟩ := ih hrest
        exact ⟨before, List.mem_cons_of_mem _ hbefore, heq⟩

theorem exists_of_mem_promoteRoot {kind : OperationKind} (h : definition ∈ document.promoteRoot kind) :
    ∃ before ∈ document, { before with extending := definition.extending } = definition := by
  unfold promoteRoot at h
  split at h
  · exact ⟨definition, h, rfl⟩
  · exact exists_of_mem_promoteFirst h

/-- What stands in a completed document stood in the document or supports it, possibly as an
extension. -/
theorem exists_of_mem_complete (h : definition ∈ complete document scalars) :
    ∃ before, (before ∈ document ∨ before ∈ document.supportDefinitions scalars) ∧
      { before with extending := definition.extending } = definition := by
  unfold complete at h
  rw [promoteRootExtensions_eq] at h
  obtain ⟨promoted, hpromoted, heq⟩ := exists_of_mem_promoteRoot h
  obtain ⟨before, hbefore, heq'⟩ := exists_of_mem_promoteRoot hpromoted
  refine ⟨before, List.mem_append.mp hbefore, ?_⟩
  rw [← heq, ← heq']

theorem exists_mem_promoteFirst (mem : definition ∈ document) (root : String) :
    ∃ extending, { definition with extending := extending } ∈ promoteFirst root document := by
  induction document with
  | nil => cases mem
  | cons first rest ih =>
    unfold promoteFirst
    split
    · rcases List.mem_cons.mp mem with rfl | hrest
      · exact ⟨false, List.mem_cons_self⟩
      · exact ⟨definition.extending, List.mem_cons_of_mem _ hrest⟩
    · rcases List.mem_cons.mp mem with rfl | hrest
      · exact ⟨definition.extending, List.mem_cons_self⟩
      · obtain ⟨extending, hmem⟩ := ih hrest
        exact ⟨extending, List.mem_cons_of_mem _ hmem⟩

theorem exists_mem_promoteRoot (mem : definition ∈ document) (kind : OperationKind) :
    ∃ extending, { definition with extending := extending } ∈ document.promoteRoot kind := by
  unfold promoteRoot
  split
  · exact ⟨definition.extending, mem⟩
  · exact exists_mem_promoteFirst mem _

/-- What stands in a document stands in it after completion, possibly as a definition. -/
theorem exists_mem_complete (mem : definition ∈ document) (scalars : ScalarRegistry) :
    ∃ extending, { definition with extending := extending } ∈ complete document scalars := by
  unfold complete
  rw [promoteRootExtensions_eq]
  obtain ⟨_, hquery⟩ := exists_mem_promoteRoot
    (List.mem_append_left (document.supportDefinitions scalars) mem) .query
  obtain ⟨extending, hmutation⟩ := exists_mem_promoteRoot hquery .mutation
  exact ⟨extending, hmutation⟩

/-! ## Support definitions -/

/-- The answers are in the order of the names that ask for them. -/
theorem names_answers (document : TypeDocument) (scalars : ScalarRegistry) :
    (document.answers scalars).map (·.name) = (document.referencedTypes.filter fun name ↦
      !document.definedTypes.contains name && !Scalar.isStandard name).filter
        fun name ↦ (supportFor? scalars name).isSome := by
  unfold answers
  generalize document.referencedTypes.filter _ = missing
  rw [List.map_filterMap, ← List.filterMap_eq_filter]
  refine List.filterMap_congr fun name _ ↦ ?_
  cases hsupport : supportFor? scalars name with
  | none => simp [Option.guard, hsupport]
  | some definition => simp [Option.guard, hsupport, (name_supportFor? hsupport).1]

theorem nodup_names_answers (document : TypeDocument) (scalars : ScalarRegistry) :
    ((document.answers scalars).map (·.name)).Nodup := by
  rw [names_answers]
  exact ((nodup_addMissing List.nodup_nil).filter _).filter _

/-- No name is supported twice. -/
theorem nodup_supportDefinitions (document : TypeDocument) (scalars : ScalarRegistry) :
    ((document.supportDefinitions scalars).map (·.name)).Nodup := by
  have hsplit : ∀ support : List Definition, (support.map (·.name)).Nodup →
      ((support.filter (·.kind == .scalar) ++ support.filter (·.kind != .scalar)).map
        (·.name)).Nodup := by
    intro support hsupport
    exact ((List.filter_append_perm (·.kind == .scalar) support).map _).nodup_iff.mpr hsupport
  unfold supportDefinitions
  refine hsplit _ ?_
  change (List.map _ (ite _ (document.answers scalars ++ _) (document.answers scalars))).Nodup
  split
  · rename_i hadded
    rw [List.map_append]
    refine List.Nodup.append (nodup_names_answers document scalars) (List.nodup_singleton _) ?_
    rw [List.map_singleton, List.disjoint_singleton]
    intro hjson
    obtain ⟨answer, hanswer, hname⟩ := List.mem_map.mp hjson
    have hnone := (Bool.and_eq_true_iff.mp hadded).2
    have hsome : (document.answers scalars).any (·.name == Scalar.json) = true :=
      List.any_eq_true.mpr ⟨answer, hanswer, beq_iff_eq.mpr hname⟩
    change (!((document.answers scalars).any _ || _)) = true at hnone
    rw [hsome] at hnone
    cases hnone
  · exact nodup_names_answers document scalars

/-- A support definition is a definition, of a name that has none. -/
theorem defined_supportDefinitions (h : definition ∈ document.supportDefinitions scalars) :
    definition.extending = false ∧ definition.name ∉ document.definedTypes := by
  rcases mem_supportDefinitions.mp h with hanswer | ⟨rfl, -, -, hundefined⟩
  · obtain ⟨name, -, hundefined, -, hsupport⟩ := mem_answers.mp hanswer
    obtain ⟨rfl, hextending⟩ := name_supportFor? hsupport
    exact ⟨hextending, mt mem_definedTypes.mp hundefined⟩
  · exact ⟨rfl, mt mem_definedTypes.mp hundefined⟩

theorem resource_supportDefinitions (h : definition ∈ document.supportDefinitions scalars) :
    definition.resource = none := by
  rcases mem_supportDefinitions.mp h with hanswer | ⟨rfl, -⟩
  · obtain ⟨name, -, -, -, hsupport⟩ := mem_answers.mp hanswer
    unfold supportFor? at hsupport
    split at hsupport
    · cases hsupport
      rfl
    · split at hsupport
      · cases hsupport
        rfl
      · split at hsupport <;> cases hsupport
        rfl
  · rfl

/-- Completion keeps the names of the definitions distinct. -/
theorem nodup_definedTypes_complete (h : document.definedTypes.Nodup) :
    (complete document scalars).definedTypes.Nodup := by
  have hsupport : definedTypes (document.supportDefinitions scalars) =
      (document.supportDefinitions scalars).map (·.name) := by
    unfold definedTypes
    rw [List.filter_eq_self.mpr fun definition hmem ↦ by
      rw [(defined_supportDefinitions hmem).1, Bool.not_false]]
  unfold complete
  rw [promoteRootExtensions_eq]
  refine nodup_definedTypes_promoteRoot (nodup_definedTypes_promoteRoot ?_ _) _
  rw [definedTypes_append, hsupport]
  refine List.Nodup.append h (nodup_supportDefinitions document scalars) fun name hname hmem ↦ ?_
  obtain ⟨definition, hdefinition, rfl⟩ := List.mem_map.mp hmem
  exact (defined_supportDefinitions hdefinition).2 hname

/-! ## Looking up -/

theorem exists_of_get? (h : get? document name = some definition) :
    definition ∈ document ∧ definition.name = name ∧ definition.extending = false := by
  unfold get? at h
  have hname := List.find?_some h
  rw [Bool.and_eq_true, beq_iff_eq, Bool.not_eq_true'] at hname
  exact ⟨List.mem_of_find?_eq_some h, hname⟩

/-- The only definition of a name is the one that is found. -/
theorem get?_eq_of_unique (mem : definition ∈ document) (defined : definition.extending = false)
    (unique : ∀ other ∈ document, other.name = definition.name → other.extending = false →
      other = definition) : get? document definition.name = some definition := by
  obtain ⟨found, hfound⟩ := Option.isSome_iff_exists.mp
    (get?_isSome_iff.mpr ⟨definition, mem, rfl, defined⟩)
  obtain ⟨hmem, hname, hdefined⟩ := exists_of_get? hfound
  rw [hfound, unique found hmem hname hdefined]

theorem mem_promoteFirst (mem : definition ∈ document) (defined : definition.extending = false) :
    definition ∈ promoteFirst root document := by
  induction document with
  | nil => cases mem
  | cons first rest ih =>
    unfold promoteFirst
    split
    · rcases List.mem_cons.mp mem with rfl | hrest
      · rw [← defined]
        exact List.mem_cons_self
      · exact List.mem_cons_of_mem _ hrest
    · rcases List.mem_cons.mp mem with rfl | hrest
      · exact List.mem_cons_self
      · exact List.mem_cons_of_mem _ (ih hrest)

theorem mem_promoteRoot (mem : definition ∈ document) (defined : definition.extending = false)
    (kind : OperationKind) : definition ∈ document.promoteRoot kind := by
  unfold promoteRoot
  split
  · exact mem
  · exact mem_promoteFirst mem defined

/-- Completion keeps the definitions that are there. -/
theorem mem_complete (mem : definition ∈ document) (defined : definition.extending = false)
    (scalars : ScalarRegistry) : definition ∈ complete document scalars := by
  unfold complete
  rw [promoteRootExtensions_eq]
  exact mem_promoteRoot (mem_promoteRoot (List.mem_append_left _ mem) defined _) defined _

theorem Defines.complete (h : document.Defines name) (scalars : ScalarRegistry) :
    (complete document scalars).Defines name := by
  obtain ⟨definition, hmem, hname, hdefined⟩ := h
  exact ⟨definition, mem_complete hmem hdefined scalars, hname, hdefined⟩

theorem Refers.defines_complete (h : document.Refers name)
    (support : (supportFor? scalars name).isSome = true) :
    Scalar.isStandard name = true ∨ (complete document scalars).Defines name := by
  unfold TypeDocument.complete
  rw [promoteRootExtensions_eq]
  exact (h.defines support).imp_right fun hdefines ↦ (hdefines.promoteRoot _).promoteRoot _

/-! ## Fields -/

theorem fieldsOf_promoteRoot (name : String) (promoted : OperationKind) :
    (document.promoteRoot promoted).fieldsOf name = document.fieldsOf name := by
  unfold promoteRoot
  split
  · rfl
  · exact fieldsOf_promoteFirst _ _ _

theorem name_of_mem_rootExtension {resource : String} {kind : OperationKind}
    {signatures : List Signature} (h : definition ∈ rootExtension resource kind signatures) :
    definition.name = kind.rootType := by
  unfold rootExtension at h
  split at h
  · cases h
  · rw [List.mem_singleton.mp h]
    rfl

/-- The names of the types with fields that completion may add. -/
def IsShared (name : String) : Prop := name = paginationInputType ∨ name = nameAndIdType

theorem fields_supportDefinitions (h : definition ∈ document.supportDefinitions scalars)
    (apart : ¬IsShared definition.name) : definition.fields = [] := by
  obtain ⟨hpagination, hnameAndId⟩ := not_or.mp apart
  rcases mem_supportDefinitions.mp h with hanswer | ⟨rfl, -⟩
  · obtain ⟨asked, -, -, -, hsupport⟩ := mem_answers.mp hanswer
    obtain ⟨rfl, -⟩ := name_supportFor? hsupport
    unfold supportFor? at hsupport
    rw [if_neg (by simpa using hpagination), if_neg (by simpa using hnameAndId)] at hsupport
    split at hsupport
    · rw [← Option.some.inj hsupport]
      rfl
    · cases hsupport
  · rfl

/-- Completion adds no fields to any other type. -/
theorem fieldsOf_complete (document : TypeDocument) (scalars : ScalarRegistry)
    (apart : ¬IsShared name) : (complete document scalars).fieldsOf name = document.fieldsOf name := by
  unfold complete
  rw [promoteRootExtensions_eq, fieldsOf_promoteRoot, fieldsOf_promoteRoot, fieldsOf_append,
    fieldsOf_eq_nil fun definition hmem hname ↦ fields_supportDefinitions hmem (hname ▸ apart),
    List.append_nil]

/-! ## Root fields -/

/-- The names of the fields of a root type, over its definition and all its extensions. -/
def rootFields (document : TypeDocument) (kind : OperationKind) : List String :=
  (document.allNamed kind.rootType).flatMap fun definition ↦ definition.fields.map (·.name)

theorem rootFields_eq (document : TypeDocument) (kind : OperationKind) :
    document.rootFields kind = document.typeFields kind.rootType := by
  unfold rootFields typeFields fieldsOf
  rw [List.map_flatMap]

theorem not_isShared_rootType (kind : OperationKind) : ¬IsShared kind.rootType := by
  unfold IsShared
  cases kind <;> decide

end ResourceApi.TypeDocument

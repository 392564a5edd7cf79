import Mathlib.Data.List.Perm.Subperm
import ResourceApi.Proofs.Compilation.Operations
import ResourceApi.Proofs.Compilation.RootFields
import ResourceApi.Proofs.Document.WellFormed

/-!
# Well-formed runs beside an initial document

Generation leaves out the fields that an initial document gives to a type, and extends the types that it
defines.  The other parts of a run do not look at the initial document: the members of unions, the values
of enums, the pages, the root fields and the fields of shared types are written in any case.  If none of
these is in the initial document already, and no type is there only because of it, then a run beside a
well-formed document is well formed as soon as the run without it is.
-/

namespace ResourceApi

open TypeDocument (fieldNames)

theorem subperm_map {α β : Type} {xs ys : List α} (f : α → β) (h : xs.Subperm ys) :
    (xs.map f).Subperm (ys.map f) := by
  obtain ⟨zs, hperm, hsublist⟩ := h
  exact ⟨zs.map f, hperm.map f, hsublist.map f⟩

/-- If no element occurs twice in a list of lists, then none does in smaller lists. -/
theorem nodup_flatMap_of_subperm {α β γ : Type} {f : α → List γ} {g : β → List γ} {xs : List α}
    {ys : List β} (h : List.Forall₂ (fun x y ↦ (f x).Subperm (g y)) xs ys)
    (distinct : (ys.flatMap g).Nodup) : (xs.flatMap f).Nodup := by
  have hall : (xs.flatMap f).Subperm (ys.flatMap g) := by
    clear distinct
    induction h with
    | nil => exact List.Subperm.refl _
    | cons hfirst _ ih =>
      rw [List.flatMap_cons, List.flatMap_cons]
      exact hfirst.append ih
  obtain ⟨zs, hperm, hsublist⟩ := hall
  exact hperm.nodup (hsublist.nodup distinct)

/-! ## Places of types -/

namespace TypeGraph

variable {graph : TypeGraph} {level : Nat} {name : String}

/-- The levels and the names of the types of a graph. -/
def places (graph : TypeGraph) : List (Nat × String) :=
  graph.levels.zipIdx.flatMap fun (types, level) ↦ types.keys.map (level, ·)

theorem mem_places : (level, name) ∈ graph.places ↔
    name ∈ Entries.keys (graph.levels[level]?.getD []) := by
  unfold places
  simp only [List.mem_flatMap, List.mem_map, Prod.exists, List.mem_zipIdx_iff_getElem?]
  constructor
  · rintro ⟨types, place, hlevel, held, hname, heq⟩
    obtain ⟨rfl, rfl⟩ := Prod.mk.inj heq
    rwa [hlevel]
  · intro hname
    cases hlevel : graph.levels[level]? with
    | none =>
      rw [hlevel] at hname
      cases hname
    | some types =>
      rw [hlevel] at hname
      exact ⟨types, level, hlevel, name, hname, rfl⟩

theorem nodup_places (distinct : ∀ level : Nat, (Entries.keys (graph.levels[level]?.getD [])).Nodup) :
    graph.places.Nodup := by
  refine List.nodup_flatMap.mpr ⟨fun (types, level) hlevel ↦ ?_, ?_⟩
  · have hdistinct := distinct level
    rw [List.mem_zipIdx_iff_getElem?.mp hlevel] at hdistinct
    exact hdistinct.map (fun _ _ heq ↦ (Prod.mk.inj heq).2)
  · have hlevels : (graph.levels.zipIdx.map Prod.snd).Nodup := by
      rw [List.zipIdx_map_snd]
      exact List.nodup_range'
    refine (List.pairwise_map.mp hlevels).imp fun hne place hplace hplace' ↦ ?_
    obtain ⟨_, -, rfl⟩ := List.mem_map.mp hplace
    obtain ⟨_, -, heq⟩ := List.mem_map.mp hplace'
    exact hne (Prod.mk.inj heq).1.symm

theorem names_definitions (named : ∀ (level : Nat) (name : String) (node : TypeNode),
      (name, node) ∈ graph.levels[level]?.getD [] → node.name = name) :
    graph.definitions.map (·.name) = graph.places.map Prod.snd := by
  unfold definitions places
  conv_lhs => rw [← List.zipIdx_map_fst 0 graph.levels]
  rw [List.flatMap_map, List.map_flatMap, List.map_flatMap]
  refine List.flatMap_congr fun (types, level) hlevel ↦ ?_
  unfold Entries.values Entries.keys
  rw [List.map_map, List.map_map, List.map_map]
  refine List.map_congr_left fun (name, node) hentry ↦ named level name node ?_
  rwa [List.mem_zipIdx_iff_getElem?.mp hlevel]

theorem has_iff_places : graph.has name = true ↔ ∃ level, (level, name) ∈ graph.places := by
  rw [has_iff_typeAt?]
  refine exists_congr fun level ↦ ?_
  rw [mem_places, ← Entries.has_iff, Entries.has, Option.isSome_iff_exists]
  rfl

end TypeGraph

/-! ## What a stage brings -/

/-- The name of a generated type is not that of a type that all resources share. -/
theorem TypeKind.Names.not_isShared {kind : TypeKind} {name : String} (h : kind.Names name) :
    ¬TypeDocument.IsShared name := by
  rintro (rfl | rfl)
  · by_cases hinput : ∃ action, kind = .input action
    · obtain ⟨action, rfl⟩ := hinput
      obtain ⟨base, hbase⟩ := h
      have hfirst := congrArg (fun name : String ↦ name.toList.head?) hbase
      cases action <;> simp [inputTypeName, InputAction.label, paginationInputType] at hfirst
    · refine TypeKind.not_names (fun ending hending heq ↦ ?_) ⟨'a', by decide, by decide⟩ h
      rw [← heq] at hending
      revert hinput hending
      rcases kind with _ | (_ | _) | _ | _ | _ <;> simp [TypeKind.ending?] <;> decide
  · refine TypeKind.not_names (fun ending hending heq ↦ ?_) ⟨'a', by decide, by decide⟩ h
    rw [← heq] at hending
    revert hending
    rcases kind with _ | (_ | _) | _ | _ | _ <;> decide

theorem not_isShared_pageTypeName (segment : Segment) (plural : String) :
    ¬TypeDocument.IsShared (pageTypeName segment plural) := by
  rintro (h | h) <;>
  · have hlist := congrArg (List.reverse ∘ String.toList) h
    simp [pageTypeName, paginationInputType, nameAndIdType] at hlist

namespace Stage

variable {stage stage' : Stage} {definition : Definition} {kind : OperationKind} {name : String}

/-- The types and the pages of a stage. -/
def types (stage : Stage) : TypeDocument :=
  stage.graph.definitions.map (TypeDocument.ofNode stage.graph.resource) ++
    stage.operations.pages.map (TypeDocument.ofPage stage.graph.resource)

/-- The extensions of the root types by a stage. -/
def roots (stage : Stage) : TypeDocument :=
  [OperationKind.query, .mutation].flatMap fun kind ↦
    TypeDocument.rootExtension stage.graph.resource kind (stage.operations.ofKind kind)

theorem document_eq (stage : Stage) : stage.document = stage.types ++ stage.roots := by
  unfold document TypeDocument.ofResource types roots
  simp [OperationSchema.ofKind]

theorem mem_roots (h : definition ∈ stage.roots) :
    ∃ kind : OperationKind, definition.name = kind.rootType ∧ definition.extending = true ∧
      fieldNames definition = (stage.served kind).map stage.fieldName ∧ definition.members = [] ∧
        definition.values = [] := by
  obtain ⟨kind, -, hmem⟩ := List.mem_flatMap.mp h
  unfold TypeDocument.rootExtension at hmem
  split at hmem
  · cases hmem
  · obtain rfl := List.mem_singleton.mp hmem
    refine ⟨kind, rfl, rfl, ?_, rfl, rfl⟩
    unfold fieldNames
    rw [ofKind_operations, List.map_map, List.map_map]
    rfl

theorem typeFields_roots (stage : Stage) (kind : OperationKind) :
    stage.roots.typeFields kind.rootType = (stage.served kind).map stage.fieldName := by
  have hfields : stage.roots.fieldsOf kind.rootType =
      (stage.operations.ofKind kind).map TypeDocument.ofSignature := by
    unfold roots
    rw [TypeDocument.fieldsOf_flatMap]
    simp only [fieldsOf_rootExtension]
    cases kind <;> simp
  unfold TypeDocument.typeFields
  rw [hfields, ofKind_operations, List.map_map, List.map_map]
  rfl

/-- The segments whose pages a stage serves. -/
def pageSegments (stage : Stage) : List Segment :=
  Segment.all.filter fun segment ↦
    decide (Operation.query .paginated segment .whole ∈ stage.served .query)

theorem names_pages (stage : Stage) : stage.operations.pages.map (·.name) =
    stage.pageSegments.map fun segment ↦ pageTypeName segment stage.schema.pluralName := by
  have hserved : ∀ segment, (stage.operations.queries.any
      (·.operation == .query .paginated segment .whole)) =
        decide (Operation.query .paginated segment .whole ∈ stage.served .query) := by
    intro segment
    rw [show stage.operations.queries = stage.operations.ofKind .query from rfl, ofKind_operations,
      List.any_map, Bool.eq_iff_iff, List.any_eq_true, decide_eq_true_iff]
    constructor
    · rintro ⟨operation, hmem, hsame⟩
      rwa [← show operation = _ from beq_iff_eq.mp hsame]
    · exact fun hmem ↦ ⟨_, hmem, beq_iff_eq.mpr rfl⟩
  have hpages : stage.operations.pages =
      OperationSchema.pagesOf stage.names stage.operations.queries := rfl
  rw [hpages]
  unfold OperationSchema.pagesOf pageSegments
  simp only [hserved, List.map_map]
  rfl

theorem nodup_served (stage : Stage) (kind : OperationKind) : (stage.served kind).Nodup := by
  have hdistinct : (Operation.ofKind kind).Nodup := by cases kind <;> decide
  exact hdistinct.filter _

/-- A stage with more types serves more operations. -/
theorem served_subset (schema : stage'.schema = stage.schema) (config : stage'.config = stage.config)
    (places : stage'.graph.places ⊆ stage.graph.places) (kind : OperationKind) :
    stage'.served kind ⊆ stage.served kind := by
  intro operation hserved
  obtain ⟨hkind, henabled, hneeds⟩ := mem_served.mp hserved
  refine mem_served.mpr ⟨hkind, config ▸ henabled, fun typeName hneed ↦ ?_⟩
  obtain ⟨level, hplace⟩ := TypeGraph.has_iff_places.mp (hneeds typeName (schema ▸ hneed))
  exact TypeGraph.has_iff_places.mpr ⟨level, places hplace⟩

/-- The names of the types and the pages of a stage. -/
def typeNames (stage : Stage) : List String :=
  stage.graph.places.map Prod.snd ++
    stage.pageSegments.map fun segment ↦ pageTypeName segment stage.schema.pluralName

/-- A stage with more types has more names. -/
theorem subperm_typeNames (schema : stage'.schema = stage.schema)
    (config : stage'.config = stage.config) (distinct : stage'.graph.places.Nodup)
    (places : stage'.graph.places ⊆ stage.graph.places) :
    stage'.typeNames.Subperm stage.typeNames := by
  have hsegments : stage'.pageSegments ⊆ stage.pageSegments := by
    intro segment hsegment
    obtain ⟨hmem, hserved⟩ := List.mem_filter.mp hsegment
    have hserved' := served_subset schema config places .query (of_decide_eq_true hserved)
    exact List.mem_filter.mpr ⟨hmem, decide_eq_true hserved'⟩
  have hdistinct : stage'.pageSegments.Nodup := by
    have hall : Segment.all.Nodup := by decide
    exact hall.filter _
  unfold typeNames
  rw [schema]
  exact (subperm_map _ (List.subperm_of_subset distinct places)).append
    (subperm_map _ (List.subperm_of_subset hdistinct hsegments))

/-- The types and the pages of a stage stand under their names. -/
theorem names_types (named : ∀ (level : Nat) (name : String) (node : TypeNode),
      (name, node) ∈ stage.graph.levels[level]?.getD [] → node.name = name) :
    stage.types.map (·.name) = stage.typeNames := by
  unfold types typeNames
  rw [List.map_append, List.map_map, List.map_map, ← names_pages,
    ← TypeGraph.names_definitions named]
  rfl

/-- Nothing that a stage defines has the name of a type that all resources share. -/
theorem not_isShared_of_mem (named : ∀ node ∈ stage.graph.definitions, node.kind.Names node.name)
    (h : definition ∈ stage.document) : ¬TypeDocument.IsShared definition.name := by
  rcases cases_of_mem_document h with ⟨node, hnode, rfl⟩ | ⟨segment, hpage⟩ | ⟨kind, hroot⟩
  · exact (named node hnode).not_isShared
  · rw [hpage]
    exact not_isShared_pageTypeName _ _
  · rw [hroot]
    exact TypeDocument.not_isShared_rootType kind

/-- The types and the pages of a stage have other names than the root types. -/
theorem ne_rootType_of_mem (named : ∀ node ∈ stage.graph.definitions, node.kind.Names node.name)
    (h : definition ∈ stage.types) (kind : OperationKind) : definition.name ≠ kind.rootType := by
  rcases List.mem_append.mp h with htype | hpage
  · obtain ⟨node, hnode, rfl⟩ := List.mem_map.mp htype
    intro hname
    have hnames := named node hnode
    rw [show node.name = kind.rootType from hname] at hnames
    exact not_names_rootType _ kind hnames
  · obtain ⟨page, hmem, rfl⟩ := List.mem_map.mp hpage
    obtain ⟨segment, hname, -⟩ := OperationSchema.page_of_mem_pages hmem
    exact fun hroot ↦ pageTypeName_ne_rootType _ _ kind (hname.symm.trans hroot)

end Stage

namespace Compiler

variable {compiler : Compiler} {schemas : List ResourceSchema} {initial : TypeDocument}
  {stages stages' : List Stage} {stage : Stage} {compiled plain : CompiledSchema}

/-- What generation beside an initial document has to spare for the result to be well formed: the types
are those of the run without it, and what is written without a look at the initial document is not in
it. -/
structure Spares (scalars : ScalarRegistry) (initial : TypeDocument) (plain stages : List Stage) :
    Prop where
  types : ∀ stage ∈ plain, ∀ stage' ∈ stages, stage'.schema.resource = stage.schema.resource →
    stage'.graph.places ⊆ stage.graph.places
  members : ∀ stage ∈ stages, ∀ node ∈ stage.graph.definitions, ∀ member ∈ node.members,
    member ∉ initial.parts (·.members) node.name
  values : ∀ stage ∈ stages, ∀ node ∈ stage.graph.definitions, ∀ value ∈ node.values,
    value ∉ initial.parts (·.values) node.name
  pages : ∀ stage ∈ stages, ∀ page ∈ stage.operations.pages, page.name ∉ initial.definedTypes ∧
    ∀ field ∈ fieldNames (TypeDocument.ofPage stage.schema.resource page),
      field ∉ initial.typeFields page.name
  roots : ∀ stage ∈ stages, ∀ kind, ∀ operation ∈ stage.served kind,
    stage.fieldName operation ∉ initial.typeFields kind.rootType
  shared : ∀ definition ∈ (initial ++ stages.flatMap Stage.document).supportDefinitions scalars,
    ∀ field ∈ fieldNames definition, field ∉ initial.typeFields definition.name

instance (scalars : ScalarRegistry) (initial : TypeDocument) (plain stages : List Stage) :
    Decidable (Spares scalars initial plain stages) :=
  decidable_of_iff
    ((∀ stage ∈ plain, ∀ stage' ∈ stages, stage'.schema.resource = stage.schema.resource →
        stage'.graph.places ⊆ stage.graph.places) ∧
      (∀ stage ∈ stages, ∀ node ∈ stage.graph.definitions,
        (∀ member ∈ node.members, member ∉ initial.parts (·.members) node.name) ∧
          ∀ value ∈ node.values, value ∉ initial.parts (·.values) node.name) ∧
      (∀ stage ∈ stages, ∀ page ∈ stage.operations.pages, page.name ∉ initial.definedTypes ∧
        ∀ field ∈ fieldNames (TypeDocument.ofPage stage.schema.resource page),
          field ∉ initial.typeFields page.name) ∧
      (∀ stage ∈ stages, ∀ kind ∈ [OperationKind.query, .mutation], ∀ operation ∈ stage.served kind,
        stage.fieldName operation ∉ initial.typeFields kind.rootType) ∧
      ∀ definition ∈ (initial ++ stages.flatMap Stage.document).supportDefinitions scalars,
        ∀ field ∈ fieldNames definition, field ∉ initial.typeFields definition.name)
    ⟨fun ⟨types, parts, pages, roots, shared⟩ ↦
      ⟨types, fun stage hstage node hnode ↦ (parts stage hstage node hnode).1,
        fun stage hstage node hnode ↦ (parts stage hstage node hnode).2, pages,
        fun stage hstage kind ↦ roots stage hstage kind (by cases kind <;> decide), shared⟩,
      fun spares ↦ ⟨spares.types, fun stage hstage node hnode ↦
        ⟨spares.members stage hstage node hnode, spares.values stage hstage node hnode⟩,
        spares.pages, fun stage hstage kind _ ↦ spares.roots stage hstage kind, spares.shared⟩⟩

/-! ## The types of a run -/

section Run

variable (h : compiler.stages initial schemas = .ok stages)
include h

theorem names_of_mem (hstage : stage ∈ stages) {node : TypeNode}
    (hnode : node ∈ stage.graph.definitions) : node.kind.Names node.name := by
  obtain ⟨level, name, hfound⟩ := TypeGraph.mem_definitions.mp hnode
  have htraced := traced_of_mem h hstage hfound
  rw [htraced.named]
  exact htraced.opened.names

theorem names_flatMap_types : (stages.flatMap Stage.types).map (·.name) =
    stages.flatMap Stage.typeNames := by
  rw [List.map_flatMap]
  exact List.flatMap_congr fun stage hstage ↦ Stage.names_types fun level name node hfound ↦
    (traced_of_mem h hstage hfound).named

/-- The types of a run are well formed if their names are distinct. -/
theorem wellFormed_types (distinct : (stages.flatMap Stage.typeNames).Nodup) :
    TypeDocument.WellFormed (stages.flatMap Stage.types) := by
  rw [← names_flatMap_types h] at distinct
  refine TypeDocument.wellFormed_of_nodup distinct fun definition hmem ↦ ?_
  obtain ⟨stage, hstage, hdefinition⟩ := List.mem_flatMap.mp hmem
  rcases List.mem_append.mp hdefinition with htype | hpage
  · obtain ⟨node, hnode, rfl⟩ := List.mem_map.mp htype
    obtain ⟨level, name, hfound⟩ := TypeGraph.mem_definitions.mp hnode
    have hparts := nodup_of_mem h hstage hfound
    rwa [← (traced_of_mem h hstage hfound).names_ofNode stage.graph.resource] at hparts
  · obtain ⟨page, -, rfl⟩ := List.mem_map.mp hpage
    have hfields : ["docs", "total", "page", "limit"].Nodup := by decide
    exact ⟨hfields, List.nodup_nil, List.nodup_nil⟩

omit h in
/-- The extensions of the root types are well formed if no two stages give a root field the same name. -/
theorem wellFormed_roots (distinct : ∀ kind, (stages.flatMap fun stage ↦
      (stage.served kind).map stage.fieldName).Nodup) :
    TypeDocument.WellFormed (stages.flatMap Stage.roots) where
  definitions := by
    have hnone : TypeDocument.definedTypes (stages.flatMap Stage.roots) = [] := by
      refine List.eq_nil_iff_forall_not_mem.mpr fun name hname ↦ ?_
      obtain ⟨definition, hmem, -, hdefined⟩ := TypeDocument.mem_definedTypes.mp hname
      obtain ⟨stage, -, hroot⟩ := List.mem_flatMap.mp hmem
      obtain ⟨kind, -, hextending, -⟩ := Stage.mem_roots hroot
      cases hextending.symm.trans hdefined
    rw [hnone]
    exact List.nodup_nil
  fields name := by
    by_cases hroot : ∃ kind : OperationKind, name = kind.rootType
    · obtain ⟨kind, rfl⟩ := hroot
      have hfields : TypeDocument.typeFields (stages.flatMap Stage.roots) kind.rootType =
          stages.flatMap fun stage ↦ (stage.served kind).map stage.fieldName := by
        unfold TypeDocument.typeFields
        rw [TypeDocument.fieldsOf_flatMap, List.map_flatMap]
        exact List.flatMap_congr fun stage _ ↦ stage.typeFields_roots kind
      rw [hfields]
      exact distinct kind
    · rw [← TypeDocument.parts_fieldNames, TypeDocument.parts_eq_nil fun definition hmem hname ↦ ?_]
      · exact List.nodup_nil
      · obtain ⟨stage, -, hdefinition⟩ := List.mem_flatMap.mp hmem
        obtain ⟨kind, hkind, -⟩ := Stage.mem_roots hdefinition
        exact absurd ⟨kind, hname.symm.trans hkind⟩ hroot
  members name := by
    rw [TypeDocument.parts_eq_nil fun definition hmem _ ↦ ?_]
    · exact List.nodup_nil
    · obtain ⟨stage, -, hdefinition⟩ := List.mem_flatMap.mp hmem
      obtain ⟨kind, -, -, -, hmembers, -⟩ := Stage.mem_roots hdefinition
      exact hmembers
  values name := by
    rw [TypeDocument.parts_eq_nil fun definition hmem _ ↦ ?_]
    · exact List.nodup_nil
    · obtain ⟨stage, -, hdefinition⟩ := List.mem_flatMap.mp hmem
      obtain ⟨kind, -, -, -, -, hvalues⟩ := Stage.mem_roots hdefinition
      exact hvalues

/-- What generation brings is well formed if the names of its types and those of its root fields are
distinct. -/
theorem wellFormed_generated (types : (stages.flatMap Stage.typeNames).Nodup)
    (roots : ∀ kind, (stages.flatMap fun stage ↦ (stage.served kind).map stage.fieldName).Nodup) :
    TypeDocument.WellFormed (stages.flatMap Stage.document) := by
  have hboth : TypeDocument.WellFormed
      (stages.flatMap Stage.types ++ stages.flatMap Stage.roots) := by
    refine (wellFormed_types h types).append (wellFormed_roots roots) fun definition hmem ↦ ?_
    obtain ⟨stage, -, hdefinition⟩ := List.mem_flatMap.mp hmem
    obtain ⟨kind, hname, hextending, -, hmembers, hvalues⟩ := Stage.mem_roots hdefinition
    refine ⟨fun hdefined ↦ ?_, fun field _ hfield ↦ ?_, ?_, ?_⟩
    · cases hextending.symm.trans hdefined
    · obtain ⟨type, htype, hsame, -⟩ := TypeDocument.mem_typeFields.mp hfield
      obtain ⟨stage', hstage', htype'⟩ := List.mem_flatMap.mp htype
      exact Stage.ne_rootType_of_mem (fun node ↦ names_of_mem h hstage') htype' kind
        (hsame.trans hname)
    · rw [hmembers]
      exact fun _ h ↦ nomatch h
    · rw [hvalues]
      exact fun _ h ↦ nomatch h
  refine hboth.of_perm ?_
  have hperm := List.flatMap_append_perm stages Stage.types Stage.roots
  rwa [← funext Stage.document_eq] at hperm

end Run

/-- The types and the root fields of a well-formed run have distinct names. -/
theorem nodup_of_wellFormed (ran : compiler.Ran schemas [] plain stages)
    (wellFormed : plain.document.WellFormed) : (stages.flatMap Stage.typeNames).Nodup ∧
      ∀ kind, (stages.flatMap fun stage ↦ (stage.served kind).map stage.fieldName).Nodup := by
  constructor
  · have hdefinitions := wellFormed.definitions
    rw [ran.document] at hdefinitions
    have hnodup := (TypeDocument.sublist_definedTypes_complete _ _).nodup hdefinitions
    rw [List.nil_append, TypeDocument.definedTypes_flatMap] at hnodup
    refine (List.flatMap_congr fun stage hstage ↦ ?_) ▸ hnodup
    have hmodeled := modeled_stages ran.staged stage hstage
    rw [hmodeled.definedTypes_document, Stage.names_pages, TypeGraph.names_definitions
      fun level name node hfound ↦ (hmodeled.types level name node hfound).1]
    rfl
  · intro kind
    have hfields := wellFormed.fields kind.rootType
    unfold TypeDocument.typeFields at hfields
    rw [ran.fieldsOf_rootType, List.map_flatMap] at hfields
    refine (List.flatMap_congr fun stage _ ↦ ?_) ▸ hfields
    rw [List.map_map]
    rfl

/-! ## Runs beside an initial document -/

section Beside

variable (h : compiler.stages [] schemas = .ok stages)
  (h' : compiler.stages initial schemas = .ok stages')
  (spares : Spares compiler.scalars initial stages stages')
include h h' spares

/-- Beside the initial document each model has some of the types that it has without it. -/
theorem forall₂_places : List.Forall₂ (fun stage' stage ↦ stage'.schema = stage.schema ∧
    stage'.config = stage.config ∧ stage'.graph.places.Nodup ∧
      stage'.graph.places ⊆ stage.graph.places) stages' stages := by
  have hschemas : List.Forall₂ (fun stage' stage : Stage ↦ stage'.schema = stage.schema)
      stages' stages := by
    have hsame := (schemas_stages h').trans (schemas_stages h).symm
    rwa [← List.forall₂_eq_eq_eq, List.forall₂_map_left_iff, List.forall₂_map_right_iff] at hsame
  obtain ⟨hlength, hpairs⟩ := List.forall₂_iff_zip.mp hschemas
  refine List.forall₂_iff_zip.mpr ⟨hlength, fun {stage' stage} hmem ↦ ?_⟩
  obtain ⟨hstage', hstage⟩ := List.of_mem_zip hmem
  have hschema := hpairs hmem
  exact ⟨hschema, config_beside h h' hstage hstage' hschema,
    TypeGraph.nodup_places (nodup_level h' hstage'),
    spares.types _ hstage _ hstage' (congrArg _ hschema)⟩

/-- The types and the root fields beside the initial document have distinct names if those of the run
without it have. -/
theorem nodup_beside (types : (stages.flatMap Stage.typeNames).Nodup)
    (roots : ∀ kind, (stages.flatMap fun stage ↦ (stage.served kind).map stage.fieldName).Nodup) :
    (stages'.flatMap Stage.typeNames).Nodup ∧
      ∀ kind, (stages'.flatMap fun stage ↦ (stage.served kind).map stage.fieldName).Nodup := by
  have hplaces := forall₂_places h h' spares
  refine ⟨nodup_flatMap_of_subperm ?_ types, fun kind ↦ nodup_flatMap_of_subperm ?_ (roots kind)⟩
  · exact hplaces.imp fun stage' stage ⟨hschema, hconfig, hdistinct, hsubset⟩ ↦
      Stage.subperm_typeNames hschema hconfig hdistinct hsubset
  · refine hplaces.imp fun stage' stage ⟨hschema, hconfig, _, hsubset⟩ ↦ ?_
    have hserved := Stage.served_subset hschema hconfig hsubset kind
    have hfieldName : stage'.fieldName = stage.fieldName := by
      funext operation
      unfold Stage.fieldName Stage.names
      rw [hschema]
    rw [hfieldName]
    exact subperm_map _ (List.subperm_of_subset (stage'.nodup_served kind) hserved)

omit h in
/-- Nothing of what a stage brings is in the initial document. -/
theorem lacks_of_mem (hstage : stage ∈ stages') {definition : Definition}
    (hdefinition : definition ∈ stage.document) : initial.Lacks definition := by
  rw [Stage.document_eq, List.mem_append] at hdefinition
  rcases hdefinition with htype | hroot
  · rcases List.mem_append.mp htype with hmem | hmem
    · obtain ⟨node, hnode, rfl⟩ := List.mem_map.mp hmem
      obtain ⟨level, name, hfound⟩ := TypeGraph.mem_definitions.mp hnode
      have htraced := traced_of_mem h' hstage hfound
      refine ⟨fun hdefined hmem ↦ ?_, ?_, spares.members _ hstage _ hnode,
        spares.values _ hstage _ hnode⟩
      · obtain ⟨definition, hmem, hname, -⟩ := TypeDocument.mem_definedTypes.mp hmem
        refine unmentioned_of_mem h' hstage hfound hdefined ?_
        exact List.mem_map.mpr ⟨definition, hmem, hname.trans htraced.named⟩
      · unfold fieldNames
        rw [htraced.names_ofNode]
        intro field hfield
        obtain ⟨entry, hentry, rfl⟩ := List.mem_map.mp hfield
        rw [show (TypeDocument.ofNode stage.graph.resource node).name = name from htraced.named]
        exact htraced.undefined entry hentry
    · obtain ⟨page, hpage, rfl⟩ := List.mem_map.mp hmem
      obtain ⟨hundefined, hfields⟩ := spares.pages _ hstage _ hpage
      exact ⟨fun _ ↦ hundefined, hfields, (fun _ h ↦ nomatch h), (fun _ h ↦ nomatch h)⟩
  · obtain ⟨kind, hname, hextending, hfields, hmembers, hvalues⟩ := Stage.mem_roots hroot
    refine ⟨fun hdefined ↦ ?_, ?_, ?_, ?_⟩
    · cases hextending.symm.trans hdefined
    · rw [hfields, hname]
      intro field hfield
      obtain ⟨operation, hoperation, rfl⟩ := List.mem_map.mp hfield
      exact spares.roots _ hstage kind operation hoperation
    · rw [hmembers]
      exact fun _ h ↦ nomatch h
    · rw [hvalues]
      exact fun _ h ↦ nomatch h

omit h in
/-- The shared types that are added have fields of their own. -/
theorem spares_support {definition : Definition} (hdefinition : definition ∈
      (initial ++ stages'.flatMap Stage.document).supportDefinitions compiler.scalars) :
    ∀ field ∈ fieldNames definition,
      field ∉ (initial ++ stages'.flatMap Stage.document).typeFields definition.name := by
  intro field hfield hmem
  by_cases hshared : TypeDocument.IsShared definition.name
  · rw [← TypeDocument.parts_fieldNames, TypeDocument.parts_append, List.mem_append,
      TypeDocument.parts_fieldNames] at hmem
    refine hmem.elim (spares.shared definition hdefinition field hfield) fun hgenerated ↦ ?_
    obtain ⟨generated, hgenerated, hname, -⟩ := TypeDocument.mem_parts.mp hgenerated
    obtain ⟨stage, hstage, hdocument⟩ := List.mem_flatMap.mp hgenerated
    exact Stage.not_isShared_of_mem (fun node ↦ names_of_mem h' hstage) hdocument (hname ▸ hshared)
  · unfold fieldNames at hfield
    rw [TypeDocument.fields_supportDefinitions hdefinition hshared] at hfield
    cases hfield

end Beside

/-- If a run without an initial document is well formed, then so is the run beside a well-formed document
that spares what generation writes in any case. -/
theorem compileAll_wellFormed (compiler : Compiler) (schemas : List ResourceSchema)
    (initial : TypeDocument) (plain compiled : CompiledSchema)
    (h : compiler.compileAll schemas [] = .ok plain) (wellFormed : plain.document.WellFormed)
    (given : initial.WellFormed) (h' : compiler.compileAll schemas initial = .ok compiled)
    (spares : ∀ stages stages', compiler.stages [] schemas = .ok stages →
      compiler.stages initial schemas = .ok stages' →
        Spares compiler.scalars initial stages stages') : compiled.document.WellFormed := by
  obtain ⟨stages, ran⟩ := exists_ran h
  obtain ⟨stages', ran'⟩ := exists_ran h'
  have hspares := spares stages stages' ran.staged ran'.staged
  obtain ⟨htypes, hroots⟩ := nodup_of_wellFormed ran wellFormed
  obtain ⟨htypes', hroots'⟩ := nodup_beside ran.staged ran'.staged hspares htypes hroots
  have hboth : TypeDocument.WellFormed (initial ++ stages'.flatMap Stage.document) := by
    refine given.append (wellFormed_generated ran'.staged htypes' hroots') fun definition hmem ↦ ?_
    obtain ⟨stage, hstage, hdefinition⟩ := List.mem_flatMap.mp hmem
    exact lacks_of_mem ran'.staged hspares hstage hdefinition
  rw [ran'.document]
  exact hboth.complete fun definition hmem ↦ spares_support ran'.staged hspares hmem

/-- The initial document gives the enum of roles one of its values, which generation writes again. -/
theorem compileAll_wellFormed_values :
    let roles : FieldAttributes :=
      ⟨none, some ["ADMIN", "MEMBER"], none, none, none, false, none, none, .null⟩
    let user : ResourceSchema := ⟨"User", ⟨none, [("role", .attributes roles)], []⟩, [], [], none⟩
    let own : GenerationConfig := ⟨fun leaf ↦ leaf matches .object .own | .enumeration⟩
    let initial : TypeDocument := [{ Definition.new "USER_ROLE" .enumeration with values := ["ADMIN"] }]
    ∃ plain compiled, compileAll ⟨own, ⟨[]⟩⟩ [user] [] = .ok plain ∧ plain.document.WellFormed ∧
      initial.WellFormed ∧ compileAll ⟨own, ⟨[]⟩⟩ [user] initial = .ok compiled ∧
      ¬compiled.document.WellFormed := by
  intro roles user own initial
  obtain ⟨plain, hplain, hwellFormed⟩ : ∃ plain, compileAll ⟨own, ⟨[]⟩⟩ [user] [] = .ok plain ∧
      decide plain.document.WellFormed = true :=
    Except.exists_of_passes (by decide +kernel)
  obtain ⟨compiled, hcompiled, hrepeats⟩ :
      ∃ compiled, compileAll ⟨own, ⟨[]⟩⟩ [user] initial = .ok compiled ∧
        (!decide compiled.document.WellFormed) = true :=
    Except.exists_of_passes (by decide +kernel)
  rw [Bool.not_eq_true', decide_eq_false_iff_not] at hrepeats
  exact ⟨plain, compiled, hplain, of_decide_eq_true hwellFormed, by decide +kernel, hcompiled, hrepeats⟩

/-- Users with a role, whose nickname stands in the initial document, beside a query. -/
theorem compileAll_wellFormed_users :
    let roles : FieldAttributes :=
      ⟨none, some ["ADMIN", "MEMBER"], none, none, none, false, none, none, .null⟩
    let fields : Entries FieldSpec := [("nickname", .primitive "String"), ("role", .attributes roles)]
    let user : ResourceSchema := ⟨"User", ⟨none, fields, []⟩, [], [], none⟩
    let own : GenerationConfig :=
      ⟨fun leaf ↦ leaf matches .object .own | .enumeration | .query _ .own .whole⟩
    let initial : TypeDocument :=
      [{ Definition.new "SelfUserObject" .object with fields := [.new "nickname" "String!"] },
        { Definition.new "Query" .object with fields := [.new "version" "Int!"] }]
    ∃ plain compiled, compileAll ⟨own, ⟨[]⟩⟩ [user] [] = .ok plain ∧ plain.document.WellFormed ∧
      initial.WellFormed ∧ compileAll ⟨own, ⟨[]⟩⟩ [user] initial = .ok compiled ∧
      compiled.document.WellFormed := by
  intro roles fields user own initial
  obtain ⟨plain, hplain, hwellFormed⟩ : ∃ plain, compileAll ⟨own, ⟨[]⟩⟩ [user] [] = .ok plain ∧
      decide plain.document.WellFormed = true :=
    Except.exists_of_passes (by decide +kernel)
  obtain ⟨compiled, hcompiled, -⟩ :
      ∃ compiled, compileAll ⟨own, ⟨[]⟩⟩ [user] initial = .ok compiled ∧ true = true :=
    Except.exists_of_passes (by decide +kernel)
  obtain ⟨before, hbefore, hspares⟩ :
      ∃ before, Compiler.stages ⟨own, ⟨[]⟩⟩ [] [user] = .ok before ∧
        (match Compiler.stages ⟨own, ⟨[]⟩⟩ initial [user] with
          | .ok stages => decide (Spares ⟨[]⟩ initial before stages)
          | .error _ => false) = true :=
    Except.exists_of_passes (by decide +kernel)
  have hgiven : initial.WellFormed := by decide +kernel
  refine ⟨plain, compiled, hplain, of_decide_eq_true hwellFormed, hgiven, hcompiled, ?_⟩
  refine compileAll_wellFormed _ _ initial plain compiled hplain (of_decide_eq_true hwellFormed) hgiven
    hcompiled fun stages stages' hstages hstages' ↦ ?_
  obtain rfl := Except.ok.inj (hbefore.symm.trans hstages)
  rw [hstages'] at hspares
  exact of_decide_eq_true hspares

end Compiler
end ResourceApi

import Mathlib.Data.List.Nodup
import ResourceApi.Document
import ResourceApi.Proofs.Graph.Names
import ResourceApi.Proofs.Model.Naming

/-!
# What operations refer to

A root field takes and returns shared types, the object and the input that its operation is served
with, or a page.  The types of a graph are there when the operation is served, and the page types are
those of the queries that return pages.  The name of a root field, if it is not replaced, tells the
operation and the resource or its plural.
-/

namespace ResourceApi

open TypeRef (nameOf)

/-- The named types of a field and of its arguments. -/
def FieldDefinition.references (field : FieldDefinition) : List String :=
  field.namedType :: field.arguments.map fun argument ↦ nameOf argument.type

/-- The types that operations of all resources share. -/
def sharedTypes : List String :=
  [Scalar.json, paginationInputType, "ID", Scalar.nonNegativeInt, nameAndIdType]

namespace OperationNames

variable {names : OperationNames} {name : String}

theorem nameOf_queryArgument (range : QueryRange) :
    ∀ argument ∈ queryArguments range, nameOf argument.type ∈ sharedTypes := by
  cases range <;> decide

theorem nameOf_queryReturn (resource : IsWord names.resource) (plural : IsWord names.plural)
    (range : QueryRange) (segment : Segment) (part : QueryPart) :
    nameOf (names.queryReturn range segment part).1 ∈ sharedTypes ∨
      nameOf (names.queryReturn range segment part).1 = objectTypeName segment names.resource ∨
      (range = .paginated ∧ part = .whole) ∧
        nameOf (names.queryReturn range segment part).1 = pageTypeName segment names.plural := by
  have hobject : TypeRef.IsPlain (objectTypeName segment names.resource).toList :=
    Text.isPlain_of_isWord (isName_objectTypeName segment resource).isWord
  have hpage : TypeRef.IsPlain (pageTypeName segment names.plural).toList :=
    Text.isPlain_of_isWord (isName_pageTypeName segment plural).isWord
  cases part with
  | count =>
    have hcount : nameOf (Scalar.nonNegativeInt ++ "!") ∈ sharedTypes := by decide
    exact .inl (by cases range <;> exact hcount)
  | nameAndId =>
    have hone : nameOf nameAndIdType ∈ sharedTypes := by decide
    have hlist : nameOf ("[" ++ nameAndIdType ++ "!]!") ∈ sharedTypes := by decide
    exact .inl (by cases range <;> first | exact hone | exact hlist)
  | whole =>
    cases range with
    | all => exact .inr (.inl (TypeRef.nameOf_nonNullList hobject))
    | filtered => exact .inr (.inl (TypeRef.nameOf_nonNullList hobject))
    | byId => exact .inr (.inl (TypeRef.nameOf_nullable hobject))
    | paginated => exact .inr (.inr ⟨⟨rfl, rfl⟩, TypeRef.nameOf_nonNull hpage⟩)

theorem nameOf_mutationArgument (resource : IsWord names.resource) (action : Action)
    (target : Target) : nameOf (names.mutationArgument action target).type ∈ sharedTypes ∨
      (Operation.mutation action target).inputType? names.resource =
        some (nameOf (names.mutationArgument action target).type) := by
  unfold mutationArgument Operation.inputType?
  cases hinput : action.input? with
  | none =>
    have hone : nameOf "ID!" ∈ sharedTypes := by decide
    have hlist : nameOf "[ID!]!" ∈ sharedTypes := by decide
    cases target with
    | single => exact .inl hone
    | multi => exact .inl hlist
  | some input =>
    have hplain : TypeRef.IsPlain (inputTypeName input names.resource).toList :=
      Text.isPlain_of_isWord (isName_inputTypeName input resource).isWord
    dsimp only
    rw [hinput, Option.map_some, Option.some_inj]
    right
    cases target with
    | single => exact (TypeRef.nameOf_nonNull hplain).symm
    | multi => exact (TypeRef.nameOf_nonNullList hplain).symm

theorem nameOf_mutationReturn (resource : IsWord names.resource) (target : Target) :
    nameOf (names.mutationReturn target) = objectTypeName .own names.resource := by
  have hplain : TypeRef.IsPlain (objectTypeName .own names.resource).toList :=
    Text.isPlain_of_isWord (isName_objectTypeName .own resource).isWord
  cases target with
  | single => exact TypeRef.nameOf_nullable hplain
  | multi => exact TypeRef.nameOf_list hplain

/-- The root field of an operation refers to shared types, to the types it is served with, or to its
page. -/
theorem references_signature (resource : IsWord names.resource) (plural : IsWord names.plural)
    (operation : Operation)
    (h : name ∈ (TypeDocument.ofSignature (names.signature operation)).references) :
    name ∈ sharedTypes ∨ name = objectTypeName operation.segment names.resource ∨
      operation.inputType? names.resource = some name ∨
      ∃ segment, operation = .query .paginated segment .whole ∧
        name = pageTypeName segment names.plural := by
  unfold FieldDefinition.references at h
  rcases List.mem_cons.mp h with rfl | harguments
  · cases operation with
    | query range segment part =>
      rcases nameOf_queryReturn resource plural range segment part with
        hshared | hobject | ⟨⟨rfl, rfl⟩, hpage⟩
      · exact .inl hshared
      · exact .inr (.inl hobject)
      · exact .inr (.inr (.inr ⟨segment, rfl, hpage⟩))
    | mutation action target => exact .inr (.inl (nameOf_mutationReturn resource target))
  · obtain ⟨_, hdefinition, rfl⟩ := List.mem_map.mp harguments
    obtain ⟨argument, hargument, rfl⟩ := List.mem_map.mp hdefinition
    cases operation with
    | query range segment part => exact .inl (nameOf_queryArgument range argument hargument)
    | mutation action target =>
      obtain rfl := List.mem_singleton.mp hargument
      rcases nameOf_mutationArgument resource action target with hshared | hinput
      · exact .inl hshared
      · exact .inr (.inr (.inl hinput))

end OperationNames

namespace OperationSchema

variable {names : OperationNames} {config : GenerationConfig} {graph : TypeGraph}
  {signature : Signature} {name : String}

theorem operation_of_mem_enabled {operations : List Operation}
    (h : signature ∈ enabled names config operations) :
    ∃ operation ∈ operations, names.signature operation = signature := by
  obtain ⟨operation, hmem, hsignature⟩ := List.mem_map.mp h
  exact ⟨operation, List.mem_of_mem_filter hmem, hsignature⟩

theorem served_of_mem_signatures (h : signature ∈ (ofGraph names config graph).signatures) :
    ∃ operation : Operation, names.signature operation = signature ∧
      operation.isServed names.resource graph = true := by
  rcases List.mem_append.mp h with hquery | hmutation
  · obtain ⟨henabled, hserved⟩ := List.mem_filter.mp hquery
    obtain ⟨operation, -, rfl⟩ := operation_of_mem_enabled henabled
    exact ⟨operation, rfl, hserved⟩
  · obtain ⟨henabled, hserved⟩ := List.mem_filter.mp hmutation
    obtain ⟨operation, -, rfl⟩ := operation_of_mem_enabled henabled
    exact ⟨operation, rfl, hserved⟩

/-- A root field that returns a page is a query, and its page type is generated. -/
theorem exists_page {segment : Segment} (h : signature ∈ (ofGraph names config graph).signatures)
    (hoperation : signature.operation = .query .paginated segment .whole) :
    ∃ page ∈ (ofGraph names config graph).pages,
      page.name = pageTypeName segment names.plural := by
  rcases List.mem_append.mp h with hquery | hmutation
  · refine ⟨_, List.mem_map_of_mem (List.mem_filter.mpr ⟨?_, ?_⟩), rfl⟩
    · cases segment <;> decide
    · exact List.any_eq_true.mpr ⟨signature, hquery, beq_iff_eq.mpr hoperation⟩
  · obtain ⟨operation, hmem, rfl⟩ := operation_of_mem_enabled (List.mem_of_mem_filter hmutation)
    have hkind : ∀ operation ∈ Operation.mutations, operation.kind = .mutation := by decide
    have hmutation : operation.kind = .mutation := hkind operation hmem
    change operation = _ at hoperation
    rw [hoperation] at hmutation
    cases hmutation

/-- The root fields that a graph serves refer to shared types, types of the graph, and pages. -/
theorem references_ofGraph (resource : IsWord names.resource) (plural : IsWord names.plural)
    (h : signature ∈ (ofGraph names config graph).signatures)
    (href : name ∈ (TypeDocument.ofSignature signature).references) :
    name ∈ sharedTypes ∨ graph.has name = true ∨
      ∃ page ∈ (ofGraph names config graph).pages, page.name = name := by
  obtain ⟨operation, rfl, hserved⟩ := served_of_mem_signatures h
  obtain ⟨hobject, hinput⟩ := Bool.and_eq_true_iff.mp hserved
  rcases OperationNames.references_signature resource plural operation href with
    hshared | rfl | htaken | ⟨segment, rfl, rfl⟩
  · exact .inl hshared
  · exact .inr (.inl hobject)
  · rw [htaken] at hinput
    exact .inr (.inl hinput)
  · exact .inr (.inr (exists_page h rfl))

theorem page_of_mem_pages {page : PageType} (h : page ∈ (ofGraph names config graph).pages) :
    ∃ segment, page.name = pageTypeName segment names.plural ∧
      page.object = objectTypeName segment names.resource ∧ graph.has page.object = true := by
  obtain ⟨segment, hsegment, rfl⟩ := List.mem_map.mp h
  obtain ⟨signature, hmem, hoperation⟩ := List.any_eq_true.mp (List.mem_filter.mp hsegment).2
  obtain ⟨operation, rfl, hserved⟩ := served_of_mem_signatures (List.mem_append_left _ hmem)
  obtain rfl : operation = .query .paginated segment .whole := beq_iff_eq.mp hoperation
  exact ⟨segment, rfl, rfl, (Bool.and_eq_true_iff.mp hserved).1⟩

end OperationSchema

/-! ## Names beside those of the types of a graph -/

theorem not_names_pageTypeName (kind : TypeKind) (segment : Segment) (plural : String) :
    ¬kind.Names (pageTypeName segment plural) := by
  have hletters : TypeKind.lastLetters (pageTypeName segment plural) = ['e', 'g', 'a'] :=
    TypeKind.lastLetters_append _ "Page" (by decide)
  refine TypeKind.not_names (fun ending hending heq ↦ ?_) ⟨'e', ?_, by decide⟩
  · rw [hletters] at heq
    cases kind <;> cases hending <;> cases heq
  · unfold pageTypeName
    rw [String.toList_append]
    exact List.mem_append_right _ (by decide)

theorem not_names_rootType (kind : TypeKind) (root : OperationKind) : ¬kind.Names root.rootType := by
  by_cases hunion : root = .mutation ∧ kind = .union
  · obtain ⟨rfl, rfl⟩ := hunion
    rintro ⟨base, hbase⟩
    have hlist := congrArg (List.reverse ∘ String.toList) hbase
    simp [unionTypeName, OperationKind.rootType] at hlist
  · refine TypeKind.not_names (fun ending hending heq ↦ ?_) ?_
    · rw [← heq] at hending
      revert hunion hending
      cases root <;> rcases kind with _ | (_ | _) | _ | _ | _ <;> decide
    · exact ⟨'u', by cases root <;> decide, by decide⟩

theorem pageTypeName_ne_rootType (segment : Segment) (plural : String) (root : OperationKind) :
    pageTypeName segment plural ≠ root.rootType := by
  intro h
  have hlist := congrArg (List.reverse ∘ String.toList) h
  cases root <;> simp [pageTypeName, OperationKind.rootType] at hlist

/-! ## Operations of a kind -/

/-- The operations of a kind that a resource can have, in generation order. -/
def Operation.ofKind : OperationKind → List Operation
  | .query => queries
  | .mutation => mutations

/-- The operations of a kind that the options enable and the graph can serve, in generation order. -/
def Operation.served (resource : String) (config : GenerationConfig) (graph : TypeGraph)
    (kind : OperationKind) : List Operation :=
  (ofKind kind).filter fun operation ↦
    config.enabled operation.leaf && operation.isServed resource graph

theorem Operation.kind_of_mem_served {resource : String} {config : GenerationConfig}
    {graph : TypeGraph} {kind : OperationKind} {operation : Operation}
    (h : operation ∈ served resource config graph kind) : operation.kind = kind := by
  have hkinds : ∀ kind, ∀ operation ∈ ofKind kind, operation.kind = kind := by
    intro kind
    cases kind <;> decide
  exact hkinds kind operation (List.mem_filter.mp h).1

namespace OperationSchema

/-- The root fields of a kind. -/
def ofKind (schema : OperationSchema) : OperationKind → List Signature
  | .query => schema.queries
  | .mutation => schema.mutations

/-- The root fields of a resource are the signatures of the operations that are served. -/
theorem ofKind_ofGraph (names : OperationNames) (config : GenerationConfig) (graph : TypeGraph)
    (kind : OperationKind) : (ofGraph names config graph).ofKind kind =
      (Operation.served names.resource config graph kind).map names.signature := by
  have hserved : ∀ operations : List Operation, (enabled names config operations).filter
      (fun signature ↦ signature.operation.isServed names.resource graph) =
        (operations.filter fun operation ↦ config.enabled operation.leaf &&
          operation.isServed names.resource graph).map names.signature := by
    intro operations
    unfold enabled
    rw [List.filter_map, List.filter_filter]
    refine congrArg _ (List.filter_congr fun operation _ ↦ Bool.and_comm _ _)
  cases kind with
  | query => exact hserved Operation.queries
  | mutation => exact hserved Operation.mutations

theorem kind_of_mem_ofKind {names : OperationNames} {config : GenerationConfig} {graph : TypeGraph}
    {kind : OperationKind} {signature : Signature}
    (h : signature ∈ (ofGraph names config graph).ofKind kind) : signature.kind = kind := by
  rw [ofKind_ofGraph] at h
  obtain ⟨operation, hserved, rfl⟩ := List.mem_map.mp h
  exact Operation.kind_of_mem_served hserved

theorem filter_kind_signatures (names : OperationNames) (config : GenerationConfig)
    (graph : TypeGraph) (kind : OperationKind) :
    (ofGraph names config graph).signatures.filter (fun signature ↦ signature.kind = kind) =
      (ofGraph names config graph).ofKind kind := by
  have hkeep : ∀ other, ((ofGraph names config graph).ofKind other).filter
      (fun signature ↦ signature.kind = kind) =
        if other = kind then (ofGraph names config graph).ofKind kind else [] := by
    intro other
    split
    · rename_i hsame
      subst hsame
      exact List.filter_eq_self.mpr fun signature h ↦ decide_eq_true (kind_of_mem_ofKind h)
    · rename_i hother
      refine List.filter_eq_nil_iff.mpr fun signature h ↦ ?_
      rw [decide_eq_true_iff, kind_of_mem_ofKind h]
      exact hother
  unfold signatures
  rw [List.filter_append]
  refine (congrArg₂ (· ++ ·) (hkeep .query) (hkeep .mutation)).trans ?_
  cases kind <;> simp

theorem mem_signatures {schema : OperationSchema} {signature : Signature} :
    signature ∈ schema.signatures ↔ ∃ kind, signature ∈ schema.ofKind kind := by
  unfold signatures
  rw [List.mem_append]
  constructor
  · rintro (hquery | hmutation)
    · exact ⟨.query, hquery⟩
    · exact ⟨.mutation, hmutation⟩
  · rintro ⟨kind, hkind⟩
    cases kind with
    | query => exact .inl hkind
    | mutation => exact .inr hkind

end OperationSchema

/-! ## Names of operations -/

theorem Operation.exists_query {operation : Operation} (h : operation ∈ queries) :
    ∃ range segment part, operation = .query range segment part := by
  have hkinds : ∀ operation ∈ queries, operation.kind = .query := by decide
  cases operation with
  | query range segment part => exact ⟨range, segment, part, rfl⟩
  | mutation action target => cases hkinds _ h

theorem Operation.exists_mutation {operation : Operation} (h : operation ∈ mutations) :
    ∃ action target, operation = .mutation action target := by
  have hkinds : ∀ operation ∈ mutations, operation.kind = .mutation := by decide
  cases operation with
  | query range segment part => cases hkinds _ h
  | mutation action target => exact ⟨action, target, rfl⟩

namespace OperationNames

variable {names names' : OperationNames}

theorem synthesized_query_injective {range range' : QueryRange} {segment segment' : Segment}
    {part part' : QueryPart} (h : names.synthesized (.query range segment part) =
      names'.synthesized (.query range' segment' part')) :
    range = range' ∧ segment = segment' ∧ part = part' ∧ names.plural = names'.plural := by
  have hfront := congrArg String.toList h
  have hback := congrArg (List.reverse ∘ String.toList) h
  simp only [synthesized, Function.comp_apply, String.toList_append, List.reverse_append,
    List.append_assoc] at hfront hback
  obtain rfl : range = range' := by
    cases range <;> cases range' <;> first | rfl | simp [QueryRange.label] at hfront
  obtain rfl : part = part' := by
    cases part <;> cases part' <;> first | rfl | simp [QueryPart.label] at hback
  have hmiddle : segment.label ++ names.plural ++ part.label =
      segment'.label ++ names'.plural ++ part.label := by
    apply (String.append_right_inj ("get" ++ range.label)).mp
    simpa only [synthesized, String.append_assoc] using h
  obtain ⟨hsegment, hplural⟩ := Segment.eq_of_append hmiddle
  exact ⟨rfl, hsegment, rfl, hplural⟩

/-- What the name of a mutation says it is about. -/
def subject (names : OperationNames) : Target → String
  | .single => names.resource
  | .multi => names.plural

theorem synthesized_mutation (names : OperationNames) (action : Action) (target : Target) :
    names.synthesized (.mutation action target) = action.key ++ names.subject target := by
  cases target <;> rfl

theorem synthesized_mutation_injective {action action' : Action} {target target' : Target}
    (h : names.synthesized (.mutation action target) =
      names'.synthesized (.mutation action' target')) :
    action = action' ∧ names.subject target = names'.subject target' := by
  rw [synthesized_mutation, synthesized_mutation] at h
  have hlist := congrArg String.toList h
  simp only [String.toList_append] at hlist
  obtain rfl : action = action' := by
    cases action <;> cases action' <;> first | rfl | simp [Action.key] at hlist
  exact ⟨rfl, (String.append_right_inj _).mp h⟩

theorem name_signature (renames : names.renames = []) (operation : Operation) :
    (names.signature operation).name = names.synthesized operation := by
  unfold signature
  rw [renames]
  rfl

end OperationNames

namespace OperationSchema

variable {names : OperationNames} {config : GenerationConfig} {graph : TypeGraph} {name : String}

/-- The names of the root fields are those of some of the operations, in their order. -/
theorem names_served (config : GenerationConfig) (renames : names.renames = [])
    (operations : List Operation) (served : Signature → Bool) :
    ∃ kept : List Operation, kept.Sublist operations ∧
      ((enabled names config operations).filter served).map (·.name) =
        kept.map names.synthesized := by
  unfold enabled
  rw [List.filter_map, List.map_map]
  refine ⟨_, List.filter_sublist.trans List.filter_sublist, List.map_congr_left fun operation _ ↦ ?_⟩
  exact OperationNames.name_signature renames operation

theorem exists_operation_of_mem (renames : names.renames = []) {operations : List Operation}
    {served : Signature → Bool}
    (h : name ∈ ((enabled names config operations).filter served).map (·.name)) :
    ∃ operation ∈ operations, name = names.synthesized operation := by
  obtain ⟨kept, hkept, hnames⟩ := names_served config renames operations served
  obtain ⟨operation, hmem, rfl⟩ := List.mem_map.mp (hnames ▸ h)
  exact ⟨operation, hkept.subset hmem, rfl⟩

/-- Root fields have distinct names if the operations have. -/
theorem nodup_served (renames : names.renames = []) {operations : List Operation}
    {served : Signature → Bool} (distinct : operations.Nodup)
    (injective : ∀ first ∈ operations, ∀ second ∈ operations,
      names.synthesized first = names.synthesized second → first = second) :
    (((enabled names config operations).filter served).map (·.name)).Nodup := by
  obtain ⟨kept, hkept, hnames⟩ := names_served config renames operations served
  rw [hnames]
  exact List.Nodup.map_on (fun first hfirst second hsecond ↦
    injective first (hkept.subset hfirst) second (hkept.subset hsecond)) (hkept.nodup distinct)

theorem mem_queryNames (renames : names.renames = [])
    (h : name ∈ (ofGraph names config graph).queries.map (·.name)) :
    ∃ range segment part, name = names.synthesized (.query range segment part) := by
  obtain ⟨operation, hmem, rfl⟩ := exists_operation_of_mem renames h
  obtain ⟨range, segment, part, rfl⟩ := Operation.exists_query hmem
  exact ⟨range, segment, part, rfl⟩

theorem mem_mutationNames (renames : names.renames = [])
    (h : name ∈ (ofGraph names config graph).mutations.map (·.name)) :
    ∃ action target, name = names.synthesized (.mutation action target) := by
  obtain ⟨operation, hmem, rfl⟩ := exists_operation_of_mem renames h
  obtain ⟨action, target, rfl⟩ := Operation.exists_mutation hmem
  exact ⟨action, target, rfl⟩

theorem nodup_queryNames (renames : names.renames = []) :
    ((ofGraph names config graph).queries.map (·.name)).Nodup := by
  refine nodup_served renames (by decide) fun first hfirst second hsecond hsame ↦ ?_
  obtain ⟨range, segment, part, rfl⟩ := Operation.exists_query hfirst
  obtain ⟨range', segment', part', rfl⟩ := Operation.exists_query hsecond
  obtain ⟨rfl, rfl, rfl, -⟩ := OperationNames.synthesized_query_injective hsame
  rfl

theorem nodup_mutationNames (renames : names.renames = []) (apart : names.plural ≠ names.resource) :
    ((ofGraph names config graph).mutations.map (·.name)).Nodup := by
  refine nodup_served renames (by decide) fun first hfirst second hsecond hsame ↦ ?_
  obtain ⟨action, target, rfl⟩ := Operation.exists_mutation hfirst
  obtain ⟨action', target', rfl⟩ := Operation.exists_mutation hsecond
  obtain ⟨rfl, hsubject⟩ := OperationNames.synthesized_mutation_injective hsame
  cases target <;> cases target'
  · rfl
  · exact absurd hsubject.symm apart
  · exact absurd hsubject apart
  · rfl

/-- The pages of a resource are those of different segments. -/
theorem nodup_pageNames : ((ofGraph names config graph).pages.map (·.name)).Nodup := by
  have hdistinct : Segment.all.Nodup := by decide
  unfold ofGraph pagesOf
  rw [List.map_map]
  exact List.Nodup.map_on (fun first _ second _ hsame ↦ (Segment.eq_of_append hsame).1)
    (hdistinct.filter _)

end OperationSchema
end ResourceApi

import ResourceApi.Proofs.Compilation.RootFields
import ResourceApi.Proofs.Graph.Inputs
import ResourceApi.Proofs.Graph.Switches

/-!
# Operations are cells of the options

Without an initial document a resource has just those operations whose leaf is enabled, whose object is
enabled for the root, and whose input the root has: the update input where it is enabled, the create
input where it has a field.  Root fields, page types, operation documents and resolvers follow this one
list.  The types do not depend on the leaves of operations, so switching one off takes this operation
away and leaves everything else as it is.
-/

namespace ResourceApi

variable {scalars : ScalarRegistry} {schema : ResourceSchema} {config : GenerationConfig}
  {graph : TypeGraph} {operation other : Operation}

/-! ## Cells -/

/-- The create input of the root has a field. -/
def TypeGraph.hasCreateFields (graph : TypeGraph) : Bool :=
  (graph.typeAt? 0 (inputTypeName .create graph.resource)).any fun input ↦ !input.fields.isEmpty

namespace Operation

/-- The options enable the operation and the object that it returns, and the root has the input that it
takes. -/
def isCell (config : GenerationConfig) (graph : TypeGraph) (operation : Operation) : Bool :=
  config.enabled operation.leaf && config.object operation.segment &&
    match operation with
    | .mutation .create _ => graph.hasCreateFields
    | .mutation .update _ => config.input .update
    | _ => true

theorem leaf_injective (h : operation.leaf = other.leaf) : operation = other := by
  cases operation <;> cases other <;> cases h <;> rfl

theorem isType_leaf (operation : Operation) : operation.leaf.isType = false := by
  cases operation <;> rfl

/-- Without the leaf of an operation all other cells are as before. -/
theorem isCell_without (config : GenerationConfig) (graph : TypeGraph)
    (operation other : Operation) : other.isCell (config.without operation.leaf) graph =
      (decide (other ≠ operation) && other.isCell config graph) := by
  have hsame := config.types_without operation.isType_leaf
  have hobject : (config.without operation.leaf).object other.segment = config.object other.segment :=
    GenerationConfig.enabled_of_types hsame rfl
  have hinput : (config.without operation.leaf).input .update = config.input .update :=
    GenerationConfig.enabled_of_types hsame rfl
  have hleaf : decide (other.leaf ≠ operation.leaf) = decide (other ≠ operation) :=
    decide_eq_decide.mpr (not_congr ⟨leaf_injective, congrArg leaf⟩)
  have henabled : (config.without operation.leaf).enabled other.leaf =
      (decide (other ≠ operation) && config.enabled other.leaf) := congrArg (· && _) hleaf
  unfold isCell
  rw [hobject, hinput, henabled, Bool.and_assoc, Bool.and_assoc, Bool.and_assoc]

end Operation

/-! ## Types of the root -/

namespace Synthesis

variable (h : TypeGraph.ofSchema scalars schema config [] = .ok graph)
include h

theorem hasCreateFields_iff :
    graph.hasCreateFields = true ↔ (Position.root schema config).Supplies scalars .create := by
  rw [← exists_createInput_iff h, TypeGraph.hasCreateFields, resource_ofSchema h,
    Option.any_eq_true]
  simp

theorem has_createInput_eq :
    graph.has (inputTypeName .create schema.resource) = graph.hasCreateFields := by
  rw [Bool.eq_iff_iff, hasCreateFields_iff h]
  refine ⟨supplies_of_has h, fun hsupplies ↦ ?_⟩
  obtain ⟨input, hinput, -⟩ := (exists_createInput_iff h).mpr hsupplies
  exact TypeGraph.has_iff_typeAt?.mpr ⟨0, input, hinput⟩

/-- An enabled operation is served exactly in the cells. -/
theorem enabled_and_isServed (operation : Operation) :
    (config.enabled operation.leaf && operation.isServed schema.resource graph) =
      operation.isCell config graph := by
  unfold Operation.isServed Operation.isCell
  rw [has_object_eq h, ← Bool.and_assoc]
  cases operation with
  | query => rfl
  | mutation action target =>
    cases action with
    | create => exact congrArg _ (has_createInput_eq h)
    | update => exact congrArg _ (has_updateInput_eq h)
    | delete => rfl

end Synthesis

/-! ## Documents -/

namespace OperationDocument

variable {fragments : FragmentSet} {signature : Signature} {document : OperationDocument}

/-- The document is one for the operation of the signature. -/
def IsFor (document : OperationDocument) (signature : Signature) : Prop :=
  document.kind = signature.kind ∧ document.operation = signature.name ∧
    document.resource = signature.resource

theorem isFor_of_mem_forObject {object : String} (h : document ∈ forObject fragments signature object) :
    document.IsFor signature := by
  unfold forObject at h
  split at h
  · rw [List.mem_singleton.mp h]
    exact ⟨rfl, rfl, rfl⟩
  · rw [List.mem_singleton.mp h]
    exact ⟨rfl, rfl, rfl⟩
  · obtain ⟨_, -, rfl⟩ := List.mem_map.mp h
    exact ⟨rfl, rfl, rfl⟩

theorem forObject_ne_nil (fragments : FragmentSet) (signature : Signature) (object : String) :
    forObject fragments signature object ≠ [] := by
  unfold forObject
  split
  · exact List.cons_ne_nil _ _
  · exact List.cons_ne_nil _ _
  · rename_i hnone _
    rwa [Ne, List.map_eq_nil_iff]

theorem isFor_of_mem_ofSignature (h : document ∈ ofSignature fragments signature) :
    document.IsFor signature := by
  unfold ofSignature at h
  split at h
  · rw [List.mem_singleton.mp h]
    exact ⟨rfl, rfl, rfl⟩
  · rw [List.mem_singleton.mp h]
    exact ⟨rfl, rfl, rfl⟩
  · exact isFor_of_mem_forObject h
  · exact isFor_of_mem_forObject h

theorem ofSignature_ne_nil (fragments : FragmentSet) (signature : Signature) :
    ofSignature fragments signature ≠ [] := by
  unfold ofSignature
  split
  · exact List.cons_ne_nil _ _
  · exact List.cons_ne_nil _ _
  · exact forObject_ne_nil _ _ _
  · exact forObject_ne_nil _ _ _

/-- Each signature has documents, and each document is for one of the signatures. -/
theorem isFor_ofSignatures (fragments : FragmentSet) (signatures : List Signature) :
    (∀ signature ∈ signatures, ∃ document ∈ ofSignatures fragments signatures,
      document.IsFor signature) ∧
    ∀ document ∈ ofSignatures fragments signatures, ∃ signature ∈ signatures,
      document.IsFor signature := by
  constructor
  · intro signature hsignature
    obtain ⟨document, hdocument⟩ := List.exists_mem_of_ne_nil _ (ofSignature_ne_nil fragments signature)
    exact ⟨document, List.mem_flatMap.mpr ⟨signature, hsignature, hdocument⟩,
      isFor_of_mem_ofSignature hdocument⟩
  · intro document hdocument
    obtain ⟨signature, hsignature, hmem⟩ := List.mem_flatMap.mp hdocument
    exact ⟨signature, hsignature, isFor_of_mem_ofSignature hmem⟩

end OperationDocument

/-! ## Stages -/

namespace Stage

/-- The stage of a resource under a resolved configuration, with references to types that are not known
retargeted. -/
def ofGraph (schema : ResourceSchema) (config : GenerationConfig) (graph : TypeGraph)
    (known : List String) : Stage :=
  (⟨schema, config, graph⟩ : Stage).retarget known

section Served

variable (h : TypeGraph.ofSchema scalars schema config [] = .ok graph) (known : List String)
include h

theorem served_eq_cells (kind : OperationKind) :
    (ofGraph schema config graph known).served kind =
      (Operation.ofKind kind).filter (Operation.isCell config graph) := by
  refine List.filter_congr fun operation _ ↦ ?_
  rw [← Synthesis.enabled_and_isServed h]
  unfold Operation.isServed ofGraph retarget
  simp only [TypeGraph.has_mapFields]

theorem ofKind_eq_cells (kind : OperationKind) :
    (ofGraph schema config graph known).operations.ofKind kind =
      ((Operation.ofKind kind).filter (Operation.isCell config graph)).map schema.names.signature := by
  rw [ofKind_operations, served_eq_cells h]
  rfl

theorem names_definitions : ∀ node ∈ (ofGraph schema config graph known).graph.definitions,
    node.kind.Names node.name := by
  intro node hnode
  obtain ⟨before, hbefore, rfl⟩ := mem_definitions_retarget hnode
  obtain ⟨level, name, hfound⟩ := TypeGraph.mem_definitions.mp hbefore
  obtain ⟨builder, -, htraced, -, rfl⟩ := Synthesis.ofSchema_traced h
  have hbuilt := htraced.types _ _ _ (htraced.get?_of_mem_finish hfound)
  have hkind := hbuilt.kind
  rwa [← hbuilt.named] at hkind

/-- The document of the resource extends the root types by its operations. -/
theorem fieldsOf_complete (compiler : Compiler) (kind : OperationKind) :
    (compiler.document [] [ofGraph schema config graph known]).fieldsOf kind.rootType =
      ((ofGraph schema config graph known).operations.ofKind kind).map TypeDocument.ofSignature := by
  rw [Compiler.fieldsOf_document _ _ (TypeDocument.not_isShared_rootType kind),
    List.flatMap_singleton, fieldsOf_document (names_definitions h known)]
  rfl

end Served

/-- A query is served exactly if its signature is among those of the queries. -/
theorem any_queries (stage : Stage) (operation : Operation) :
    stage.operations.queries.any (·.operation == operation) =
      decide (stage.names.signature operation ∈ stage.operations.queries) := by
  have hqueries := stage.ofKind_operations .query
  change stage.operations.queries = _ at hqueries
  rw [hqueries, Bool.eq_iff_iff, List.any_eq_true, decide_eq_true_iff]
  constructor
  · rintro ⟨signature, hsignature, hsame⟩
    obtain ⟨other, hother, rfl⟩ := List.mem_map.mp hsignature
    obtain rfl : other = operation := beq_iff_eq.mp hsame
    exact hsignature
  · exact fun hsignature ↦ ⟨_, hsignature, beq_self_eq_true _⟩

/-- If no two operations of a kind have one name, then the resolvers of the kind are those of the
operations. -/
theorem resolvers_ofKind (stage : Stage) (scalars : ScalarRegistry) (kind : OperationKind)
    (distinct : ((stage.operations.ofKind kind).map (·.name)).Nodup) :
    (stage.resolvers scalars).fieldNames kind = (stage.operations.ofKind kind).map (·.name) ∧
      ∀ signature ∈ stage.operations.ofKind kind,
        (stage.resolvers scalars).operation? kind signature.name = some signature.operation := by
  have hkinds : stage.operations.signatures.filter (fun signature ↦ signature.kind = kind) =
      stage.operations.ofKind kind :=
    OperationSchema.filter_kind_signatures ..
  constructor
  · rw [← hkinds] at distinct ⊢
    exact ResourceResolvers.fieldNames_ofGraph _ _ _ _ distinct
  · intro signature hsignature
    rw [ofKind_operations] at hsignature distinct
    obtain ⟨operation, hserved, rfl⟩ := List.mem_map.mp hsignature
    rw [List.map_map] at distinct
    rw [operation?_resolvers]
    cases hlast : ((stage.served kind).filter fun other ↦
        stage.fieldName other = stage.fieldName operation).getLast? with
    | none =>
      have hmem : operation ∈ (stage.served kind).filter fun other ↦
          stage.fieldName other = stage.fieldName operation :=
        List.mem_filter.mpr ⟨hserved, decide_eq_true rfl⟩
      rw [List.getLast?_eq_none_iff.mp hlast] at hmem
      cases hmem
    | some last =>
      obtain ⟨hmem, hname⟩ := List.mem_filter.mp (List.mem_of_getLast? hlast)
      obtain rfl := List.inj_on_of_nodup_map distinct hmem hserved (of_decide_eq_true hname)
      exact hlast

/-- Without the leaf of an operation the stage has the other operations, in the same order. -/
theorem signatures_without (h : TypeGraph.ofSchema scalars schema config [] = .ok graph)
    (known : List String) (operation : Operation) :
    (ofGraph schema (config.without operation.leaf) graph known).operations.signatures =
      (ofGraph schema config graph known).operations.signatures.filter
        (·.operation ≠ operation) := by
  have hgraph : TypeGraph.ofSchema scalars schema (config.without operation.leaf) [] = .ok graph := by
    rw [TypeGraph.ofSchema_congr (config.types_without operation.isType_leaf), h]
  have hkind : ∀ kind, (ofGraph schema (config.without operation.leaf) graph known).operations.ofKind
      kind = ((ofGraph schema config graph known).operations.ofKind kind).filter
        (·.operation ≠ operation) := by
    intro kind
    rw [ofKind_eq_cells hgraph, ofKind_eq_cells h, List.filter_map, List.filter_filter]
    refine congrArg _ (List.filter_congr fun other _ ↦ ?_)
    exact Operation.isCell_without config graph operation other
  exact (congrArg₂ (· ++ ·) (hkind .query) (hkind .mutation)).trans (List.filter_append ..).symm

/-- The operations of a resource that is compiled without an initial document.  Of each kind they are the
cells, in generation order.  What the create input of the root needs to have a field is a field of the
model, at any depth, that is no nested object and that the options enable for creation all the way.  The
pages are those of the segments with a paginated query for whole records.  The root fields of the document
are those of the operations, each operation has operation documents and there are no others, and if no
two operations of a kind have one name, then these are the root fields that have resolvers, each that of its
operation.  Switching off the leaf of an operation takes away this operation only, and leaves the types
and the fragments as they are. -/
theorem operations_cells (scalars : ScalarRegistry) (schema : ResourceSchema)
    (config : GenerationConfig) (graph : TypeGraph)
    (h : TypeGraph.ofSchema scalars schema config [] = .ok graph) (known : List String) :
    let stage := ofGraph schema config graph known
    (∀ kind, stage.operations.ofKind kind = ((Operation.ofKind kind).filter
      (Operation.isCell config graph)).map schema.names.signature) ∧
    (graph.hasCreateFields = true ↔
      (Synthesis.Position.root schema config).Supplies scalars .create) ∧
    stage.operations.pages = (Segment.all.filter fun segment ↦
      schema.names.signature (.query .paginated segment .whole) ∈ stage.operations.queries).map
        (fun segment ↦ ⟨pageTypeName segment schema.pluralName, schema.resource,
          objectTypeName segment schema.resource⟩) ∧
    (∀ options kind, (Compiler.document ⟨options, scalars⟩ [] [stage]).fieldsOf kind.rootType =
      (stage.operations.ofKind kind).map TypeDocument.ofSignature) ∧
    (∀ fragments,
      (∀ signature ∈ stage.operations.signatures, ∃ document ∈ OperationDocument.ofSignatures fragments
        stage.operations.signatures, document.IsFor signature) ∧
      ∀ document ∈ OperationDocument.ofSignatures fragments stage.operations.signatures,
        ∃ signature ∈ stage.operations.signatures, document.IsFor signature) ∧
    (∀ kind, ((stage.operations.ofKind kind).map (·.name)).Nodup →
      (stage.resolvers scalars).fieldNames kind = (stage.operations.ofKind kind).map (·.name) ∧
      ∀ signature ∈ stage.operations.ofKind kind,
        (stage.resolvers scalars).operation? kind signature.name = some signature.operation) ∧
    ∀ operation : Operation, ∃ graph',
      TypeGraph.ofSchema scalars schema (config.without operation.leaf) [] = .ok graph' ∧
      let without := ofGraph schema (config.without operation.leaf) graph' known
      without.graph = stage.graph ∧
        FragmentSet.ofGraphs [without.graph] = FragmentSet.ofGraphs [stage.graph] ∧
        without.operations.signatures =
          stage.operations.signatures.filter (·.operation ≠ operation) := by
  intro stage
  refine ⟨ofKind_eq_cells h known, Synthesis.hasCreateFields_iff h, ?_,
    fun options ↦ fieldsOf_complete h known _,
    fun fragments ↦ OperationDocument.isFor_ofSignatures fragments _,
    stage.resolvers_ofKind scalars,
    fun operation ↦ ⟨graph, ?_, rfl, rfl, signatures_without h known operation⟩⟩
  · refine congrArg (List.map _) (List.filter_congr fun segment _ ↦ ?_)
    exact stage.any_queries _
  · rw [TypeGraph.ofSchema_congr (config.types_without operation.isType_leaf), h]

/-- Users whose own records can be created and deleted.  Updates are enabled, but their input is not. -/
theorem operations_cells_users :
    let user : ResourceSchema := ⟨"User", ⟨none, [("name", .primitive "String")], []⟩, [], [], none⟩
    let config : GenerationConfig :=
      ⟨fun leaf ↦ leaf matches .object .own | .input .create | .mutation ..⟩
    let create : Operation := .mutation .create .single
    ∃ graph graph', TypeGraph.ofSchema ⟨[]⟩ user config [] = .ok graph ∧
      (ofGraph user config graph []).operations.ofKind .mutation =
        [create, .mutation .create .multi, .mutation .delete .single, .mutation .delete .multi].map
          user.names.signature ∧
      TypeGraph.ofSchema ⟨[]⟩ user (config.without create.leaf) [] = .ok graph' ∧
      (ofGraph user (config.without create.leaf) graph' []).operations.signatures =
        (ofGraph user config graph []).operations.signatures.filter (·.operation ≠ create) := by
  intro user config create
  obtain ⟨graph, hgraph, hcells⟩ : ∃ graph, TypeGraph.ofSchema ⟨[]⟩ user config [] = .ok graph ∧
      decide ((Operation.ofKind .mutation).filter (Operation.isCell config graph) =
        [create, .mutation .create .multi, .mutation .delete .single, .mutation .delete .multi]) =
          true :=
    Except.exists_of_passes (by decide +kernel)
  obtain ⟨hoperations, -, -, -, -, -, hwithout⟩ := operations_cells ⟨[]⟩ user config graph hgraph []
  obtain ⟨graph', hgraph', -, -, hsignatures⟩ := hwithout create
  refine ⟨graph, graph', hgraph, ?_, hgraph', hsignatures⟩
  rw [hoperations, of_decide_eq_true hcells]

end Stage

end ResourceApi

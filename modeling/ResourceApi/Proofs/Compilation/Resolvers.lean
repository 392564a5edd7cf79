import ResourceApi.Proofs.Compilation.Stages
import ResourceApi.Proofs.Document.Completion
import ResourceApi.Proofs.Resolver.Table

/-!
# The resolvers of a run

The resolver table of a run has the resolvers of each stage under its resource.  A root field is served
by the first resource that has it, with the last operation of this resource that bears its name.
-/

namespace ResourceApi

/-- The names that the operations of a resource are built from. -/
def ResourceSchema.names (schema : ResourceSchema) : OperationNames :=
  ⟨schema.resource, schema.pluralName, schema.operationNames⟩

namespace Stage

/-- The operations of a kind that the stage serves, in generation order. -/
def served (stage : Stage) (kind : OperationKind) : List Operation :=
  Operation.served stage.schema.resource stage.config stage.graph kind

/-- The name of the root field of an operation. -/
def fieldName (stage : Stage) (operation : Operation) : String :=
  (stage.names.signature operation).name

theorem ofKind_operations (stage : Stage) (kind : OperationKind) :
    stage.operations.ofKind kind = (stage.served kind).map stage.names.signature :=
  OperationSchema.ofKind_ofGraph ..

theorem madeFor_resolvers (scalars : ScalarRegistry) (stage : Stage) :
    ResourceResolvers.MadeFor stage.graph stage.model (stage.resolvers scalars) :=
  ResourceResolvers.madeFor_ofGraph ..

/-- A root field is served with the last operation of its name. -/
theorem operation?_resolvers (scalars : ScalarRegistry) (stage : Stage) (kind : OperationKind)
    (field : String) : (stage.resolvers scalars).operation? kind field =
      ((stage.served kind).filter fun operation ↦ stage.fieldName operation = field).getLast? := by
  unfold resolvers
  rw [ResourceResolvers.operation?_ofGraph]
  exact ResourceResolvers.lastOperation?_ofGraph ..

/-- The document of a stage extends a root type by the root fields of the operations that are served. -/
theorem mem_rootExtension {stage : Stage} {kind : OperationKind} (h : stage.served kind ≠ []) :
    ∃ definition ∈ stage.document, definition.name = kind.rootType ∧
      definition.resource = some stage.graph.resource ∧
      definition.fields =
        (stage.served kind).map (TypeDocument.ofSignature ∘ stage.names.signature) := by
  have hofKind := stage.ofKind_operations kind
  have hne : (stage.operations.ofKind kind).isEmpty = false := by
    rw [hofKind]
    simpa using h
  refine ⟨{ Definition.new kind.rootType .object with
    extending := true
    fields := (stage.operations.ofKind kind).map TypeDocument.ofSignature
    resource := some stage.graph.resource }, ?_, rfl, rfl, ?_⟩
  · have hmem : { Definition.new kind.rootType .object with
        extending := true
        fields := (stage.operations.ofKind kind).map TypeDocument.ofSignature
        resource := some stage.graph.resource } ∈ TypeDocument.rootExtension stage.graph.resource
          kind (stage.operations.ofKind kind) := by
      unfold TypeDocument.rootExtension
      rw [hne]
      exact List.mem_singleton_self _
    unfold document TypeDocument.ofResource
    simp only [List.mem_append]
    cases kind with
    | query => exact .inl (.inr hmem)
    | mutation => exact .inr hmem
  · rw [hofKind, List.map_map]

end Stage

namespace Compiler

variable {compiler : Compiler} {schemas : List ResourceSchema} {stages : List Stage} {stage : Stage}
  {initial : TypeDocument} {compiled : CompiledSchema}

/-- What is known of a run: its stages, and the document and the resolvers that follow from them. -/
structure Ran (compiler : Compiler) (schemas : List ResourceSchema) (initial : TypeDocument)
    (compiled : CompiledSchema) (stages : List Stage) : Prop where
  checked : checkSchemas schemas = .ok ()
  staged : compiler.stages initial schemas = .ok stages
  document : compiled.document = compiler.document initial stages
  resolvers : compiled.resolvers = stages.map fun stage ↦
    (stage.schema.resource, stage.resolvers compiler.scalars)

theorem exists_ran (h : compiler.compileAll schemas initial = .ok compiled) :
    ∃ stages, compiler.Ran schemas initial compiled stages := by
  obtain ⟨⟨⟩, hchecked, h⟩ := Except.bind_eq_ok_iff.mp h
  obtain ⟨stages, hstages, h⟩ := Except.bind_eq_ok_iff.mp h
  cases h
  refine ⟨stages, hchecked, hstages, rfl, ?_⟩
  have hdistinct : (Entries.keys (stages.map fun stage ↦
      (stage.schema.resource, stage.resolvers compiler.scalars))).Nodup := by
    have hkeys := nodup_resources hchecked hstages
    simpa only [Entries.keys, List.map_map, Function.comp_def] using hkeys
  have hput := Entries.foldl_put_of_nodup (show (Entries.keys ([] ++ _)).Nodup from hdistinct)
  rwa [List.nil_append, List.foldl_map] at hput

namespace Ran

variable (ran : compiler.Ran schemas initial compiled stages)
include ran

theorem schema_mem (hstage : stage ∈ stages) : stage.schema ∈ schemas :=
  Compiler.schema_mem ran.staged hstage

theorem owned : compiled.resolvers.Owned := by
  intro entry hentry
  rw [ran.resolvers] at hentry
  obtain ⟨stage, hstage, rfl⟩ := List.mem_map.mp hentry
  exact ⟨stage.graph, stage.model, stage.madeFor_resolvers compiler.scalars,
    resource_graph ran.staged hstage, rfl⟩

theorem eq_of_resource (hstage : stage ∈ stages) {stage' : Stage} (hstage' : stage' ∈ stages)
    (same : stage.schema.resource = stage'.schema.resource) : stage = stage' :=
  eq_of_resource_eq ran.checked ran.staged hstage hstage' same

/-- The root object of a segment stands at the top of the graph. -/
theorem root?_eq_some_iff (hstage : stage ∈ stages) {segment : Segment} {root : TypeNode} :
    stage.graph.root? segment = some root ↔
      (objectTypeName segment stage.schema.resource, root) ∈ stage.graph.levels[0]?.getD [] := by
  rw [TypeGraph.root?_eq, resource_graph ran.staged hstage]
  exact Entries.get?_eq_some_iff (nodup_level ran.staged hstage 0)

/-- The document of a run extends a root type by the root fields of each stage. -/
theorem exists_rootExtension (hstage : stage ∈ stages) {kind : OperationKind}
    (served : stage.served kind ≠ []) : ∃ definition ∈ compiled.document,
      definition.name = kind.rootType ∧ definition.resource = some stage.schema.resource ∧
        definition.fields =
          (stage.served kind).map (TypeDocument.ofSignature ∘ stage.names.signature) := by
  obtain ⟨definition, hmem, hname, howned, hfields⟩ := Stage.mem_rootExtension served
  have hdocument : definition ∈ initial ++ stages.flatMap Stage.document :=
    List.mem_append_right _ (List.mem_flatMap.mpr ⟨stage, hstage, hmem⟩)
  obtain ⟨extending, hcomplete⟩ := TypeDocument.exists_mem_complete hdocument compiler.scalars
  rw [resource_graph ran.staged hstage] at howned
  refine ⟨{ definition with extending := extending }, ?_, hname, howned, hfields⟩
  rw [ran.document]
  exact hcomplete

/-- The resolvers under a resource are those of its stage. -/
theorem get?_resolvers {resource : String} {resolvers : ResourceResolvers} :
    compiled.resolvers.get? resource = some resolvers ↔
      ∃ stage ∈ stages, stage.schema.resource = resource ∧
        stage.resolvers compiler.scalars = resolvers := by
  have hdistinct : (Entries.keys compiled.resolvers).Nodup := by
    rw [ran.resolvers]
    have hkeys := nodup_resources ran.checked ran.staged
    simpa only [Entries.keys, List.map_map, Function.comp_def] using hkeys
  rw [Entries.get?_eq_some_iff hdistinct, ran.resolvers]
  simp

/-- A root field is served by the first stage that serves an operation of its name, with the last such
operation. -/
theorem served?_resolvers (kind : OperationKind) (field : String) :
    compiled.resolvers.served? kind field = stages.findSome? fun stage ↦
      (((stage.served kind).filter fun operation ↦
        stage.fieldName operation = field).getLast?).map (stage.schema.resource, ·) := by
  rw [ResolverTable.served?_eq ran.owned, ran.resolvers, List.findSome?_map]
  congr 1
  funext stage
  exact congrArg (Option.map _) (stage.operation?_resolvers compiler.scalars kind field)

end Ran
end Compiler
end ResourceApi

import ResourceApi.Proofs.Graph.Walk
import ResourceApi.Proofs.Options.Types

/-!
# Graphs and the switches of operations

The walk asks a configuration about types only, of the root as of the nodes and fields below it.  So
configurations that agree on the types give one graph, or are refused for the same fault: no query or
mutation that is switched off, at the root or further down, changes a type.
-/

namespace ResourceApi

namespace Synthesis

variable {scalars : ScalarRegistry} {config config' : GenerationConfig} {options options' : FieldConfig}

/-! ## The parts of the walk -/

theorem restrict_congr (same : config.types = config'.types) (visible : Visibility) :
    visible.restrict config = visible.restrict config' :=
  show visible.restrict config.types = visible.restrict config'.types by rw [same]

theorem openNode_congr (same : config.types = config'.types) (node : SchemaNode) (typeName : String)
    (visible : Visibility) (level : Nat) (builder : GraphBuilder) :
    openNode node typeName config visible level builder =
      openNode node typeName config' visible level builder :=
  show openNode node typeName config.types visible level builder =
    openNode node typeName config'.types visible level builder by rw [same]

theorem closeNode_congr (same : config.types = config'.types) (typeName : String)
    (visible : Visibility) (level : Nat) (builder : GraphBuilder) :
    closeNode typeName config visible level builder =
      closeNode typeName config' visible level builder :=
  show closeNode typeName config.types visible level builder =
    closeNode typeName config'.types visible level builder by rw [same]

theorem writeField_congr (same : options.types = options'.types) (typeName : String) (level : Nat)
    (field : ClassifiedField) (visible : Visibility) (builder : GraphBuilder) :
    writeField typeName level field options visible builder =
      writeField typeName level field options' visible builder :=
  show writeField typeName level field options.types visible builder =
    writeField typeName level field options'.types visible builder by rw [same]

/-! ## The walk -/

theorem walkFields_congr {fields : List (String × FieldSpec)}
    (walks : ∀ name spec child, (name, spec) ∈ fields → spec.nested? = some child →
      ∀ (typeName : String) (config config' : GenerationConfig) (visible : Visibility) (level : Nat)
        (builder : GraphBuilder), config.types = config'.types →
          walkNode scalars typeName config visible level builder child =
            walkNode scalars typeName config' visible level builder child)
    (same : config.types = config'.types) (typeName : String) (visible : Visibility) (level : Nat)
    (builder : GraphBuilder) :
    walkFields scalars typeName config visible level builder fields =
      walkFields scalars typeName config' visible level builder fields := by
  induction fields generalizing builder with
  | nil => rfl
  | cons entry rest ih =>
    obtain ⟨name, spec⟩ := entry
    rw [walkFields, walkFields]
    refine bind_congr fun field ↦ ?_
    refine Except.bind_congr_of_map (FieldConfig.resolve_types same _ _ _ _)
      fun options options' halike ↦ ?_
    have htypes : options.config.types = options'.config.types := congrArg FieldConfig.config halike
    rw [restrict_congr htypes visible]
    refine congrArg₂ (· >>= ·) ?_ (funext fun walked ↦ ?_)
    · rw [walkNested_eq, walkNested_eq]
      cases hchild : spec.nested? with
      | none => rfl
      | some child =>
        exact Except.bind_congr_of_map (GenerationConfig.resolve_types htypes _)
          fun nested nested' ↦ walks name spec child List.mem_cons_self hchild _ _ _ _ _ _
    · rw [writeField_congr halike]
      exact ih (fun name spec child hmem ↦ walks name spec child (List.mem_cons_of_mem _ hmem)) _

/-- A walk depends on the types of a configuration only. -/
theorem walkNode_congr (node : SchemaNode) (typeName : String) (inherited : Visibility) (level : Nat)
    (builder : GraphBuilder) (same : config.types = config'.types) :
    walkNode scalars typeName config inherited level builder node =
      walkNode scalars typeName config' inherited level builder node := by
  induction node using SchemaNode.induction
    generalizing typeName config config' inherited level builder with
  | step node ih =>
    obtain ⟨generate, fields, fragments⟩ := node
    rw [walkNode, walkNode, restrict_congr same inherited, openNode_congr same,
      walkFields_congr (fun name spec child hmem hnested typeName config config' visible level builder ↦
        ih name spec child hmem hnested typeName visible level builder) same]
    refine bind_congr fun walked ↦ ?_
    rw [closeNode_congr same]

end Synthesis

/-- The graph of a resource depends on the types of its configuration only. -/
theorem TypeGraph.ofSchema_congr {config config' : GenerationConfig}
    (same : config.types = config'.types) (scalars : ScalarRegistry) (schema : ResourceSchema)
    (existing : Entries (List String)) :
    ofSchema scalars schema config existing = ofSchema scalars schema config' existing := by
  unfold ofSchema
  rw [Synthesis.walkNode_congr _ _ _ _ _ same]

end ResourceApi

import ResourceApi.Proofs.Graph.Source

/-!
# Types of the root

A type named after the resource stands in a graph only if the configuration of the root enables it,
whatever an initial document defines and wherever in the graph the type is.  Without an initial document
the converse holds for the object types of the root and for its update input, since these have an
identifier.
-/

namespace ResourceApi

/-! ## Types of a graph -/

namespace TypeGraph

variable {graph : TypeGraph} {name : String} {segment : Segment}

theorem has_iff_typeAt? :
    graph.has name = true ↔ ∃ level node, graph.typeAt? level name = some node := by
  unfold has get? typeAt?
  rw [List.findSome?_isSome_iff]
  constructor
  · rintro ⟨types, htypes, hfound⟩
    obtain ⟨level, hlevel⟩ := List.mem_iff_getElem?.mp htypes
    obtain ⟨node, hnode⟩ := Option.isSome_iff_exists.mp hfound
    exact ⟨level, node, by rwa [hlevel]⟩
  · rintro ⟨level, node, hnode⟩
    cases hlevel : graph.levels[level]? with
    | none =>
      rw [hlevel] at hnode
      cases hnode
    | some types =>
      rw [hlevel] at hnode
      exact ⟨types, List.mem_of_getElem? hlevel, Option.isSome_iff_exists.mpr ⟨node, hnode⟩⟩

theorem root?_eq (graph : TypeGraph) (segment : Segment) :
    graph.root? segment = graph.typeAt? 0 (objectTypeName segment graph.resource) := by
  unfold root? typeAt?
  cases graph.levels <;> rfl

end TypeGraph

namespace Synthesis

variable {scalars : ScalarRegistry} {start position : Position} {builder next : GraphBuilder}
  {level : Nat} {name base typeName : String} {kind : TypeKind} {segment : Segment}
  {action : InputAction} {node : TypeNode} {schema : ResourceSchema} {config : GenerationConfig}
  {graph : TypeGraph} {existing : Entries (List String)}

/-! ## What a name tells of a type -/

theorem Position.Below.path_subset (below : position.Below scalars start) :
    start.path ⊆ position.path := by
  induction below with
  | refl => exact List.Subset.refl _
  | tail _ hchild ih =>
    cases hchild
    refine List.Subset.trans ih (List.Subset.trans ?_ (List.subset_append_left _ _))
    exact List.subset_append_left _ _

/-- A type with the name of an object type is one, of a position with the model type of the name. -/
theorem Opens.object_position (h : Opens scalars start level name kind base)
    (hname : name = objectTypeName segment typeName) :
    ∃ position : Position, position.Below scalars start ∧ position.level = level ∧
      position.typeName = typeName ∧ kind = .object ∧
      ∀ config ∈ position.path, config.object segment = true := by
  have hobject : TypeKind.object.Names name := ⟨segment, typeName, hname⟩
  cases h with
  | object below visible =>
    obtain ⟨rfl, rfl⟩ := objectTypeName_injective hname
    exact ⟨_, below, rfl, rfl, rfl, object_under_iff.mp visible⟩
  | input => cases hobject.unique (TypeKind.names_input ..)
  | interface => cases hobject.unique (TypeKind.names_interface _)
  | union => cases hobject.unique (TypeKind.names_union _)
  | enumeration below declared henum enabled =>
    obtain ⟨spec, -, hclassify, -⟩ := declared
    rw [(ClassifiedField.enumeration_of_classify hclassify henum).1] at hobject
    cases hobject.unique (names_enumTypeName _ _)

theorem Opens.input_position (h : Opens scalars start level name kind base)
    (hname : name = inputTypeName action typeName) :
    ∃ position : Position, position.Below scalars start ∧ position.level = level ∧
      position.typeName = typeName ∧ kind = .input action ∧
      ∀ config ∈ position.path, config.input action = true := by
  have hinput : (TypeKind.input action).Names name := hname ▸ TypeKind.names_input action typeName
  cases h with
  | object => cases hinput.unique (TypeKind.names_object ..)
  | input below visible =>
    obtain ⟨rfl, rfl⟩ := inputTypeName_injective hname
    exact ⟨_, below, rfl, rfl, rfl, input_under_iff.mp visible⟩
  | interface => cases hinput.unique (TypeKind.names_interface _)
  | union => cases hinput.unique (TypeKind.names_union _)
  | enumeration below declared henum enabled =>
    obtain ⟨spec, -, hclassify, -⟩ := declared
    rw [(ClassifiedField.enumeration_of_classify hclassify henum).1] at hinput
    cases hinput.unique (names_enumTypeName _ _)

/-! ## What stands in the graph is enabled -/

theorem opens_of_typeAt? (h : TypeGraph.ofSchema scalars schema config existing = .ok graph)
    (found : graph.typeAt? level name = some node) :
    Opens scalars (.root schema config) level name node.kind node.base := by
  obtain ⟨builder, -, htraced, -, rfl⟩ := ofSchema_traced h
  exact (htraced.types _ _ _ (htraced.typeAt?_finish.mp found).1).opened

theorem object_enabled_of_has (h : TypeGraph.ofSchema scalars schema config existing = .ok graph)
    (has : graph.has (objectTypeName segment typeName) = true) : config.object segment = true := by
  obtain ⟨level, node, hnode⟩ := TypeGraph.has_iff_typeAt?.mp has
  obtain ⟨position, below, -, -, -, henabled⟩ := (opens_of_typeAt? h hnode).object_position rfl
  exact henabled config (below.path_subset (List.mem_singleton_self config))

theorem input_enabled_of_has (h : TypeGraph.ofSchema scalars schema config existing = .ok graph)
    (has : graph.has (inputTypeName action typeName) = true) : config.input action = true := by
  obtain ⟨level, node, hnode⟩ := TypeGraph.has_iff_typeAt?.mp has
  obtain ⟨position, below, -, -, -, henabled⟩ := (opens_of_typeAt? h hnode).input_position rfl
  exact henabled config (below.path_subset (List.mem_singleton_self config))

/-! ## What is enabled stands in the graph -/

theorem holds_id_openInput (existing : builder.existing = []) (typeName : String) :
    Holds (openInput typeName 0 builder .update) 0 (inputTypeName .update typeName) "id" := by
  obtain ⟨holder, hholder⟩ : ∃ holder, (builder.ensure 0 (inputTypeName .update typeName)
      (.input .update) typeName).get? 0 (inputTypeName .update typeName) = some holder := by
    rw [GraphBuilder.get?_ensure, if_pos ⟨rfl, rfl⟩]
    exact ⟨_, rfl⟩
  exact holds_addField existing hholder

/-- Without an initial document every object type of the root that is enabled is there. -/
theorem exists_root_of_enabled (h : TypeGraph.ofSchema scalars schema config [] = .ok graph)
    (enabled : config.object segment = true) :
    ∃ root, graph.root? segment = some root ∧ root.fields.has "id" = true := by
  have hresource := resource_ofSchema h
  obtain ⟨builder, hwalk, hbuilt, rfl⟩ := ofSchema_built h
  have hvisible : (Visibility.under (Position.root schema config).path).object segment = true :=
    object_under_iff.mpr fun _ hconfig ↦ List.mem_singleton.mp hconfig ▸ enabled
  obtain ⟨turn, hturn, hrest⟩ := Position.Below.object_opened .refl hvisible hwalk
  have hexisting : turn.existing = [] := (Steps.grows hturn).existing
  have hholds := (holds_id_openObject hexisting schema.node schema.resource segment).later
    (Steps.grows hrest)
  obtain ⟨root, hroot, -, hid⟩ := hholds.finish hbuilt (TypeKind.names_object segment _)
    ⟨by simp, by simp⟩
  rw [TypeGraph.root?_eq, hresource]
  exact ⟨root, hroot, hid⟩

/-- Without an initial document the update input of the root is there if it is enabled. -/
theorem has_updateInput_of_enabled (h : TypeGraph.ofSchema scalars schema config [] = .ok graph)
    (enabled : config.input .update = true) :
    graph.has (inputTypeName .update schema.resource) = true := by
  obtain ⟨builder, hwalk, hbuilt, rfl⟩ := ofSchema_built h
  have hvisible : (Visibility.under (Position.root schema config).path).input .update = true :=
    input_under_iff.mpr fun _ hconfig ↦ List.mem_singleton.mp hconfig ▸ enabled
  obtain ⟨turn, hturn, hrest⟩ := Position.Below.input_opened .refl hvisible hwalk
  have hexisting : turn.existing = [] := (Steps.grows hturn).existing
  have hholds := (holds_id_openInput hexisting schema.resource).later (Steps.grows hrest)
  obtain ⟨node, hnode, -, -⟩ := hholds.finish hbuilt (TypeKind.names_input .update _)
    ⟨by simp, by simp⟩
  exact TypeGraph.has_iff_typeAt?.mpr ⟨0, node, hnode⟩

/-- Without an initial document the root has just the object types that are enabled. -/
theorem has_object_eq (h : TypeGraph.ofSchema scalars schema config [] = .ok graph)
    (segment : Segment) :
    graph.has (objectTypeName segment schema.resource) = config.object segment := by
  rw [Bool.eq_iff_iff]
  refine ⟨object_enabled_of_has h, fun henabled ↦ ?_⟩
  obtain ⟨root, hroot, -⟩ := exists_root_of_enabled h henabled
  rw [TypeGraph.root?_eq, resource_ofSchema h] at hroot
  exact TypeGraph.has_iff_typeAt?.mpr ⟨0, root, hroot⟩

/-- Without an initial document the root has the update input just if it is enabled. -/
theorem has_updateInput_eq (h : TypeGraph.ofSchema scalars schema config [] = .ok graph) :
    graph.has (inputTypeName .update schema.resource) = config.input .update :=
  Bool.eq_iff_iff.mpr ⟨input_enabled_of_has h, has_updateInput_of_enabled h⟩

end Synthesis
end ResourceApi

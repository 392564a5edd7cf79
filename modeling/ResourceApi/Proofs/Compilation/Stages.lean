import ResourceApi.Proofs.Compilation.Closed
import ResourceApi.Proofs.Document.Fields
import ResourceApi.Proofs.Graph.Root

/-!
# Stages and their models

A run has one stage for each model, in their order, and no two models of one resource.  The graph of a
stage is that of its model with some references retargeted; as those become identifiers, the types are
described by the model as before, and the references that are left lead to types of the stages.
-/

namespace ResourceApi

/-! ## Retargeted types -/

namespace Stage

variable {known : List String} {field : FieldNode}

theorem name_retargetField (known : List String) (field : FieldNode) :
    (retargetField known field).name = field.name := by
  unfold retargetField
  split <;> rfl

theorem description_retargetField (known : List String) (field : FieldNode) :
    (retargetField known field).description = field.description := by
  unfold retargetField
  split <;> rfl

/-- A field is retargeted to an identifier, or it stays as it is; then it is no unknown reference. -/
theorem retargetField_cases (known : List String) (field : FieldNode) :
    (retargetField known field).kind = .scalar ∧ (retargetField known field).typeName = "ID" ∨
      retargetField known field = field ∧ (field.kind = .reference → field.typeName ∈ known) := by
  unfold retargetField
  split
  · exact .inl ⟨rfl, rfl⟩
  · rename_i hkeep
    refine .inr ⟨rfl, fun hkind ↦ ?_⟩
    simpa [hkind] using hkeep

end Stage

theorem TypeNode.keys_mapFields (f : FieldNode → FieldNode) (node : TypeNode) :
    (node.mapFields f).fields.keys = node.fields.keys := by
  unfold mapFields Entries.keys
  rw [List.map_map]
  rfl

theorem TypeNode.mem_mapFields {f : FieldNode → FieldNode} {node : TypeNode}
    {entry : String × FieldNode} (h : entry ∈ (node.mapFields f).fields) :
    ∃ field, (entry.1, field) ∈ node.fields ∧ entry.2 = f field := by
  obtain ⟨⟨name, field⟩, hmem, rfl⟩ := List.mem_map.mp h
  exact ⟨field, hmem, rfl⟩

theorem TypeNode.isEmpty_mapFields (f : FieldNode → FieldNode) (node : TypeNode) :
    (node.mapFields f).isEmpty = node.isEmpty := by
  obtain ⟨_, kind, _, _, _, _, _, _, _⟩ := node
  cases kind <;> simp [mapFields, isEmpty]

theorem TypeGraph.getD_mapFields (graph : TypeGraph) (f : FieldNode → FieldNode) (level : Nat) :
    (graph.mapFields f).levels[level]?.getD [] =
      (graph.levels[level]?.getD []).map fun entry ↦ (entry.1, entry.2.mapFields f) := by
  unfold mapFields
  rw [List.getElem?_map]
  cases graph.levels[level]? <;> rfl

theorem TypeGraph.typeAt?_mapFields (graph : TypeGraph) (f : FieldNode → FieldNode) (level : Nat)
    (name : String) :
    (graph.mapFields f).typeAt? level name = (graph.typeAt? level name).map (TypeNode.mapFields f) := by
  unfold typeAt?
  rw [getD_mapFields, Entries.get?_map]

theorem TypeGraph.root?_mapFields (graph : TypeGraph) (f : FieldNode → FieldNode)
    (segment : Segment) :
    (graph.mapFields f).root? segment = (graph.root? segment).map (TypeNode.mapFields f) := by
  rw [root?_eq, root?_eq, typeAt?_mapFields]
  rfl

namespace Synthesis

variable {scalars : ScalarRegistry} {schema : ResourceSchema} {level : Nat} {node : TypeNode}

theorem Described.retarget (h : Described schema level node) (known : List String) :
    Described schema level (node.mapFields (Stage.retargetField known)) where
  origin := h.origin
  defined := h.defined
  distinct := by
    rw [TypeNode.keys_mapFields]
    exact h.distinct
  named entry hentry := by
    obtain ⟨field, hfield, heq⟩ := TypeNode.mem_mapFields hentry
    rw [heq, Stage.name_retargetField]
    exact h.named _ hfield
  fields kind entry hentry := by
    obtain ⟨field, hfield, -⟩ := TypeNode.mem_mapFields hentry
    exact h.fields kind (entry.1, field) hfield
  values := h.values

theorem DescribedObject.retarget (h : DescribedObject scalars schema level node)
    (known : List String) :
    DescribedObject scalars schema level (node.mapFields (Stage.retargetField known)) where
  segment := h.segment
  identified hlevel := by
    rw [Entries.has_iff, TypeNode.keys_mapFields]
    exact Entries.has_iff.mp (h.identified hlevel)
  follows entry hentry := by
    obtain ⟨field, hfield, heq⟩ := TypeNode.mem_mapFields hentry
    obtain ⟨path, holder, hpath, hlength, hfollows⟩ := h.follows _ hfield
    refine ⟨path, holder, hpath, hlength, ?_⟩
    rw [heq]
    rcases Stage.retargetField_cases known field with ⟨hkind, htarget⟩ | ⟨hsame, -⟩
    · unfold Follows
      rw [hkind, htarget]
      exact offers_id
    · rw [hsame]
      exact hfollows
  fragments := h.fragments

end Synthesis

/-! ## Stages of a run -/

/-- What is known of a stage among the stages of a run. -/
structure Stage.Modeled (scalars : ScalarRegistry) (stages : List Stage) (stage : Stage) : Prop where
  types : ∀ (level : Nat) (name : String) (node : TypeNode),
    (name, node) ∈ stage.graph.levels[level]?.getD [] →
      node.name = name ∧ Synthesis.Described stage.schema level node ∧
        (node.kind = .object → Synthesis.DescribedObject scalars stage.schema level node)
  distinct : ∀ level : Nat, (Entries.keys (stage.graph.levels[level]?.getD [])).Nodup
  references : ∀ node ∈ stage.graph.definitions, ∀ entry ∈ node.fields,
    entry.2.kind = .reference → entry.2.typeName ∈ knownTypes [] stages

/-- What is known of a type of a stage, whatever the initial document: the walk of the model has opened
it, its fields stand under their names, and the initial document defines none of them. -/
structure Stage.Traced (scalars : ScalarRegistry) (initial : TypeDocument) (stage : Stage)
    (level : Nat) (name : String) (node : TypeNode) : Prop where
  opened : Synthesis.Opens scalars (.root stage.schema stage.config) level name node.kind node.base
  named : node.name = name
  keyed : ∀ entry ∈ node.fields, entry.1 = entry.2.name
  undefined : ∀ entry ∈ node.fields, entry.1 ∉ initial.typeFields name

/-- The definition of a type has its fields, in their order. -/
theorem Stage.Traced.names_ofNode {scalars : ScalarRegistry} {initial : TypeDocument} {stage : Stage}
    {level : Nat} {name : String} {node : TypeNode}
    (traced : stage.Traced scalars initial level name node) (resource : String) :
    (TypeDocument.ofNode resource node).fields.map (·.name) = node.fields.keys := by
  change (node.fields.values.map TypeDocument.ofField).map (·.name) = _
  rw [List.map_map]
  exact Entries.map_values_eq_keys traced.keyed

namespace Compiler

variable {compiler : Compiler} {schema : ResourceSchema} {schemas : List ResourceSchema}
  {stage : Stage} {stages : List Stage} {compiled : CompiledSchema}

theorem stage_eq_ok {initial : TypeDocument} (h : compiler.stage initial schema = .ok stage) :
    stage.schema = schema ∧
      GenerationConfig.resolve (schema.node.generate.getD .null) compiler.options =
        .ok stage.config ∧
      TypeGraph.ofSchema compiler.scalars schema stage.config initial.existingFields =
        .ok stage.graph := by
  obtain ⟨config, hconfig, h⟩ := Except.bind_eq_ok_iff.mp h
  obtain ⟨graph, hgraph, h⟩ := Except.bind_eq_ok_iff.mp h
  cases h
  exact ⟨rfl, hconfig, hgraph⟩

theorem compileAll_eq_ok {initial : TypeDocument}
    (h : compiler.compileAll schemas initial = .ok compiled) :
    ∃ stages, checkSchemas schemas = .ok () ∧ compiler.stages initial schemas = .ok stages ∧
      compiled.document = compiler.document initial stages ∧
      compiled.fragments = FragmentSet.ofGraphs (stages.map (·.graph)) := by
  obtain ⟨⟨⟩, hchecked, h⟩ := Except.bind_eq_ok_iff.mp h
  obtain ⟨stages, hstages, h⟩ := Except.bind_eq_ok_iff.mp h
  cases h
  exact ⟨stages, hchecked, hstages, rfl, rfl⟩

/-- The stages are those of the models, in their order. -/
theorem schemas_stages {initial : TypeDocument} (h : compiler.stages initial schemas = .ok stages) :
    stages.map (·.schema) = schemas := by
  obtain ⟨drafts, hdrafts, h⟩ := Except.bind_eq_ok_iff.mp h
  cases h
  rw [List.map_map]
  exact Except.map_of_mapM hdrafts fun schema draft hdraft ↦ (stage_eq_ok hdraft).1

theorem schema_mem {initial : TypeDocument} (h : compiler.stages initial schemas = .ok stages)
    (hstage : stage ∈ stages) : stage.schema ∈ schemas :=
  schemas_stages h ▸ List.mem_map_of_mem hstage

/-- The graph of a stage is that of its model, with references retargeted. -/
theorem exists_graph {initial : TypeDocument} (h : compiler.stages initial schemas = .ok stages)
    (hstage : stage ∈ stages) : ∃ graph known,
      TypeGraph.ofSchema compiler.scalars stage.schema stage.config initial.existingFields =
        .ok graph ∧ stage.graph = graph.mapFields (Stage.retargetField known) := by
  obtain ⟨drafts, hdrafts, h⟩ := Except.bind_eq_ok_iff.mp h
  cases h
  obtain ⟨draft, hdraft, rfl⟩ := List.mem_map.mp hstage
  obtain ⟨schema, -, hcompiled⟩ := Except.exists_of_mem_mapM hdrafts hdraft
  obtain ⟨rfl, -, hgraph⟩ := stage_eq_ok hcompiled
  exact ⟨draft.graph, _, hgraph, rfl⟩

/-- The configuration of a stage does not depend on the initial document. -/
theorem resolve_config {initial : TypeDocument} (h : compiler.stages initial schemas = .ok stages)
    (hstage : stage ∈ stages) :
    GenerationConfig.resolve (stage.schema.node.generate.getD .null) compiler.options =
      .ok stage.config := by
  obtain ⟨drafts, hdrafts, h⟩ := Except.bind_eq_ok_iff.mp h
  cases h
  obtain ⟨draft, hdraft, rfl⟩ := List.mem_map.mp hstage
  obtain ⟨schema, -, hcompiled⟩ := Except.exists_of_mem_mapM hdrafts hdraft
  obtain ⟨rfl, hconfig, -⟩ := stage_eq_ok hcompiled
  exact hconfig

theorem resource_graph {initial : TypeDocument} (h : compiler.stages initial schemas = .ok stages)
    (hstage : stage ∈ stages) : stage.graph.resource = stage.schema.resource := by
  obtain ⟨graph, known, hgraph, hretarget⟩ := exists_graph h hstage
  rw [hretarget, ← Synthesis.resource_ofSchema hgraph]
  rfl

/-- No level of a stage has two types of one name. -/
theorem nodup_level {initial : TypeDocument} (h : compiler.stages initial schemas = .ok stages)
    (hstage : stage ∈ stages) (level : Nat) :
    (Entries.keys (stage.graph.levels[level]?.getD [])).Nodup := by
  obtain ⟨graph, known, hgraph, hretarget⟩ := exists_graph h hstage
  obtain ⟨builder, -, htraced, -, rfl⟩ := Synthesis.ofSchema_traced hgraph
  rw [hretarget, TypeGraph.getD_mapFields]
  simpa only [Entries.keys, List.map_map, Function.comp_def] using
    GraphBuilder.nodup_finish htraced.distinct level

/-- The types of a stage are those that the walk of its model has built up, with references
retargeted. -/
theorem exists_built {initial : TypeDocument} {level : Nat} {name : String} {node : TypeNode}
    (h : compiler.stages initial schemas = .ok stages) (hstage : stage ∈ stages)
    (found : (name, node) ∈ stage.graph.levels[level]?.getD []) :
    ∃ builder before known, (Synthesis.Position.root stage.schema stage.config).walk compiler.scalars
        (GraphBuilder.new stage.schema.resource initial.existingFields) = .ok builder ∧
      builder.existing = initial.existingFields ∧ builder.get? level name = some before ∧
      Synthesis.TypeBuilt compiler.scalars (.root stage.schema stage.config) builder level name
        before ∧
      before.isEmpty = false ∧ node = before.mapFields (Stage.retargetField known) := by
  obtain ⟨graph, known, hgraph, hretarget⟩ := exists_graph h hstage
  obtain ⟨builder, hwalk, htraced, hexisting, rfl⟩ := Synthesis.ofSchema_traced hgraph
  rw [hretarget, TypeGraph.getD_mapFields] at found
  obtain ⟨⟨key, before⟩, hbefore, hentry⟩ := List.mem_map.mp found
  obtain ⟨rfl, rfl⟩ := Prod.mk.inj hentry
  have hplace := Entries.get?_of_mem (GraphBuilder.nodup_finish htraced.distinct level) hbefore
  obtain ⟨hget, hfilled⟩ := htraced.typeAt?_finish.mp hplace
  exact ⟨builder, before, known, hwalk, hexisting, hget, htraced.types _ _ _ hget, hfilled, rfl⟩

theorem traced_of_mem {initial : TypeDocument} {level : Nat} {name : String} {node : TypeNode}
    (h : compiler.stages initial schemas = .ok stages) (hstage : stage ∈ stages)
    (found : (name, node) ∈ stage.graph.levels[level]?.getD []) :
    stage.Traced compiler.scalars initial level name node := by
  obtain ⟨builder, before, known, -, hexisting, -, hbuilt, -, rfl⟩ := exists_built h hstage found
  refine ⟨hbuilt.opened, hbuilt.named, fun entry hentry ↦ ?_, fun entry hentry ↦ ?_⟩
  · obtain ⟨field, hfield, heq⟩ := TypeNode.mem_mapFields hentry
    rw [heq, Stage.name_retargetField]
    exact (hbuilt.fields _ hfield).1
  · obtain ⟨field, hfield, -⟩ := TypeNode.mem_mapFields hentry
    have hundefined := hbuilt.undefined _ hfield
    rwa [← Bool.not_eq_true, GraphBuilder.definedBefore_iff, hexisting,
      TypeDocument.getD_existingFields] at hundefined

/-- A type has no field, member or value twice. -/
theorem nodup_of_mem {initial : TypeDocument} {level : Nat} {name : String} {node : TypeNode}
    (h : compiler.stages initial schemas = .ok stages) (hstage : stage ∈ stages)
    (found : (name, node) ∈ stage.graph.levels[level]?.getD []) :
    node.fields.keys.Nodup ∧ node.members.Nodup ∧ node.values.Nodup := by
  obtain ⟨builder, before, known, hwalk, -, hget, -, -, rfl⟩ := exists_built h hstage found
  have hsteps := Synthesis.Position.walk_steps .refl hwalk
  have hsourced := Synthesis.Steps.sourced hsteps (fun _ _ _ h ↦ nomatch h) _ _ _ hget
  have hparts := Synthesis.Steps.nodup hsteps (fun _ _ _ h ↦ nomatch h) _ _ _ hget
  rw [TypeNode.keys_mapFields]
  exact ⟨hsourced.distinct, hparts⟩

/-- A type that is no extension has a name that the initial document does not mention. -/
theorem unmentioned_of_mem {initial : TypeDocument} {level : Nat} {name : String} {node : TypeNode}
    (h : compiler.stages initial schemas = .ok stages) (hstage : stage ∈ stages)
    (found : (name, node) ∈ stage.graph.levels[level]?.getD []) (defined : node.extending = false) :
    name ∉ initial.map (·.name) := by
  obtain ⟨builder, before, known, -, hexisting, -, hbuilt, -, rfl⟩ := exists_built h hstage found
  rw [← TypeDocument.has_existingFields, ← hexisting, ← hbuilt.extending]
  exact ne_true_of_eq_false defined

/-- The references that a stage is left with lead to types of the stages or of the initial document. -/
theorem mem_knownTypes_of_reference {initial : TypeDocument}
    (h : compiler.stages initial schemas = .ok stages) (hstage : stage ∈ stages) {node : TypeNode}
    (hnode : node ∈ stage.graph.definitions) {entry : String × FieldNode} (hentry : entry ∈ node.fields)
    (hkind : entry.2.kind = .reference) : entry.2.typeName ∈ Stage.knownTypes initial stages := by
  obtain ⟨drafts, hdrafts, h⟩ := Except.bind_eq_ok_iff.mp h
  cases h
  obtain ⟨draft, hdraft, rfl⟩ := List.mem_map.mp hstage
  rw [Stage.knownTypes_retarget]
  obtain ⟨before, -, rfl⟩ := Stage.mem_definitions_retarget hnode
  obtain ⟨field, -, heq⟩ := TypeNode.mem_mapFields hentry
  rw [heq] at hkind ⊢
  rcases Stage.retargetField_cases (Stage.knownTypes initial drafts) field with
    ⟨hscalar, -⟩ | ⟨hsame, hknown⟩
  · cases hscalar.symm.trans hkind
  · rw [hsame] at hkind ⊢
    exact hknown hkind

theorem modeled_stages (h : compiler.stages [] schemas = .ok stages) :
    ∀ stage ∈ stages, stage.Modeled compiler.scalars stages := by
  intro stage hstage
  refine ⟨fun level name node hnode ↦ ?_, nodup_level h hstage,
    fun node hnode entry ↦ mem_knownTypes_of_reference h hstage hnode⟩
  obtain ⟨graph, known, hgraph, hretarget⟩ := exists_graph h hstage
  rw [hretarget, TypeGraph.getD_mapFields] at hnode
  obtain ⟨⟨key, before⟩, hbefore, hentry⟩ := List.mem_map.mp hnode
  obtain ⟨rfl, rfl⟩ := Prod.mk.inj hentry
  obtain ⟨hname, hdescribed, hobject⟩ := Synthesis.ofSchema_described hgraph hbefore
  exact ⟨hname, hdescribed.retarget _, fun kind ↦ (hobject kind).retarget _⟩

/-! ## Types of the root -/

theorem object_enabled {initial : TypeDocument} {segment : Segment} {typeName : String}
    (h : compiler.stages initial schemas = .ok stages) (hstage : stage ∈ stages)
    (has : stage.graph.has (objectTypeName segment typeName) = true) :
    stage.config.object segment = true := by
  obtain ⟨graph, known, hgraph, hretarget⟩ := exists_graph h hstage
  rw [hretarget, TypeGraph.has_mapFields] at has
  exact Synthesis.object_enabled_of_has hgraph has

theorem input_enabled {initial : TypeDocument} {action : InputAction} {typeName : String}
    (h : compiler.stages initial schemas = .ok stages) (hstage : stage ∈ stages)
    (has : stage.graph.has (inputTypeName action typeName) = true) :
    stage.config.input action = true := by
  obtain ⟨graph, known, hgraph, hretarget⟩ := exists_graph h hstage
  rw [hretarget, TypeGraph.has_mapFields] at has
  exact Synthesis.input_enabled_of_has hgraph has

/-- Without an initial document every root object that is enabled is there, with an identifier. -/
theorem exists_root {segment : Segment} (h : compiler.stages [] schemas = .ok stages)
    (hstage : stage ∈ stages) (enabled : stage.config.object segment = true) :
    ∃ root, stage.graph.root? segment = some root ∧ "id" ∈ root.fields.keys := by
  obtain ⟨graph, known, hgraph, hretarget⟩ := exists_graph h hstage
  obtain ⟨root, hroot, hid⟩ := Synthesis.exists_root_of_enabled hgraph enabled
  refine ⟨root.mapFields (Stage.retargetField known), ?_, ?_⟩
  · rw [hretarget, TypeGraph.root?_mapFields, hroot]
    rfl
  · rw [TypeNode.keys_mapFields]
    exact Entries.has_iff.mp hid

theorem has_object {segment : Segment} (h : compiler.stages [] schemas = .ok stages)
    (hstage : stage ∈ stages) (enabled : stage.config.object segment = true) :
    stage.graph.has (objectTypeName segment stage.schema.resource) = true := by
  obtain ⟨graph, known, hgraph, hretarget⟩ := exists_graph h hstage
  rw [hretarget, TypeGraph.has_mapFields, Synthesis.has_object_eq hgraph]
  exact enabled

theorem has_updateInput (h : compiler.stages [] schemas = .ok stages) (hstage : stage ∈ stages)
    (enabled : stage.config.input .update = true) :
    stage.graph.has (inputTypeName .update stage.schema.resource) = true := by
  obtain ⟨graph, known, hgraph, hretarget⟩ := exists_graph h hstage
  rw [hretarget, TypeGraph.has_mapFields]
  exact Synthesis.has_updateInput_of_enabled hgraph enabled

/-! ## Distinct resources -/

theorem checkNames_eq_ok_iff {index : Nat} {seen : List String} :
    checkNames index seen schemas = .ok () ↔
      (∀ schema ∈ schemas, schema.isNamed = true ∧ schema.resource ∉ seen) ∧
        (schemas.map (·.resource)).Nodup := by
  induction schemas generalizing index seen with
  | nil => simp [checkNames]
  | cons first rest ih =>
    unfold checkNames
    split
    · rename_i hunnamed
      simp only [Bool.not_eq_true'] at hunnamed
      simp [hunnamed]
    · rename_i hnamed
      simp only [Bool.not_eq_true', Bool.not_eq_false] at hnamed
      split
      · rename_i hseen
        simp only [List.contains_eq_mem, decide_eq_true_eq] at hseen
        simp [hseen]
      · rename_i hfresh
        simp only [List.contains_eq_mem, decide_eq_true_eq] at hfresh
        rw [ih, List.forall_mem_cons, List.map_cons, List.nodup_cons]
        -- the names after the first are apart from it exactly if it is apart from them
        grind

/-- The models of a run are at least one, all have names, and no two of them are of one resource. -/
theorem checkSchemas_eq_ok_iff : checkSchemas schemas = .ok () ↔
    schemas ≠ [] ∧ (∀ schema ∈ schemas, schema.isNamed = true) ∧
      (schemas.map (·.resource)).Nodup := by
  unfold checkSchemas
  cases schemas with
  | nil => simp
  | cons first rest => simp [checkNames_eq_ok_iff]

theorem nodup_of_checkSchemas (h : checkSchemas schemas = .ok ()) :
    (schemas.map (·.resource)).Nodup :=
  (checkSchemas_eq_ok_iff.mp h).2.2

/-- The stages of a run are of different resources. -/
theorem nodup_resources {initial : TypeDocument} (checked : checkSchemas schemas = .ok ())
    (h : compiler.stages initial schemas = .ok stages) :
    (stages.map (·.schema.resource)).Nodup := by
  have hdistinct := nodup_of_checkSchemas checked
  rwa [← schemas_stages h, List.map_map] at hdistinct

theorem eq_of_resource_eq {initial : TypeDocument} (checked : checkSchemas schemas = .ok ())
    (h : compiler.stages initial schemas = .ok stages) (hstage : stage ∈ stages) {stage' : Stage}
    (hstage' : stage' ∈ stages) (same : stage.schema.resource = stage'.schema.resource) :
    stage = stage' :=
  List.inj_on_of_nodup_map (nodup_resources checked h) hstage hstage' same

end Compiler
end ResourceApi

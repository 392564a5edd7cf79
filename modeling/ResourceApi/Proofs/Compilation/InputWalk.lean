import ResourceApi.Proofs.Compilation.Stages
import ResourceApi.Proofs.Graph.Targets
import ResourceApi.Proofs.Resolver.InputWalk
import ResourceApi.Proofs.Text.Word

/-!
# The walks over the inputs of a run

An input leads to the input of a nested node, whose name is that of the input around it with the alias
or the name of the field in camel case added.  If there is a letter or a digit in it, something is added,
and the walk over the inputs of the resource comes to its end.  Other names vanish in camel case; then
the nested input has the name of the one around it, which is the one that the walk finds.
-/

namespace ResourceApi

open Relation (TransGen)

/-- The alias of every nested node, or the name of its field, has a letter or a digit. -/
def ResourceSchema.Lettered (schema : ResourceSchema) : Prop :=
  ∀ path typeName node name spec child, schema.NodeAt path typeName node →
    (name, spec) ∈ node.fields → spec.nested? = some child →
      ∃ c ∈ (spec.alias?.getD name).toList, Text.isAlphanumeric c = true

/-- It is enough to look at the nodes of a model of bounded depth. -/
theorem ResourceSchema.lettered_of_nodes {schema : ResourceSchema} (depth : Nat)
    (shallow : schema.level depth = [])
    (letters : ∀ placed ∈ schema.nodesTo depth, ∀ field ∈ placed.node.fields,
      field.2.nested?.isSome = true →
        (field.2.alias?.getD field.1).toList.any Text.isAlphanumeric = true) :
    schema.Lettered := by
  intro path typeName node name spec child hnode hmem hnested
  have hany := letters _ (hnode.mem_nodesTo shallow) (name, spec) hmem
    (Option.isSome_iff_exists.mpr ⟨child, hnested⟩)
  exact List.any_eq_true.mp hany

/-! ## Names of nested inputs -/

namespace Synthesis

variable {scalars : ScalarRegistry} {start : Position} {builder : GraphBuilder} {level : Nat}
  {name : String} {action : InputAction} {field : ClassifiedField} {options : FieldConfig}
  {schema : ResourceSchema} {config : GenerationConfig}

theorem Writes.longer_of_object {held : FieldNode} (lettered : schema.Lettered)
    (h : Writes scalars (.root schema config) builder level name held)
    (names : (TypeKind.input action).Names name) (kind : held.kind = .object) :
    name.length < held.typeName.length := by
  cases h with
  | objectIdentifier => cases names.unique (TypeKind.names_object ..)
  | object => cases names.unique (TypeKind.names_object ..)
  | interface => cases names.unique (TypeKind.names_interface _)
  | inputIdentifier => cases kind
  | @input position field options action' node below declared visible enumOpen found =>
    obtain ⟨⟨child, hkind⟩, htype⟩ := inputField?_object found kind
    obtain ⟨spec, hmem, hclassify, -⟩ := declared
    obtain ⟨hnested, htarget⟩ := ClassifiedField.object_of_classify hclassify hkind
    obtain ⟨path, hpath, -⟩ := below.exists_path
    obtain ⟨c, hc, hletter⟩ := lettered path _ _ _ _ _ hpath hmem hnested
    have hadded := Nat.pos_of_ne_zero
      (mt String.length_eq_zero_iff.mp (Text.upperCamelCase_ne_empty hc hletter))
    change _ < node.typeName.length
    rw [htype, htarget]
    simp only [inputTypeName, ClassifiedField.nestedTypeName, String.length_append]
    omega

/-- In the graph of a model whose nested nodes have letters in their names, inputs lead to longer
names. -/
theorem inputsLengthen_of_lettered {graph : TypeGraph} {existing : Entries (List String)}
    (h : TypeGraph.ofSchema scalars schema config existing = .ok graph)
    (lettered : schema.Lettered) (f : FieldNode → FieldNode)
    (keeps : ∀ field, (f field).kind = .object → f field = field) :
    (graph.mapFields f).InputsLengthen := by
  rintro input next ⟨node, hnode, held, hheld, hkind, rfl⟩
  obtain ⟨hget, hinput⟩ := Option.filter_eq_some_iff.mp hnode
  obtain ⟨level, hlevel⟩ := TypeGraph.exists_typeAt?_of_get? hget
  rw [TypeGraph.typeAt?_mapFields] at hlevel
  obtain ⟨before, hbefore, rfl⟩ := Option.map_eq_some_iff.mp hlevel
  obtain ⟨builder, -, htraced, -, rfl⟩ := ofSchema_traced h
  have hbuilt := htraced.types _ _ _ (htraced.typeAt?_finish.mp hbefore).1
  obtain ⟨⟨fieldName, _⟩, hentry, rfl⟩ := List.mem_map.mp hheld
  obtain ⟨field, hfield, rfl⟩ := TypeNode.mem_mapFields hentry
  obtain ⟨-, earlier, -, hwrites⟩ := hbuilt.fields _ hfield
  have hsame := keeps field hkind
  rw [hsame] at hkind ⊢
  have hnames := hbuilt.kind
  cases hbeforeKind : before.kind with
  | input action => exact hwrites.longer_of_object lettered (hbeforeKind ▸ hnames) hkind
  | _ => simp [TypeNode.isInput, TypeNode.mapFields, hbeforeKind] at hinput

end Synthesis

namespace Compiler

/-- Where the names of nested nodes have letters, no input of a stage leads to itself through object
fields, and the walk that collects the scalar checks of an action comes to its end with the checks that
the resolvers have. -/
theorem stages_input_walk (compiler : Compiler) (schemas : List ResourceSchema)
    (initial : TypeDocument) (stages : List Stage)
    (h : compiler.stages initial schemas = .ok stages) (stage : Stage) (hstage : stage ∈ stages)
    (lettered : stage.schema.Lettered) :
    (∀ input, ¬TransGen stage.graph.LeadsTo input input) ∧
      ∀ action, ResourceResolvers.Collects compiler.scalars stage.graph
        (inputTypeName action stage.graph.resource) []
        (ResourceResolvers.scalarChecks compiler.scalars stage.graph action) := by
  obtain ⟨graph, known, hgraph, hretarget⟩ := exists_graph h hstage
  have hlengthen : stage.graph.InputsLengthen := by
    rw [hretarget]
    refine Synthesis.inputsLengthen_of_lettered hgraph lettered _ fun field hkind ↦ ?_
    rcases Stage.retargetField_cases known field with ⟨hscalar, -⟩ | ⟨hsame, -⟩
    · cases hscalar.symm.trans hkind
    · exact hsame
  exact ⟨hlengthen.acyclic, ResourceResolvers.collects_scalarChecks hlengthen compiler.scalars⟩

/-- Users have an object field that is called by an underscore.  The input of the nested node has the
name of the root input, so the root input leads to itself, and no walk from it comes to an end. -/
theorem stages_input_walk_underscore :
    let nested : SchemaNode := ⟨none, [("city", .primitive "String")], []⟩
    let table : FieldAttributes := ⟨none, none, none, none, some nested, false, none, none, .null⟩
    let user : ResourceSchema := ⟨"User", ⟨none, [("_", .attributes table)], []⟩, [], [], none⟩
    let create : GenerationConfig := ⟨fun leaf ↦ leaf == .input .create⟩
    ∃ run stage, stages ⟨create, ⟨[]⟩⟩ [] [user] = .ok run ∧ stage ∈ run ∧
      stage.graph.LeadsTo "CreateUserInput" "CreateUserInput" ∧
      ∀ path checks, ¬ResourceResolvers.Collects ⟨[]⟩ stage.graph "CreateUserInput" path checks := by
  intro nested table user create
  obtain ⟨run, hrun, hchecks⟩ : ∃ run, stages ⟨create, ⟨[]⟩⟩ [] [user] = .ok run ∧
      (run.any fun stage ↦
        decide (stage.graph.LeadsTo "CreateUserInput" "CreateUserInput")) = true :=
    Except.exists_of_passes (by decide +kernel)
  obtain ⟨stage, hstage, hleads⟩ := List.any_eq_true.mp hchecks
  have hloop := of_decide_eq_true hleads
  exact ⟨run, stage, hrun, hstage, hloop, fun path checks hcollects ↦
    hcollects.acyclic (.single hloop)⟩

/-- Users have an address with a position. -/
theorem stages_input_walk_users :
    let position : SchemaNode := ⟨none, [("latitude", .primitive "Float")], []⟩
    let place : FieldAttributes := ⟨none, none, none, none, some position, false, none, none, .null⟩
    let address : SchemaNode := ⟨none, [("city", .primitive "String"), ("geo", .attributes place)], []⟩
    let table : FieldAttributes := ⟨none, none, none, none, some address, false, none, none, .null⟩
    let user : ResourceSchema := ⟨"User", ⟨none, [("address", .attributes table)], []⟩, [], [], none⟩
    ∃ run stage, stages ⟨.full, ⟨[]⟩⟩ [] [user] = .ok run ∧ stage ∈ run ∧
      stage.graph.LeadsTo "CreateUserInput" "CreateUserAddressInput" ∧
      (∀ input, ¬TransGen stage.graph.LeadsTo input input) ∧
      ∀ action, ResourceResolvers.Collects ⟨[]⟩ stage.graph
        (inputTypeName action stage.graph.resource) []
        (ResourceResolvers.scalarChecks ⟨[]⟩ stage.graph action) := by
  intro position place address table user
  have hlettered : user.Lettered :=
    ResourceSchema.lettered_of_nodes 3 (by decide +kernel) (by decide +kernel)
  obtain ⟨run, hrun, hchecks⟩ : ∃ run, stages ⟨.full, ⟨[]⟩⟩ [] [user] = .ok run ∧
      (run.any fun stage ↦
        decide (stage.graph.LeadsTo "CreateUserInput" "CreateUserAddressInput")) = true :=
    Except.exists_of_passes (by decide +kernel)
  obtain ⟨stage, hstage, hleads⟩ := List.any_eq_true.mp hchecks
  have hschema : stage.schema = user := List.mem_singleton.mp (schema_mem hrun hstage)
  obtain ⟨hacyclic, hcollects⟩ :=
    stages_input_walk _ _ _ run hrun stage hstage (hschema ▸ hlettered)
  exact ⟨run, stage, hrun, hstage, of_decide_eq_true hleads, hacyclic, hcollects⟩

end Compiler
end ResourceApi

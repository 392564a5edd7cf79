import ResourceApi.Proofs.Compilation.Names
import ResourceApi.Proofs.Compilation.Resolvers
import ResourceApi.Proofs.Graph.Extension

/-!
# Operations beside an initial document

An operation needs the object that it returns and the input that it takes.  Generation drops a type of
which the initial document defines every field, and with it the operations that need it; it keeps every
operation whose types have a field left.  The operations that only an initial document brings are
creations: all other types that a root field needs have an identifier, which makes them stand without an
initial document.  As creations come before the other mutations, they replace none of them in the
resolver table.
-/

namespace ResourceApi

/-- The last element that passes a test is also the last that passes another, if none of those after it
passes the other only. -/
theorem getLast?_filter_of_pairwise {α : Type} {r : α → α → Prop} {p q : α → Bool} {xs : List α}
    {a : α} (sorted : xs.Pairwise r) (last : (xs.filter p).getLast? = some a) (passes : q a = true)
    (later : ∀ b ∈ xs, r a b → q b = true → p b = true) : (xs.filter q).getLast? = some a := by
  rw [List.getLast?_filter, List.find?_eq_some_iff_append] at last ⊢
  obtain ⟨-, front, back, hsplit, hfront⟩ := last
  refine ⟨passes, front, back, hsplit, fun b hb ↦ ?_⟩
  have hsorted := List.pairwise_reverse.mpr sorted
  rw [hsplit, List.pairwise_append] at hsorted
  have hafter : r a b := hsorted.2.2 b hb a List.mem_cons_self
  cases hq : q b with
  | false => rfl
  | true =>
    have hfails := hfront b hb
    have hmem : b ∈ xs := List.mem_reverse.mp (hsplit ▸ List.mem_append_left _ hb)
    rw [later b hmem hafter hq] at hfails
    cases hfails

namespace Operation

variable {operation other : Operation} {resource typeName : String} {graph : TypeGraph}

/-- The types of a resource that an operation needs. -/
def needs (resource : String) (operation : Operation) : List String :=
  objectTypeName operation.segment resource :: (operation.inputType? resource).toList

theorem isServed_iff : operation.isServed resource graph = true ↔
    ∀ typeName ∈ operation.needs resource, graph.has typeName = true := by
  unfold isServed needs
  cases operation.inputType? resource <;> simp

theorem names_of_mem_needs (h : typeName ∈ operation.needs resource) :
    ∃ kind : TypeKind, kind.Names typeName := by
  rcases List.mem_cons.mp h with rfl | hinput
  · exact ⟨_, TypeKind.names_object ..⟩
  · cases operation with
    | query => cases hinput
    | mutation action target =>
      obtain ⟨input, -, rfl⟩ := Option.map_eq_some_iff.mp (Option.mem_toList.mp hinput)
      exact ⟨_, TypeKind.names_input ..⟩

def isCreation : Operation → Bool
  | .mutation .create _ => true
  | _ => false

/-- Nothing but creations comes before a creation. -/
theorem pairwise_ofKind (kind : OperationKind) :
    (ofKind kind).Pairwise fun first second ↦ second.isCreation = true → first.isCreation = true := by
  cases kind <;> decide

theorem needs_of_isCreation (h : operation.isCreation = true) (h' : other.isCreation = true) :
    operation.needs resource = other.needs resource := by
  unfold isCreation at h h'
  split at h <;> cases h
  split at h' <;> cases h'
  rfl

end Operation

namespace Stage

variable {stage stage' : Stage} {operation : Operation} {kind : OperationKind}

theorem mem_served : operation ∈ stage.served kind ↔ operation ∈ Operation.ofKind kind ∧
    stage.config.enabled operation.leaf = true ∧
      ∀ typeName ∈ operation.needs stage.schema.resource, stage.graph.has typeName = true := by
  unfold served Operation.served
  rw [List.mem_filter, Bool.and_eq_true, Operation.isServed_iff]

/-- A stage has the root field of an operation exactly if it serves the operation. -/
theorem mem_signatures_operations : stage.names.signature operation ∈ stage.operations.signatures ↔
    operation ∈ stage.served operation.kind := by
  rw [OperationSchema.mem_signatures]
  constructor
  · rintro ⟨kind, hsignature⟩
    rw [ofKind_operations] at hsignature
    obtain ⟨other, hserved, hsame⟩ := List.mem_map.mp hsignature
    obtain rfl : other = operation := congrArg Signature.operation hsame
    rwa [Operation.kind_of_mem_served hserved]
  · intro hserved
    refine ⟨operation.kind, ?_⟩
    rw [ofKind_operations]
    exact List.mem_map_of_mem hserved

/-- An operation that is served for its field is so in another stage of the model as well, if what only
the other stage serves are creations. -/
theorem getLast?_served {field : String} (schema : stage'.schema = stage.schema)
    (config : stage'.config = stage.config)
    (extra : ∀ other ∈ stage'.served kind, other ∈ stage.served kind ∨ other.isCreation = true)
    (served : operation ∈ stage'.served kind)
    (last : ((stage.served kind).filter fun operation ↦
      stage.fieldName operation = field).getLast? = some operation) :
    ((stage'.served kind).filter fun operation ↦
      stage'.fieldName operation = field).getLast? = some operation := by
  have hfieldName : stage'.fieldName = stage.fieldName := by
    unfold fieldName names
    rw [schema]
  obtain ⟨hplain, hfield⟩ := List.mem_filter.mp (List.mem_of_getLast? last)
  rw [Stage.served, Operation.served, List.filter_filter] at last ⊢
  refine getLast?_filter_of_pairwise (Operation.pairwise_ofKind kind) last ?_
    fun other hkind hafter hother ↦ ?_
  · rw [hfieldName, hfield]
    exact (List.mem_filter.mp served).2
  · obtain ⟨hname, hserved⟩ := Bool.and_eq_true_iff.mp hother
    have hboth : other ∈ stage'.served kind := List.mem_filter.mpr ⟨hkind, hserved⟩
    have hother : other ∈ stage.served kind := by
      rcases extra other hboth with hsame | hcreation
      · exact hsame
      · -- it is a creation after a creation, which has the same types
        obtain ⟨-, henabled, -⟩ := mem_served.mp hboth
        obtain ⟨-, -, hneeds⟩ := mem_served.mp hplain
        refine mem_served.mpr ⟨hkind, config ▸ henabled, ?_⟩
        rwa [Operation.needs_of_isCreation hcreation (hafter hcreation)]
    rw [← hfieldName, hname]
    exact (List.mem_filter.mp hother).2

end Stage

namespace CompiledSchema

/-- The operation has its root field among those of the resource. -/
def HasField (compiled : CompiledSchema) (schema : ResourceSchema) (operation : Operation) : Prop :=
  ∃ definition ∈ compiled.document, definition.name = operation.kind.rootType ∧
    definition.resource = some schema.resource ∧
    TypeDocument.ofSignature (schema.names.signature operation) ∈ definition.fields

/-- The resource resolves the root field of the operation with the operation. -/
def HasResolver (compiled : CompiledSchema) (schema : ResourceSchema) (operation : Operation) :
    Prop :=
  ∃ resolvers, compiled.resolvers.get? schema.resource = some resolvers ∧
    resolvers.operation? operation.kind (schema.names.signature operation).name = some operation

instance (compiled : CompiledSchema) (schema : ResourceSchema) (operation : Operation) :
    Decidable (compiled.HasField schema operation) :=
  inferInstanceAs (Decidable (∃ definition ∈ compiled.document,
    definition.name = operation.kind.rootType ∧ definition.resource = some schema.resource ∧
      TypeDocument.ofSignature (schema.names.signature operation) ∈ definition.fields))

instance (compiled : CompiledSchema) (schema : ResourceSchema) (operation : Operation) :
    Decidable (compiled.HasResolver schema operation) :=
  decidable_of_iff (((compiled.resolvers.get? schema.resource).any fun resolvers ↦
    resolvers.operation? operation.kind (schema.names.signature operation).name =
      some operation) = true) (by simp [HasResolver, Option.any_eq_true])

end CompiledSchema

namespace Compiler

variable {compiler : Compiler} {schemas : List ResourceSchema} {initial : TypeDocument}
  {stages stages' : List Stage} {stage stage' : Stage} {compiled : CompiledSchema}
  {operation : Operation}

/-- Generation gives the operation to the resource. -/
def Emits (compiler : Compiler) (initial : TypeDocument) (schemas : List ResourceSchema)
    (schema : ResourceSchema) (operation : Operation) : Prop :=
  ∃ stages, compiler.stages initial schemas = .ok stages ∧ ∃ stage ∈ stages,
    stage.schema = schema ∧ schema.names.signature operation ∈ stage.operations.signatures

/-! ## One model, without an initial document and beside one -/

section Beside

variable (h : compiler.stages [] schemas = .ok stages)
  (h' : compiler.stages initial schemas = .ok stages') (hstage : stage ∈ stages)
  (hstage' : stage' ∈ stages') (schema : stage'.schema = stage.schema)
include h h' hstage hstage' schema

theorem config_beside : stage'.config = stage.config := by
  have hconfig := resolve_config h' hstage'
  rw [schema] at hconfig
  exact Except.ok.inj (hconfig.symm.trans (resolve_config h hstage))

/-- A type with a field that the initial document does not define is there beside it. -/
theorem has_beside {level : Nat} {name field : String} {node : TypeNode}
    (found : (name, node) ∈ stage.graph.levels[level]?.getD []) (holds : field ∈ node.fields.keys)
    (undefined : field ∉ initial.typeFields name) : stage'.graph.has name = true := by
  obtain ⟨graph, known, hgraph, hretarget⟩ := exists_graph h hstage
  obtain ⟨graph', known', hgraph', hretarget'⟩ := exists_graph h' hstage'
  rw [schema, config_beside h h' hstage hstage' schema] at hgraph'
  have htype : stage.graph.typeAt? level name = some node :=
    Entries.get?_of_mem (nodup_level h hstage level) found
  rw [hretarget, TypeGraph.typeAt?_mapFields] at htype
  obtain ⟨before, hbefore, rfl⟩ := Option.map_eq_some_iff.mp htype
  rw [TypeNode.keys_mapFields] at holds
  rw [← TypeDocument.getD_existingFields] at undefined
  obtain ⟨next, hnext⟩ := Synthesis.exists_of_undefined hgraph hgraph' hbefore
    (Entries.has_iff.mpr holds) undefined
  rw [hretarget', TypeGraph.has_mapFields]
  exact TypeGraph.has_iff_typeAt?.mpr ⟨level, next, hnext⟩

/-- Only creations are served beside an initial document and not without it. -/
theorem served_or_isCreation {kind : OperationKind} (served : operation ∈ stage'.served kind) :
    operation ∈ stage.served kind ∨ operation.isCreation = true := by
  have hconfig := config_beside h h' hstage hstage' schema
  obtain ⟨hkind, henabled, hneeds⟩ := Stage.mem_served.mp served
  rw [schema] at hneeds
  rw [hconfig] at henabled
  refine or_iff_not_imp_right.mpr fun hother ↦ Stage.mem_served.mpr ⟨hkind, henabled, ?_⟩
  intro typeName hneed
  have hhas := hneeds typeName hneed
  rcases List.mem_cons.mp hneed with rfl | hinput
  · exact has_object h hstage (hconfig ▸ object_enabled h' hstage' hhas)
  · cases operation with
    | query => cases hinput
    | mutation action target =>
      cases action with
      | create => exact absurd rfl hother
      | update =>
        obtain rfl : typeName = inputTypeName .update stage.schema.resource := by
          simpa [Operation.inputType?, Action.input?] using hinput
        exact has_updateInput h hstage (hconfig ▸ input_enabled h' hstage' hhas)
      | delete => cases hinput

end Beside

/-! ## Runs -/

/-- What the document of a run says of a type of a resource it says of a type of the graph. -/
theorem Ran.exists_type (ran : compiler.Ran schemas [] compiled stages) (hstage : stage ∈ stages)
    {definition : Definition} {kind : TypeKind} (mem : definition ∈ compiled.document)
    (owned : definition.resource = some stage.schema.resource)
    (named : kind.Names definition.name) : ∃ (level : Nat) (node : TypeNode),
      (definition.name, node) ∈ stage.graph.levels[level]?.getD [] ∧
        definition.fields.map (·.name) = node.fields.keys := by
  rw [ran.document] at mem
  obtain ⟨before, hbefore, heq⟩ := TypeDocument.exists_of_mem_complete mem
  rw [← heq] at owned named ⊢
  rcases hbefore with hdocument | hsupport
  · obtain ⟨other, hother, hmem⟩ := List.mem_flatMap.mp hdocument
    obtain ⟨node, hnode, rfl⟩ := Stage.exists_of_names hmem named
    have hresource : other.schema.resource = stage.schema.resource :=
      (resource_graph ran.staged hother).symm.trans (Option.some.inj owned)
    obtain rfl := ran.eq_of_resource hother hstage hresource
    obtain ⟨level, name, hfound⟩ := TypeGraph.mem_definitions.mp hnode
    have htraced := traced_of_mem ran.staged hother hfound
    obtain rfl := htraced.named
    exact ⟨level, node, hfound, htraced.names_ofNode other.graph.resource⟩
  · cases (TypeDocument.resource_supportDefinitions hsupport).symm.trans owned

theorem Ran.hasField (ran : compiler.Ran schemas initial compiled stages) (hstage : stage ∈ stages)
    (served : operation ∈ stage.served operation.kind) :
    compiled.HasField stage.schema operation := by
  obtain ⟨definition, hmem, hname, howned, hfields⟩ :=
    ran.exists_rootExtension hstage (List.ne_nil_of_mem served)
  refine ⟨definition, hmem, hname, howned, ?_⟩
  rw [hfields]
  exact List.mem_map_of_mem served

/-- A resource resolves the root field of an operation with it if the operation is the last one of the
name. -/
theorem Ran.hasResolver_iff (ran : compiler.Ran schemas initial compiled stages)
    (hstage : stage ∈ stages) : compiled.HasResolver stage.schema operation ↔
      ((stage.served operation.kind).filter fun other ↦
        stage.fieldName other = stage.fieldName operation).getLast? = some operation := by
  rw [← stage.operation?_resolvers compiler.scalars]
  constructor
  · rintro ⟨resolvers, hresolvers, hoperation⟩
    obtain ⟨other, hother, hresource, rfl⟩ := ran.get?_resolvers.mp hresolvers
    obtain rfl := ran.eq_of_resource hother hstage hresource
    exact hoperation
  · exact fun hoperation ↦ ⟨_, ran.get?_resolvers.mpr ⟨stage, hstage, rfl, rfl⟩, hoperation⟩

/-- An initial document does not take away an operation if each type that the operation needs has a field
that the initial document does not define: the operation is given to the resource, has its root field,
and is resolved with it as it is without the initial document. -/
theorem compileAll_operations (compiler : Compiler) (schemas : List ResourceSchema)
    (initial : TypeDocument) (plain extended : CompiledSchema)
    (h : compiler.compileAll schemas [] = .ok plain)
    (h' : compiler.compileAll schemas initial = .ok extended) (schema : ResourceSchema)
    (operation : Operation) (emitted : compiler.Emits [] schemas schema operation)
    (left : ∀ typeName ∈ operation.needs schema.resource, ∃ definition ∈ plain.document,
      definition.name = typeName ∧ definition.resource = some schema.resource ∧
        ∃ field ∈ definition.fields, field.name ∉ initial.typeFields typeName) :
    compiler.Emits initial schemas schema operation ∧ extended.HasField schema operation ∧
      (plain.HasResolver schema operation → extended.HasResolver schema operation) := by
  obtain ⟨stages, ran⟩ := exists_ran h
  obtain ⟨stages', ran'⟩ := exists_ran h'
  obtain ⟨_, hstages, stage, hstage, rfl, hsignature⟩ := emitted
  obtain rfl := Except.ok.inj (hstages.symm.trans ran.staged)
  obtain ⟨stage', hstage', hschema⟩ : ∃ stage' ∈ stages', stage'.schema = stage.schema := by
    have hmem := ran.schema_mem hstage
    rwa [← schemas_stages ran'.staged, List.mem_map] at hmem
  have hserved : operation ∈ stage.served operation.kind :=
    Stage.mem_signatures_operations.mp hsignature
  obtain ⟨hkind, henabled, -⟩ := Stage.mem_served.mp hserved
  have hconfig := config_beside ran.staged ran'.staged hstage hstage' hschema
  have hserved' : operation ∈ stage'.served operation.kind := by
    refine Stage.mem_served.mpr ⟨hkind, hconfig.symm ▸ henabled, fun typeName hneed ↦ ?_⟩
    rw [hschema] at hneed
    obtain ⟨kind, hnames⟩ := Operation.names_of_mem_needs hneed
    obtain ⟨definition, hdefinition, rfl, howned, field, hfield, hundefined⟩ := left typeName hneed
    obtain ⟨level, node, hnode, hkeys⟩ := ran.exists_type hstage hdefinition howned hnames
    have hholds : field.name ∈ node.fields.keys := hkeys ▸ List.mem_map_of_mem hfield
    exact has_beside ran.staged ran'.staged hstage hstage' hschema hnode hholds hundefined
  have hsignature' : stage.schema.names.signature operation ∈ stage'.operations.signatures := by
    rw [← hschema]
    exact Stage.mem_signatures_operations.mpr hserved'
  refine ⟨⟨stages', ran'.staged, stage', hstage', hschema, hsignature'⟩,
    hschema ▸ ran'.hasField hstage' hserved', fun hresolver ↦ ?_⟩
  rw [← hschema, ran'.hasResolver_iff hstage']
  have hlast := (ran.hasResolver_iff hstage).mp hresolver
  have hfieldName : stage'.fieldName operation = stage.fieldName operation := by
    unfold Stage.fieldName Stage.names
    rw [hschema]
  rw [hfieldName]
  exact Stage.getLast?_served hschema hconfig
    (fun other ↦ served_or_isCreation ran.staged ran'.staged hstage hstage' hschema) hserved' hlast

/-- The initial document defines both fields of the type of users, so generation drops the type, and the
query for a user with it. -/
theorem compileAll_operations_defined :
    let user : ResourceSchema := ⟨"User", ⟨none, [("name", .primitive "String")], []⟩, [], [], none⟩
    let initial : TypeDocument := [{ Definition.new "MixedUserObject" .object with
      fields := [.new "id" "ID!", .new "name" "String"] }]
    let wholes : GenerationConfig := ⟨fun leaf ↦ leaf matches .object .mixed | .query _ .mixed .whole⟩
    let operation : Operation := .query .byId .mixed .whole
    ∃ plain extended, compileAll ⟨wholes, ⟨[]⟩⟩ [user] [] = .ok plain ∧
      compileAll ⟨wholes, ⟨[]⟩⟩ [user] initial = .ok extended ∧
      plain.HasField user operation ∧ plain.HasResolver user operation ∧
      ¬extended.HasField user operation ∧ ¬extended.HasResolver user operation := by
  intro user initial wholes operation
  obtain ⟨plain, hplain, hhas⟩ : ∃ plain, compileAll ⟨wholes, ⟨[]⟩⟩ [user] [] = .ok plain ∧
      (decide (plain.HasField user operation) && decide (plain.HasResolver user operation)) = true :=
    Except.exists_of_passes (by decide +kernel)
  obtain ⟨extended, hextended, hlacks⟩ :
      ∃ extended, compileAll ⟨wholes, ⟨[]⟩⟩ [user] initial = .ok extended ∧
        (!decide (extended.HasField user operation) &&
          !decide (extended.HasResolver user operation)) = true :=
    Except.exists_of_passes (by decide +kernel)
  simp only [Bool.and_eq_true, Bool.not_eq_true', decide_eq_true_iff, decide_eq_false_iff_not]
    at hhas hlacks
  exact ⟨plain, extended, hplain, hextended, hhas.1, hhas.2, hlacks.1, hlacks.2⟩

/-- The initial document defines the name of users, and leaves their identifier to generation. -/
theorem compileAll_operations_users :
    let user : ResourceSchema := ⟨"User", ⟨none, [("name", .primitive "String")], []⟩, [], [], none⟩
    let initial : TypeDocument := [{ Definition.new "MixedUserObject" .object with
      fields := [.new "name" "String"] }]
    let wholes : GenerationConfig := ⟨fun leaf ↦ leaf matches .object .mixed | .query _ .mixed .whole⟩
    let operation : Operation := .query .byId .mixed .whole
    ∃ plain extended, compileAll ⟨wholes, ⟨[]⟩⟩ [user] [] = .ok plain ∧
      compileAll ⟨wholes, ⟨[]⟩⟩ [user] initial = .ok extended ∧
      Emits ⟨wholes, ⟨[]⟩⟩ [] [user] user operation ∧
      Emits ⟨wholes, ⟨[]⟩⟩ initial [user] user operation ∧ extended.HasField user operation ∧
      extended.HasResolver user operation := by
  intro user initial wholes operation
  obtain ⟨plain, hplain, hhas⟩ : ∃ plain, compileAll ⟨wholes, ⟨[]⟩⟩ [user] [] = .ok plain ∧
      (decide (plain.HasResolver user operation) &&
        decide (∀ typeName ∈ operation.needs user.resource, ∃ definition ∈ plain.document,
          definition.name = typeName ∧ definition.resource = some user.resource ∧
            ∃ field ∈ definition.fields, field.name ∉ initial.typeFields typeName)) = true :=
    Except.exists_of_passes (by decide +kernel)
  obtain ⟨emitted, hstages, hemits⟩ :
      ∃ emitted, Compiler.stages ⟨wholes, ⟨[]⟩⟩ [] [user] = .ok emitted ∧
        decide (∃ stage ∈ emitted, user.names.signature operation ∈ stage.operations.signatures) =
          true :=
    Except.exists_of_passes (by decide +kernel)
  obtain ⟨extended, hextended, -⟩ :
      ∃ extended, compileAll ⟨wholes, ⟨[]⟩⟩ [user] initial = .ok extended ∧ true = true :=
    Except.exists_of_passes (by decide +kernel)
  simp only [Bool.and_eq_true, decide_eq_true_iff] at hhas hemits
  obtain ⟨hresolver, hleft⟩ := hhas
  obtain ⟨stage, hstage, hsignature⟩ := hemits
  have hschema : stage.schema = user := List.mem_singleton.mp (schema_mem hstages hstage)
  have hemitted : Emits ⟨wholes, ⟨[]⟩⟩ [] [user] user operation :=
    ⟨emitted, hstages, stage, hstage, hschema, hsignature⟩
  obtain ⟨hkept, hfield, hresolves⟩ := compileAll_operations _ _ initial plain extended hplain
    hextended user operation hemitted hleft
  exact ⟨plain, extended, hplain, hextended, hemitted, hkept, hfield, hresolves hresolver⟩

end Compiler
end ResourceApi

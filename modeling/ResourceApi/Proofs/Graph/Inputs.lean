import ResourceApi.Proofs.Graph.Extension
import ResourceApi.Proofs.Graph.Root

/-!
# The create input of the root

An input without fields is dropped, and the create input has no identifier that would save it.  A nested
object is written into an input only if its own input has fields, so what an input needs is a field at
the end of some path that is no nested object, and that every configuration on the path lets the action
see.  With such a field all inputs on the path are filled from its end to the root; and if any create
input of a graph has fields, then some field is of this kind, and the root has its create input too.
-/

namespace ResourceApi.Synthesis

variable {scalars : ScalarRegistry} {start position : Position} {builder next : GraphBuilder}
  {field : ClassifiedField} {options : FieldConfig} {level : Nat} {name typeName : String}
  {action : InputAction} {node : TypeNode} {held : FieldNode} {schema : ResourceSchema}
  {config : GenerationConfig} {graph : TypeGraph}

/-- The position, or one below it, declares a field that is no nested object, and every configuration on
the way to the field enables the action. -/
def Position.Supplies (scalars : ScalarRegistry) (position : Position) (action : InputAction) : Prop :=
  ∃ (holder : Position) (field : ClassifiedField) (options : FieldConfig),
    holder.Below scalars position ∧ holder.Declares scalars field options ∧
      field.kind.isObject = false ∧ ∀ config ∈ holder.fieldPath options, config.input action = true

/-! ## Inputs with fields are available -/

theorem fields_ne_nil (input : node.kind = .input action) (filled : node.isEmpty = false) :
    node.fields ≠ [] := by
  intro hnil
  simp [TypeNode.isEmpty, input, hnil] at filled

theorem Holds.isAvailable {fieldName : String} (h : Holds builder level name fieldName)
    (built : Built scalars start builder) (names : (TypeKind.input action).Names name) :
    builder.isAvailable level name = true := by
  obtain ⟨holder, hholder, -, -⟩ := h.finish built names ⟨by simp, by simp⟩
  obtain ⟨hget, hfilled⟩ := built.typeAt?_finish.mp hholder
  unfold GraphBuilder.isAvailable
  rw [hget]
  simp [hfilled]

theorem Built.exists_fields (built : Built scalars start builder)
    (available : builder.isAvailable level name = true)
    (names : (TypeKind.input action).Names name) :
    ∃ node, builder.get? level name = some node ∧ node.fields ≠ [] := by
  obtain ⟨node, hnode⟩ := built.exists_of_isAvailable available
  obtain ⟨hget, hfilled⟩ := built.typeAt?_finish.mp hnode
  exact ⟨node, hget, fields_ne_nil ((built.types level name node hget).kind.unique names) hfilled⟩

/-! ## From a field up to the root -/

/-- A declared field that an action sees is in the input of its node after the node is walked, if there is
something to write as soon as the nested node has been walked. -/
theorem holds_input_of_turn (below : position.Below scalars start)
    (declared : position.Declares scalars field options)
    (visible : (Visibility.under (position.fieldPath options)).input action = true)
    (built : Built scalars start builder) (walk : position.walk scalars builder = .ok next)
    (links : ∀ before walked, Built scalars start before →
      position.WalksNested scalars field options before walked → ∀ turn, walked.Grows turn →
        ∃ node, inputField? position.level field options turn action = some node) :
    Holds next position.level (inputTypeName action position.typeName) field.name := by
  obtain ⟨before, walked, hbefore, hnested, hafter⟩ := Position.walk_turn below declared walk
  obtain ⟨holder, hholder⟩ := exists_input_openNode below (input_path_of_fieldPath visible) builder
  have hsteps : Steps scalars start before walked := hnested.steps (fun child hchild _ _ hwalk ↦
    Position.walk_steps (Relation.ReflTransGen.tail below hchild) hwalk) declared
  obtain ⟨later, hlater, -⟩ := (Steps.grows (hbefore.trans hsteps)).types _ _ _ hholder
  have hbuilt := Steps.built ((openNode_steps below builder).trans hbefore) built
  have hexisting : walked.existing = [] := (Steps.built hsteps hbuilt).existing
  exact (holds_input_writeField below declared visible (links before walked hbuilt hnested) hexisting
    hlater).later (Steps.grows hafter)

/-- The walk of a node that supplies an action leaves a field in its input. -/
theorem Position.Supplies.exists_holds (h : position.Supplies scalars action)
    (below : position.Below scalars start) (built : Built scalars start builder)
    (walk : position.walk scalars builder = .ok next) :
    ∃ fieldName, Holds next position.level (inputTypeName action position.typeName) fieldName := by
  obtain ⟨holder, field, options, hholder, declared, leaf, visible⟩ := h
  -- from the field to the root: the input of a nested node is filled before its field is written
  induction hholder using Relation.ReflTransGen.head_induction_on generalizing builder next with
  | refl =>
    exact ⟨_, holds_input_of_turn below declared (input_under_iff.mpr visible) built walk
      fun _ _ _ _ turn _ ↦ exists_inputField? leaf _ options turn action⟩
  | @head position child hchild hholder ih =>
    have hbelow : child.Below scalars start := Relation.ReflTransGen.tail below hchild
    have hpath : child.path ⊆ holder.fieldPath options := fun config hconfig ↦
      List.mem_append_left _ (Position.Below.path_subset hholder hconfig)
    obtain ⟨declared', kind, resolved⟩ := hchild
    refine ⟨_, holds_input_of_turn below declared' (input_under_iff.mpr fun config hconfig ↦
      visible config (hpath (List.mem_append_left _ hconfig))) built walk
      fun before walked hbuilt hnested turn hgrows ↦ ?_⟩
    rcases hnested with ⟨hleaf, -⟩ | ⟨child', config', hkind', hresolved', hwalk⟩
    · rw [kind] at hleaf
      cases hleaf
    · obtain rfl := FieldKind.object.inj (kind.symm.trans hkind')
      obtain rfl := Except.ok.inj (resolved.symm.trans hresolved')
      obtain ⟨fieldName, hholds⟩ := ih hbelow hbuilt hwalk
      have hwalked := Steps.built (Position.walk_steps hbelow hwalk) hbuilt
      have havailable := hgrows.isAvailable (hholds.isAvailable hwalked (TypeKind.names_input action _))
      exact Option.isSome_iff_exists.mp (by
        rw [isSome_inputField?]
        exact Bool.or_eq_true_iff.mpr (.inr havailable))

/-! ## From a create input to a field -/

/-- A create input with fields means that the start supplies creations. -/
def CreationsSupplied (scalars : ScalarRegistry) (start : Position) (builder : GraphBuilder) : Prop :=
  ∀ level name node, (TypeKind.input .create).Names name → builder.get? level name = some node →
    node.fields ≠ [] → start.Supplies scalars .create

/-- A field is written into a create input as a leaf of the model, or because another create input has
fields already. -/
theorem Writes.supplies (h : Writes scalars start builder level name held)
    (names : (TypeKind.input .create).Names name) (built : Built scalars start builder)
    (supplied : CreationsSupplied scalars start builder) : start.Supplies scalars .create := by
  cases h with
  | objectIdentifier => cases names.unique (TypeKind.names_object ..)
  | object => cases names.unique (TypeKind.names_object ..)
  | interface => cases names.unique (TypeKind.names_interface _)
  | inputIdentifier => cases names.unique (TypeKind.names_input ..)
  | @input position field options action node below declared visible enumOpen found =>
    obtain rfl : InputAction.create = action :=
      TypeKind.input.inj (names.unique (TypeKind.names_input ..))
    cases hobject : field.kind.isObject with
    | false => exact ⟨position, field, options, below, declared, hobject, input_under_iff.mp visible⟩
    | true =>
      have hsome := isSome_inputField? position.level field options builder .create
      have havailable :
          builder.isAvailable (position.level + 1) (inputTypeName .create field.target) = true := by
        cases hkind : field.kind <;>
          simp_all [FieldKind.isObject, FieldKind.isReference, leafLink]
      obtain ⟨nested, hnested, hfilled⟩ :=
        built.exists_fields havailable (TypeKind.names_input .create field.target)
      exact supplied _ _ nested (TypeKind.names_input .create field.target) hnested hfilled

theorem Comes.supplies (h : Comes scalars start builder level name node)
    (names : (TypeKind.input .create).Names name) (filled : node.fields ≠ [])
    (built : Built scalars start builder) (supplied : CreationsSupplied scalars start builder) :
    start.Supplies scalars .create := by
  cases h with
  | unchanged found => exact supplied _ _ _ names found filled
  | opened => exact absurd rfl filled
  | labelled below found => exact supplied _ _ _ names found filled
  | field found writes => exact writes.supplies names built supplied
  | members below found => exact supplied _ _ _ names found filled
  | values below declared kind found => exact supplied _ _ _ names found filled

theorem Steps.creationsSupplied (h : Steps scalars start builder next)
    (built : Built scalars start builder) (supplied : CreationsSupplied scalars start builder) :
    CreationsSupplied scalars start next := by
  induction h with
  | refl => exact supplied
  | tail hsteps hstep ih =>
    intro level name node names hnode filled
    exact (hstep.comes hnode).supplies names filled (Steps.built hsteps built) ih

/-! ## Finished graphs -/

/-- Where a graph has any create input, there is a field that supplies it. -/
theorem supplies_of_has (h : TypeGraph.ofSchema scalars schema config [] = .ok graph)
    (has : graph.has (inputTypeName .create typeName) = true) :
    (Position.root schema config).Supplies scalars .create := by
  obtain ⟨level, node, hnode⟩ := TypeGraph.has_iff_typeAt?.mp has
  obtain ⟨builder, hwalk, hbuilt, rfl⟩ := ofSchema_built h
  obtain ⟨hget, hfilled⟩ := hbuilt.typeAt?_finish.mp hnode
  have hsteps : Steps scalars (.root schema config) _ builder := Position.walk_steps .refl hwalk
  have hnames := TypeKind.names_input .create typeName
  have hfields := fields_ne_nil ((hbuilt.types level _ node hget).kind.unique hnames) hfilled
  exact Steps.creationsSupplied hsteps (built_new ..) (fun _ _ _ _ h ↦ nomatch h) level _ node hnames
    hget hfields

/-- The create input of the root stands in the graph, with a field, exactly if a field supplies it. -/
theorem exists_createInput_iff (h : TypeGraph.ofSchema scalars schema config [] = .ok graph) :
    (∃ input, graph.typeAt? 0 (inputTypeName .create schema.resource) = some input ∧
        input.fields ≠ []) ↔
      (Position.root schema config).Supplies scalars .create := by
  constructor
  · rintro ⟨input, hinput, -⟩
    exact supplies_of_has h (TypeGraph.has_iff_typeAt?.mpr ⟨0, input, hinput⟩)
  · intro hsupplies
    obtain ⟨builder, hwalk, hbuilt, rfl⟩ := ofSchema_built h
    obtain ⟨fieldName, hholds⟩ := hsupplies.exists_holds .refl (built_new ..) hwalk
    obtain ⟨input, hinput, -, hfield⟩ :=
      hholds.finish hbuilt (TypeKind.names_input .create _) ⟨by simp, by simp⟩
    refine ⟨input, hinput, fun hnil ↦ ?_⟩
    rw [hnil] at hfield
    cases hfield

end ResourceApi.Synthesis

import ResourceApi.Proofs.Compilation.Stages
import ResourceApi.Proofs.Graph.Interface
import ResourceApi.Proofs.Options.Nullability

/-!
# Shapes of fields

A field carries its type three times: as text, as the number of lists around the named type, and as a
nullability vector.  They agree in every graph, also after references that lead nowhere have become
identifiers; and the shape of a field is the one that its declaration and its options ask for in the type
that holds it.
-/

namespace ResourceApi

/-! ## Declarations -/

/-- The number of lists around the innermost declaration. -/
def FieldSpec.layers : FieldSpec → Nat
  | .list [inner] => inner.layers + 1
  | _ => 0

/-- The innermost declaration is marked as required; what is no table is not. -/
def FieldSpec.required : FieldSpec → Bool
  | .list [inner] => inner.required
  | .attributes table => table.required
  | _ => false

/-- The options of the innermost declaration. -/
def FieldSpec.options : FieldSpec → Json
  | .list [inner] => inner.options
  | .attributes table => table.options
  | _ => .null

theorem ClassifiedField.shape_of_classifyAt {parent name : String} {scalars : ScalarRegistry}
    {depth : Nat} {spec : FieldSpec} {field : ClassifiedField}
    (h : classifyAt parent name scalars depth spec = .ok field) :
    field.depth = depth + spec.layers ∧ field.required = spec.required ∧
      field.options = spec.options := by
  induction depth, spec using classifyAt.induct with
  | case1 depth inner ih =>
    obtain ⟨hdepth, hrequired, hoptions⟩ := ih (by simpa only [classifyAt] using h)
    refine ⟨?_, hrequired, hoptions⟩
    rw [hdepth, FieldSpec.layers]
    omega
  | case2 depth items hitems =>
    rw [classifyAt.eq_2 _ _ _ _ _ hitems] at h
    cases h
  | case3 depth primitive =>
    unfold classifyAt at h
    obtain ⟨scalar, -, hok⟩ := Except.bind_eq_ok_iff.mp h
    cases hok
    exact ⟨rfl, rfl, rfl⟩
  | case4 depth table =>
    unfold classifyAt at h
    obtain ⟨⟨kind, target⟩, -, hok⟩ := Except.bind_eq_ok_iff.mp h
    cases hok
    exact ⟨rfl, rfl, rfl⟩

namespace Synthesis

open NullableVectors (givenObject givenInput)

variable {scalars : ScalarRegistry} {start position : Position} {builder : GraphBuilder}
  {field : ClassifiedField} {options : FieldConfig} {level : Nat} {name : String}
  {node held : FieldNode}

/-! ## Places of a field -/

/-- The types of a node that hold a field.  An interface takes the nullability that the field has for a
segment. -/
inductive Place where
  | object (segment : Segment)
  | input (action : InputAction)
  | interface (segment : Segment)

namespace Place

def typeName (base : String) : Place → String
  | .object segment => objectTypeName segment base
  | .input action => inputTypeName action base
  | .interface _ => interfaceTypeName base

/-- The vector that the options of a field give for the type. -/
def given (options : Json) : Place → List Bool
  | .object segment | .interface segment => givenObject (options.get "nullable") segment
  | .input action => givenInput (options.get "nullable") action

/-- The vector that the resolved options of a field have for the type. -/
def vector (options : FieldConfig) : Place → List Bool
  | .object segment | .interface segment => options.nullable.object segment
  | .input action => options.nullable.input action

/-- Where nothing is given, no list is nullable in types that are read, and the named type is unless the
field is required; an input that creates asks for required fields at every level, and one that updates for
nothing. -/
def byDefault (required innermost : Bool) : Place → Bool
  | .object _ | .interface _ => innermost && !required
  | .input .create => !required
  | .input .update => true

end Place

/-- The field has a level for each list of its declaration and one for the named type, and each level is
nullable as given, or else by default. -/
structure ShapedAs (spec : FieldSpec) (place : Place) (held : FieldNode) : Prop where
  depth : held.depth = spec.layers
  length : held.nullable.length = spec.layers + 1
  nullable : ∀ level ≤ spec.layers, held.nullable[level]? = some
    ((place.given spec.options)[level]?.getD (place.byDefault spec.required (level == spec.layers)))

/-- What a field of a type is written for: it is the identifier of the root node, or a node of the level
that the type belongs to declares it.  The interface takes its nullability for the first segment that
sees the field. -/
inductive Written (scalars : ScalarRegistry) (start : Position) (level : Nat) (name : String)
    (held : FieldNode) : Prop
  | identifier (outermost : level = 0) (same : held = idField)
  | declared {position : Position} {spec : FieldSpec} {field : ClassifiedField}
      {options : FieldConfig} {place : Place} (below : position.Below scalars start)
      (leveled : position.level = level) (member : (held.name, spec) ∈ position.node.fields)
      (classified : ClassifiedField.classify position.typeName held.name scalars spec = .ok field)
      (resolved : FieldConfig.resolve field.options position.config field.depth field.required
        field.kind.isReference = .ok options)
      (named : name = place.typeName position.typeName)
      (first : ∀ segment, place = .interface segment →
        (position.seenBy options).head? = some segment)
      (shaped : ShapedAs spec place held)

/-! ## Fields that are written -/

theorem Links.depth (h : Links level field options builder node) :
    node.depth = node.nullable.length - 1 := by
  cases h <;> rfl

theorem nullable_of_objectField? {segment : Segment}
    (h : objectField? level field options builder segment = some node) :
    node.nullable = options.nullable.object segment := by
  unfold objectField? at h
  grind [FieldNode.leaf, FieldNode.toObject]

theorem nullable_of_inputField? {action : InputAction}
    (h : inputField? level field options builder action = some node) :
    node.nullable = options.nullable.input action := by
  unfold inputField? at h
  grind [FieldNode.leaf]

theorem nullable_of_interfaceField? {nullable : List Bool}
    (h : interfaceField? level field options builder nullable = some node) :
    node.nullable = nullable := by
  unfold interfaceField? at h
  grind [FieldNode.leaf]

theorem shapedAs_of_pad {spec : FieldSpec} {place : Place} {list innermost : Bool}
    (depth : held.depth = held.nullable.length - 1)
    (nullable : held.nullable = padVector (place.given spec.options) spec.layers list innermost)
    (default : ∀ last, place.byDefault spec.required last = if last then innermost else list) :
    ShapedAs spec place held where
  depth := by rw [depth, nullable, length_padVector, Nat.add_sub_cancel]
  length := by rw [nullable, length_padVector]
  nullable level hlevel := by
    rw [nullable, getElem?_padVector hlevel, default]

/-- A field with the vector that its options have for a type is shaped as its declaration asks for. -/
theorem shapedAs_of_vector {parent name : String} {spec : FieldSpec} {config : GenerationConfig}
    {place : Place} (classified : ClassifiedField.classify parent name scalars spec = .ok field)
    (resolved : FieldConfig.resolve field.options config field.depth field.required
      field.kind.isReference = .ok options)
    (depth : held.depth = held.nullable.length - 1) (nullable : held.nullable = place.vector options) :
    ShapedAs spec place held := by
  obtain ⟨hdepth, hrequired, hoptions⟩ := ClassifiedField.shape_of_classifyAt classified
  have hread := FieldConfig.nullable_of_resolve resolved
  rw [hdepth, hrequired, hoptions, Nat.zero_add] at hread
  obtain ⟨hobject, hinput⟩ := NullableVectors.eq_pad_of_read hread
  cases place with
  | object segment | interface segment =>
    refine shapedAs_of_pad depth (nullable.trans (hobject segment)) fun last ↦ ?_
    cases last <;> rfl
  | input action =>
    cases action with
    | create | update =>
      refine shapedAs_of_pad depth (nullable.trans (hinput _)) fun last ↦ ?_
      cases last <;> rfl

/-- A field that a declaration is written as has the shape that the declaration asks for. -/
theorem Links.written (h : Links position.level field options builder node) (place : Place)
    (below : position.Below scalars start) (declared : position.Declares scalars field options)
    (nullable : node.nullable = place.vector options)
    (first : ∀ segment, place = .interface segment →
      (position.seenBy options).head? = some segment) :
    Written scalars start position.level (place.typeName position.typeName)
      { node with description := field.description } := by
  obtain ⟨spec, hmem, hclassify, hresolve⟩ := declared
  rw [← h.name] at hmem hclassify
  exact .declared below rfl hmem hclassify hresolve rfl first
    (shapedAs_of_vector hclassify hresolve h.depth nullable)

theorem Writes.written (h : Writes scalars start builder level name held) :
    Written scalars start level name held := by
  cases h with
  | objectIdentifier below visible outermost => exact .identifier outermost rfl
  | inputIdentifier below visible outermost => exact .identifier outermost rfl
  | object below declared visible enumOpen found =>
    exact (links_of_objectField? found).written (.object _) below declared
      (nullable_of_objectField? found) nofun
  | input below declared visible enumOpen found =>
    exact (links_of_inputField? found).written (.input _) below declared
      (nullable_of_inputField? found) nofun
  | interface below declared enabled visible partly enumOpen found =>
    refine (links_of_interfaceField? found).written (.interface _) below declared
      (nullable_of_interfaceField? found) fun segment hsegment ↦ ?_
    cases hsegment
    exact congrArg List.head? visible

/-! ## Retargeted fields -/

theorem Written.retargetField (h : Written scalars start level name held) (known : List String) :
    Written scalars start level name (Stage.retargetField known held) := by
  have hkept : (Stage.retargetField known held).depth = held.depth ∧
      (Stage.retargetField known held).nullable = held.nullable := by
    unfold Stage.retargetField
    split <;> exact ⟨rfl, rfl⟩
  cases h with
  | identifier outermost same =>
    subst same
    exact .identifier outermost rfl
  | declared below leveled member classified resolved named first shaped =>
    rw [← Stage.name_retargetField known held] at member classified
    exact .declared below leveled member classified resolved named first
      ⟨hkept.1.trans shaped.depth, hkept.2 ▸ shaped.length, hkept.2 ▸ shaped.nullable⟩

theorem Written.length_nullable (h : Written scalars start level name held) :
    held.nullable.length = held.depth + 1 := by
  cases h with
  | identifier outermost same => rw [same]; rfl
  | declared below leveled member classified resolved named first shaped =>
    rw [shaped.length, shaped.depth]

/-! ## Finished graphs -/

/-- In the graph of a resource, before and after retargeting, every field of every type is written as its
named type and its nullability say, with one entry more than there are lists; and it is the identifier of
the root, or it has the shape that a declaration for the type asks for. -/
theorem ofSchema_shaped (scalars : ScalarRegistry) (schema : ResourceSchema)
    (config : GenerationConfig) (existing : Entries (List String)) (graph : TypeGraph)
    (h : TypeGraph.ofSchema scalars schema config existing = .ok graph) (known : List String) :
    ∀ finished ∈ [graph, (Stage.retarget known ⟨schema, config, graph⟩).graph],
      ∀ (level : Nat) (name : String) (node : TypeNode),
        (name, node) ∈ finished.levels[level]?.getD [] → ∀ entry ∈ node.fields,
          entry.2.decorated = decorate entry.2.typeName entry.2.nullable ∧
          entry.2.nullable.length = entry.2.depth + 1 ∧
          Written scalars (.root schema config) level name entry.2 := by
  obtain ⟨builder, -, htraced, -, rfl⟩ := ofSchema_traced h
  have hfield : ∀ (level : Nat) (name : String) (node : TypeNode),
      (name, node) ∈ builder.finish.levels[level]?.getD [] → ∀ entry ∈ node.fields,
        entry.2.decorated = decorate entry.2.typeName entry.2.nullable ∧
        Written scalars (.root schema config) level name entry.2 := by
    intro level name node hnode entry hentry
    obtain ⟨-, before, -, hwrites⟩ :=
      (htraced.types _ _ _ (htraced.get?_of_mem_finish hnode)).fields entry hentry
    exact ⟨hwrites.decorated, hwrites.written⟩
  intro finished hfinished level name node hnode entry hentry
  rcases List.mem_pair.mp hfinished with rfl | rfl
  · obtain ⟨hdecorated, hwritten⟩ := hfield level name node hnode entry hentry
    exact ⟨hdecorated, hwritten.length_nullable, hwritten⟩
  · change (name, node) ∈ (builder.finish.mapFields (Stage.retargetField known)).levels[level]?.getD []
      at hnode
    rw [TypeGraph.getD_mapFields] at hnode
    obtain ⟨⟨key, before⟩, hbefore, heq⟩ := List.mem_map.mp hnode
    obtain ⟨rfl, rfl⟩ := Prod.mk.inj heq
    obtain ⟨field, hmem, hretargeted⟩ := TypeNode.mem_mapFields hentry
    obtain ⟨hdecorated, hwritten⟩ := hfield level key before hbefore _ hmem
    rw [hretargeted]
    exact ⟨Stage.decorated_retargetField known hdecorated, (hwritten.retargetField known).length_nullable,
      hwritten.retargetField known⟩

/-- Users with a list of tags that object types may leave out: the tags of one's own user are a list that
is nullable as given, of required texts. -/
theorem ofSchema_shaped_users :
    let options : Json := .obj [("nullable", .obj [("object", .arr [.bool true])])]
    let tags : FieldAttributes :=
      ⟨some "String", none, none, none, none, true, none, none, options⟩
    let schema : ResourceSchema :=
      ⟨"User", ⟨none, [("tags", .list [.attributes tags])], []⟩, [], [], none⟩
    ∃ graph node held, TypeGraph.ofSchema ⟨[]⟩ schema .full [] = .ok graph ∧
      ("SelfUserObject", node) ∈ graph.levels[0]?.getD [] ∧ ("tags", held) ∈ node.fields ∧
      held.decorated = "[String!]" ∧ held.nullable.length = held.depth + 1 := by
  intro options tags schema
  have hfield : Except.passes (fun graph ↦
      ((graph.typeAt? 0 "SelfUserObject").bind (·.fields.get? "tags")).any
        (·.decorated == "[String!]")) (TypeGraph.ofSchema ⟨[]⟩ schema .full []) = true := by
    decide +kernel
  obtain ⟨graph, hgraph, hheld⟩ := Except.exists_of_passes hfield
  obtain ⟨held, hheld, htext⟩ := (Option.any_eq_true _ _).mp hheld
  obtain ⟨node, hnode, hheld⟩ := Option.bind_eq_some_iff.mp hheld
  have hmem := Entries.mem_of_get? hnode
  obtain ⟨-, hlength, -⟩ := ofSchema_shaped ⟨[]⟩ schema .full [] graph hgraph [] graph
    List.mem_cons_self 0 "SelfUserObject" node hmem ("tags", held) (Entries.mem_of_get? hheld)
  exact ⟨graph, node, held, hgraph, hmem, Entries.mem_of_get? hheld, eq_of_beq htext, hlength⟩

end Synthesis
end ResourceApi

import Mathlib.Logic.Relation
import ResourceApi.Graph.Synthesis
import ResourceApi.Proofs.Graph.Builder
import ResourceApi.Proofs.Graph.Names
import ResourceApi.Proofs.Model.Nesting

/-!
# Steps of the walk over a model

A position is a node where the walk meets it, with the configurations of everything that leads there.
`Step` says once what the walk can do to a builder, and for what reason: it opens a type of a position,
labels an object type, or writes a field, a member or a value that a position asks for.
-/

namespace ResourceApi

/-! ## Positions -/

/-- What the configurations on a path leave visible: that which all of them enable. -/
def Visibility.under (configs : List GenerationConfig) : Visibility :=
  ⟨fun segment ↦ configs.all (·.object segment), fun action ↦ configs.all (·.input action)⟩

theorem Visibility.restrict_under (configs : List GenerationConfig) (config : GenerationConfig) :
    (under configs).restrict config = under (configs ++ [config]) := by
  simp [restrict, under]

theorem Visibility.mem_segments {visible : Visibility} {segment : Segment} :
    segment ∈ visible.segments ↔ visible.object segment = true := by
  cases segment <;> simp [segments, Segment.all]

theorem Visibility.mem_inputs {visible : Visibility} {action : InputAction} :
    action ∈ visible.inputs ↔ visible.input action = true := by
  cases action <;> simp [inputs, InputAction.all]

namespace Synthesis

/-- A node where the walk meets it.  `above` are the configurations of the nodes and fields that lead to
it, from the root on. -/
structure Position where
  level : Nat
  typeName : String
  node : SchemaNode
  config : GenerationConfig
  above : List GenerationConfig

namespace Position

/-- The configurations from the root to the node itself. -/
def path (position : Position) : List GenerationConfig := position.above ++ [position.config]

/-- The position of the root node of a resource. -/
def root (schema : ResourceSchema) (config : GenerationConfig) : Position :=
  ⟨0, schema.resource, schema.node, config, []⟩

/-- The configurations from the root to a field of the node. -/
def fieldPath (position : Position) (options : FieldConfig) : List GenerationConfig :=
  position.path ++ [options.config]

/-- The node declares the field, and its options resolve. -/
def Declares (scalars : ScalarRegistry) (position : Position) (field : ClassifiedField)
    (options : FieldConfig) : Prop :=
  ∃ spec, (field.name, spec) ∈ position.node.fields ∧
    ClassifiedField.classify position.typeName field.name scalars spec = .ok field ∧
    FieldConfig.resolve field.options position.config field.depth field.required
      field.kind.isReference = .ok options

/-- The position of a node that is nested in a field. -/
def nested (position : Position) (field : ClassifiedField) (options : FieldConfig)
    (child : SchemaNode) (config : GenerationConfig) : Position :=
  ⟨position.level + 1, field.target, child, config, position.fieldPath options⟩

/-- The second position is that of a node nested in a field of the first. -/
inductive Child (scalars : ScalarRegistry) (position : Position) : Position → Prop
  | intro {field : ClassifiedField} {options : FieldConfig} {child : SchemaNode}
      {config : GenerationConfig} (declared : position.Declares scalars field options)
      (kind : field.kind = .object child)
      (resolved : GenerationConfig.resolve (child.generate.getD .null) options.config = .ok config) :
      Child scalars position (position.nested field options child config)

/-- The position is another one, or one nested in it. -/
def Below (position : Position) (scalars : ScalarRegistry) (start : Position) : Prop :=
  Relation.ReflTransGen (Child scalars) start position

variable {scalars : ScalarRegistry} {start position : Position}

theorem Below.level_le (h : position.Below scalars start) : start.level ≤ position.level := by
  induction h with
  | refl => exact Nat.le_refl _
  | tail _ hchild ih =>
    cases hchild
    exact Nat.le_succ_of_le ih

/-- No position below another one has its level. -/
theorem Below.eq_of_level (h : position.Below scalars start) (hlevel : position.level = start.level) :
    position = start := by
  rcases Relation.ReflTransGen.cases_tail h with heq | ⟨parent, hparent, hchild⟩
  · exact heq
  · have hle : start.level ≤ parent.level := Below.level_le hparent
    cases hchild
    change parent.level + 1 = start.level at hlevel
    omega

/-- The walk of the node, under what is visible on the way to it. -/
def walk (scalars : ScalarRegistry) (position : Position) (builder : GraphBuilder) :
    Except CompileError GraphBuilder :=
  walkNode scalars position.typeName position.config (.under position.above) position.level builder
    position.node

end Position

/-! ## Steps -/

variable {scalars : ScalarRegistry} {start position : Position} {builder next : GraphBuilder}
  {field : ClassifiedField} {options : FieldConfig}

/-- The types that the walk opens, with their kinds and bases: those of a position that are visible
there, and the enums of its fields. -/
inductive Opens (scalars : ScalarRegistry) (start : Position) :
    Nat → String → TypeKind → String → Prop
  | object {position : Position} {segment : Segment} (below : position.Below scalars start)
      (visible : (Visibility.under position.path).object segment = true) :
      Opens scalars start position.level (objectTypeName segment position.typeName) .object
        position.typeName
  | input {position : Position} {action : InputAction} (below : position.Below scalars start)
      (visible : (Visibility.under position.path).input action = true) :
      Opens scalars start position.level (inputTypeName action position.typeName) (.input action)
        position.typeName
  | interface {position : Position} (below : position.Below scalars start)
      (enabled : position.config.enabled .interface = true) :
      Opens scalars start position.level (interfaceTypeName position.typeName) .interface
        position.typeName
  | union {position : Position} (below : position.Below scalars start)
      (enabled : position.config.enabled .union = true) :
      Opens scalars start position.level (unionTypeName position.typeName) .union position.typeName
  | enumeration {position : Position} {field : ClassifiedField} {options : FieldConfig}
      {values : List String} (below : position.Below scalars start)
      (declared : position.Declares scalars field options) (kind : field.kind = .enumeration values)
      (enabled : options.config.enabled .enumeration = true) :
      Opens scalars start position.level field.target .enumeration position.typeName

theorem Opens.names {level : Nat} {name base : String} {kind : TypeKind}
    (h : Opens scalars start level name kind base) : kind.Names name := by
  cases h with
  | object => exact TypeKind.names_object ..
  | input => exact TypeKind.names_input ..
  | interface => exact TypeKind.names_interface _
  | union => exact TypeKind.names_union _
  | enumeration below declared kind enabled =>
    obtain ⟨spec, -, hclassify, -⟩ := declared
    rw [(ClassifiedField.enumeration_of_classify hclassify kind).1]
    exact names_enumTypeName _ _

/-- The enum of a field, if the field has one, is there with its values. -/
def EnumOpen (level : Nat) (field : ClassifiedField) (options : FieldConfig)
    (builder : GraphBuilder) : Prop :=
  ∀ values, field.kind = .enumeration values → options.config.enabled .enumeration = true →
    ∃ node, builder.get? level field.target = some node ∧ values ⊆ node.values

/-- The fields that a declared field is written as, in types of all kinds: a leaf, a reference or the
identifier in its place, or a field that leads to a nested type that is there. -/
inductive Links (level : Nat) (field : ClassifiedField) (options : FieldConfig)
    (builder : GraphBuilder) : FieldNode → Prop
  | leaf {kind : LinkKind} {target : String} (link : leafLink field options = some (kind, target))
      (nullable : List Bool) :
      Links level field options builder (.leaf field.name kind target nullable)
  | reference (segment : Segment) (nullable : List Bool) :
      Links level field options builder
        (.toObject field.name .reference segment field.target nullable)
  | identifier (nullable : List Bool) :
      Links level field options builder (.leaf field.name .scalar "ID" nullable)
  | object {segment : Segment}
      (available : builder.isAvailable (level + 1) (objectTypeName segment field.target) = true)
      (nullable : List Bool) :
      Links level field options builder (.toObject field.name .object segment field.target nullable)
  | nested {name : String} (available : builder.isAvailable (level + 1) name = true)
      (nullable : List Bool) :
      Links level field options builder (.leaf field.name .object name nullable)

theorem Links.name {level : Nat} {node : FieldNode} (h : Links level field options builder node) :
    node.name = field.name := by
  cases h <;> rfl

/-- The type of a field is written as its named type and its nullability say. -/
theorem Links.decorated {level : Nat} {node : FieldNode} (h : Links level field options builder node) :
    node.decorated = decorate node.typeName node.nullable := by
  cases h <;> rfl

theorem links_of_objectField? {level : Nat} {segment : Segment} {node : FieldNode}
    (h : objectField? level field options builder segment = some node) :
    Links level field options builder node := by
  unfold objectField? at h
  dsimp only at h
  split at h
  · rename_i kind target hlink
    cases h
    exact .leaf hlink _
  · split at h
    · cases h
      exact .reference _ _
    · split at h <;> cases h
      rename_i havailable
      exact .object havailable _

theorem links_of_inputField? {level : Nat} {action : InputAction} {node : FieldNode}
    (h : inputField? level field options builder action = some node) :
    Links level field options builder node := by
  unfold inputField? at h
  dsimp only at h
  split at h
  · rename_i kind target hlink
    cases h
    exact .leaf hlink _
  · split at h
    · cases h
      exact .identifier _
    · split at h <;> cases h
      rename_i havailable
      exact .nested havailable _

theorem links_of_interfaceField? {level : Nat} {nullable : List Bool} {node : FieldNode}
    (h : interfaceField? level field options builder nullable = some node) :
    Links level field options builder node := by
  unfold interfaceField? at h
  dsimp only at h
  split at h
  · rename_i kind target hlink
    cases h
    exact .leaf hlink _
  · split at h
    · cases h
      exact .identifier _
    · split at h <;> cases h
      rename_i havailable
      exact .nested havailable _

/-- The fields that the walk writes, with the types that hold them: the identifiers of root types, and
each declared field as the types of its position hold it. -/
inductive Writes (scalars : ScalarRegistry) (start : Position) (builder : GraphBuilder) :
    Nat → String → FieldNode → Prop
  | objectIdentifier {position : Position} {segment : Segment}
      (below : position.Below scalars start)
      (visible : (Visibility.under position.path).object segment = true)
      (outermost : position.level = 0) :
      Writes scalars start builder position.level (objectTypeName segment position.typeName) idField
  | inputIdentifier {position : Position} (below : position.Below scalars start)
      (visible : (Visibility.under position.path).input .update = true)
      (outermost : position.level = 0) :
      Writes scalars start builder position.level (inputTypeName .update position.typeName) idField
  | object {position : Position} {field : ClassifiedField} {options : FieldConfig}
      {segment : Segment} {node : FieldNode} (below : position.Below scalars start)
      (declared : position.Declares scalars field options)
      (visible : (Visibility.under (position.fieldPath options)).object segment = true)
      (enumOpen : EnumOpen position.level field options builder)
      (found : objectField? position.level field options builder segment = some node) :
      Writes scalars start builder position.level (objectTypeName segment position.typeName)
        { node with description := field.description }
  | input {position : Position} {field : ClassifiedField} {options : FieldConfig}
      {action : InputAction} {node : FieldNode} (below : position.Below scalars start)
      (declared : position.Declares scalars field options)
      (visible : (Visibility.under (position.fieldPath options)).input action = true)
      (enumOpen : EnumOpen position.level field options builder)
      (found : inputField? position.level field options builder action = some node) :
      Writes scalars start builder position.level (inputTypeName action position.typeName)
        { node with description := field.description }
  | interface {position : Position} {field : ClassifiedField} {options : FieldConfig}
      {first : Segment} {rest : List Segment} {node : FieldNode}
      (below : position.Below scalars start) (declared : position.Declares scalars field options)
      (enabled : options.config.enabled .interface = true)
      (visible : (Visibility.under (position.fieldPath options)).segments = first :: rest)
      (partly : rest.length + 1 < Segment.all.length)
      (enumOpen : EnumOpen position.level field options builder)
      (found : interfaceField? position.level field options builder
        (options.nullable.object first) = some node) :
      Writes scalars start builder position.level (interfaceTypeName position.typeName)
        { node with description := field.description }

theorem Writes.decorated {level : Nat} {name : String} {node : FieldNode}
    (h : Writes scalars start builder level name node) :
    node.decorated = decorate node.typeName node.nullable := by
  cases h with
  | objectIdentifier => rfl
  | inputIdentifier => rfl
  | object below declared visible enumOpen found => exact (links_of_objectField? found).decorated
  | input below declared visible enumOpen found => exact (links_of_inputField? found).decorated
  | interface below declared enabled visible partly enumOpen found =>
    exact (links_of_interfaceField? found).decorated

/-- What the walk below `start` does to a builder at a time. -/
inductive Step (scalars : ScalarRegistry) (start : Position) : GraphBuilder → GraphBuilder → Prop
  | ensure {builder : GraphBuilder} {level : Nat} {name base : String} {kind : TypeKind}
      (opens : Opens scalars start level name kind base) :
      Step scalars start builder (builder.ensure level name kind base)
  | label {builder : GraphBuilder} {position : Position} (segment : Segment)
      (below : position.Below scalars start) :
      Step scalars start builder
        (builder.modify position.level (objectTypeName segment position.typeName) fun object ↦
          { object with segment := some segment, fragments := position.node.fragments })
  | addField {builder : GraphBuilder} {level : Nat} {name : String} {node : FieldNode}
      (writes : Writes scalars start builder level name node) :
      Step scalars start builder (builder.addField level name node)
  | addMembers {builder : GraphBuilder} {position : Position} {members : List String}
      (below : position.Below scalars start)
      (available : ∀ member ∈ members, builder.isAvailable position.level member = true)
      (objects : ∀ member ∈ members, TypeKind.object.Names member) :
      Step scalars start builder
        (builder.modify position.level (unionTypeName position.typeName) (·.addMembers members))
  | addValues {builder : GraphBuilder} {position : Position} {field : ClassifiedField}
      {options : FieldConfig} {values : List String} (below : position.Below scalars start)
      (declared : position.Declares scalars field options)
      (kind : field.kind = .enumeration values) :
      Step scalars start builder (builder.modify position.level field.target (·.addValues values))

/-- Any number of steps. -/
abbrev Steps (scalars : ScalarRegistry) (start : Position) : GraphBuilder → GraphBuilder → Prop :=
  Relation.ReflTransGen (Step scalars start)

/-- How a type comes about in one step: it was there, it is opened, or it was there with less. -/
inductive Comes (scalars : ScalarRegistry) (start : Position) (builder : GraphBuilder) :
    Nat → String → TypeNode → Prop
  | unchanged {level : Nat} {name : String} {node : TypeNode}
      (found : builder.get? level name = some node) : Comes scalars start builder level name node
  | opened {level : Nat} {name base : String} {kind : TypeKind}
      (absent : builder.get? level name = none) (opens : Opens scalars start level name kind base) :
      Comes scalars start builder level name (builder.fresh name kind base)
  | labelled {position : Position} {segment : Segment} {node : TypeNode}
      (below : position.Below scalars start)
      (found : builder.get? position.level (objectTypeName segment position.typeName) = some node) :
      Comes scalars start builder position.level (objectTypeName segment position.typeName)
        { node with segment := some segment, fragments := position.node.fragments }
  | field {level : Nat} {name : String} {node : TypeNode} {added : FieldNode}
      (found : builder.get? level name = some node)
      (writes : Writes scalars start builder level name added)
      (absent : node.fields.has added.name = false)
      (undefined : builder.definedBefore name added.name = false) :
      Comes scalars start builder level name
        { node with fields := node.fields ++ [(added.name, added)] }
  | members {position : Position} {node : TypeNode} {members : List String}
      (below : position.Below scalars start)
      (found : builder.get? position.level (unionTypeName position.typeName) = some node)
      (available : ∀ member ∈ members, builder.isAvailable position.level member = true)
      (objects : ∀ member ∈ members, TypeKind.object.Names member) :
      Comes scalars start builder position.level (unionTypeName position.typeName)
        (node.addMembers members)
  | values {position : Position} {field : ClassifiedField} {options : FieldConfig}
      {node : TypeNode} {values : List String} (below : position.Below scalars start)
      (declared : position.Declares scalars field options)
      (kind : field.kind = .enumeration values)
      (found : builder.get? position.level field.target = some node) :
      Comes scalars start builder position.level field.target (node.addValues values)

theorem comes_of_modify {level other : Nat} {name key : String} {f : TypeNode → TypeNode}
    {node : TypeNode} (h : (builder.modify level name f).get? other key = some node)
    (comes : ∀ before, builder.get? level name = some before →
      Comes scalars start builder level name (f before)) :
    Comes scalars start builder other key node := by
  rw [GraphBuilder.get?_modify] at h
  by_cases hat : other = level ∧ key = name
  · obtain ⟨rfl, rfl⟩ := hat
    rw [if_pos ⟨rfl, rfl⟩] at h
    obtain ⟨before, hbefore, rfl⟩ := Option.map_eq_some_iff.mp h
    exact comes before hbefore
  · rw [if_neg hat] at h
    exact .unchanged h

theorem Step.comes {level : Nat} {name : String} {node : TypeNode}
    (h : Step scalars start builder next) (hnode : next.get? level name = some node) :
    Comes scalars start builder level name node := by
  cases h with
  | @ensure site opened base kind opens =>
    rw [GraphBuilder.get?_ensure] at hnode
    by_cases hat : level = site ∧ name = opened
    · obtain ⟨rfl, rfl⟩ := hat
      rw [if_pos ⟨rfl, rfl⟩] at hnode
      cases hfound : builder.get? level name with
      | none =>
        rw [hfound] at hnode
        cases hnode
        exact .opened hfound opens
      | some held =>
        rw [hfound] at hnode
        cases hnode
        exact .unchanged hfound
    · rw [if_neg hat] at hnode
      exact .unchanged hnode
  | label segment below => exact comes_of_modify hnode fun before hbefore ↦ .labelled below hbefore
  | addField writes =>
    unfold GraphBuilder.addField at hnode
    split at hnode
    · rename_i hadd
      refine comes_of_modify hnode fun before hbefore ↦ ?_
      unfold GraphBuilder.canAdd at hadd
      rw [hbefore] at hadd
      obtain ⟨hundefined, habsent⟩ := Bool.and_eq_true_iff.mp hadd
      exact .field hbefore writes (by simpa using habsent) (by simpa using hundefined)
    · exact .unchanged hnode
  | addMembers below available objects =>
    exact comes_of_modify hnode fun before hbefore ↦ .members below hbefore available objects
  | addValues below declared kind =>
    exact comes_of_modify hnode fun before hbefore ↦ .values below declared kind hbefore

/-! ## Builders grow -/

theorem grows_addField (builder : GraphBuilder) (level : Nat) (name : String) (node : FieldNode) :
    builder.Grows (builder.addField level name node) := by
  unfold GraphBuilder.addField
  split
  · refine GraphBuilder.grows_modify fun holder hholder ↦ ⟨rfl, rfl, rfl, rfl, ?_, List.Subset.refl _,
      List.Subset.refl _⟩
    intro other held hheld
    rw [Entries.get?_append, hheld, Option.some_or]
  · exact .refl builder

theorem Step.grows (h : Step scalars start builder next) : builder.Grows next := by
  cases h with
  | ensure opens => exact GraphBuilder.grows_ensure ..
  | label segment below =>
    exact GraphBuilder.grows_modify fun node _ ↦
      ⟨rfl, rfl, rfl, rfl, fun _ _ h ↦ h, List.Subset.refl _, List.Subset.refl _⟩
  | addField writes => exact grows_addField ..
  | addMembers below available =>
    exact GraphBuilder.grows_modify fun node _ ↦
      ⟨rfl, rfl, rfl, rfl, fun _ _ h ↦ h, fun _ h ↦ mem_addMissing.mpr (.inl h), List.Subset.refl _⟩
  | addValues below declared kind =>
    exact GraphBuilder.grows_modify fun node _ ↦
      ⟨rfl, rfl, rfl, rfl, fun _ _ h ↦ h, List.Subset.refl _, fun _ h ↦ mem_addMissing.mpr (.inl h)⟩

theorem Steps.grows (h : Steps scalars start builder next) : builder.Grows next := by
  induction h with
  | refl => exact .refl builder
  | tail _ hstep ih => exact ih.trans hstep.grows

theorem EnumOpen.of_steps {level : Nat} (h : EnumOpen level field options builder)
    (hsteps : Steps scalars start builder next) : EnumOpen level field options next := by
  intro values hkind henabled
  obtain ⟨node, hnode, hvalues⟩ := h values hkind henabled
  obtain ⟨later, hlater, hgrows⟩ := hsteps.grows.types level field.target node hnode
  exact ⟨later, hlater, List.Subset.trans hvalues hgrows.values⟩

end Synthesis
end ResourceApi

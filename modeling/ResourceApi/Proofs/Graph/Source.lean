import ResourceApi.Proofs.Graph.Closed
import ResourceApi.Proofs.Graph.Visibility
import ResourceApi.Proofs.Model.Path

/-!
# Types and the declarations behind them

Every type of a graph goes back to a node of the model, or to an enum field of one, at the depth of its
level: it is named after it, and its fields, values and custom fragment parts are declared there.  An
object type knows its segment from the moment its node is opened, so all of them do at the end of a
walk.
-/

namespace ResourceApi.Synthesis

variable {scalars : ScalarRegistry} {start position : Position} {builder next : GraphBuilder}
  {field : ClassifiedField} {options : FieldConfig} {level : Nat} {name typeName : String}
  {segment : Segment} {node : TypeNode} {schema : ResourceSchema} {config : GenerationConfig}

/-! ## Positions and paths -/

theorem Position.Declares.exists_index (h : position.Declares scalars field options) :
    ∃ (index : Nat) (spec : FieldSpec), position.node.fields[index]? = some (field.name, spec) ∧
      ClassifiedField.classify position.typeName field.name scalars spec = .ok field := by
  obtain ⟨spec, hmem, hclassify, -⟩ := h
  obtain ⟨index, hindex⟩ := List.mem_iff_getElem?.mp hmem
  exact ⟨index, spec, hindex, hclassify⟩

/-- A position of the walk over a model is a node of the model, whose path is as long as its level. -/
theorem Position.Below.exists_path (below : position.Below scalars (.root schema config)) :
    ∃ path, schema.NodeAt path position.typeName position.node ∧ path.length = position.level := by
  induction below with
  | refl => exact ⟨[], .root, rfl⟩
  | tail _ hchild ih =>
    obtain ⟨declared, hkind, -⟩ := hchild
    obtain ⟨path, hpath, hlength⟩ := ih
    obtain ⟨index, spec, hindex, hclassify⟩ := declared.exists_index
    obtain ⟨hnested, htarget⟩ := ClassifiedField.object_of_classify hclassify hkind
    refine ⟨index :: path, ?_, congrArg Nat.succ hlength⟩
    have hchild := hpath.nested hindex hnested
    rw [show _ ++ spec.localName _ = _ from htarget.symm] at hchild
    exact hchild

theorem Position.Below.exists_enum {values : List String}
    (below : position.Below scalars (.root schema config))
    (declared : position.Declares scalars field options) (kind : field.kind = .enumeration values) :
    ∃ path, schema.EnumAt path field.target values ∧ path.length = position.level + 1 := by
  obtain ⟨path, hpath, hlength⟩ := below.exists_path
  obtain ⟨index, spec, hindex, hclassify⟩ := declared.exists_index
  refine ⟨index :: path, ?_, congrArg Nat.succ hlength⟩
  rw [(ClassifiedField.enumeration_of_classify hclassify kind).1]
  exact .intro hpath hindex (ClassifiedField.values_of_classify hclassify kind)

/-! ## What a type is opened for -/

/-- The declaration that a type is opened for: the node at a path as deep as the level, or an enum field
of such a node, after which the type is named. -/
inductive Origin (schema : ResourceSchema) (level : Nat) :
    List Nat → String → TypeKind → String → Prop
  | object {path : List Nat} {typeName : String} {node : SchemaNode}
      (found : schema.NodeAt path typeName node) (depth : path.length = level) (segment : Segment) :
      Origin schema level path (objectTypeName segment typeName) .object typeName
  | input {path : List Nat} {typeName : String} {node : SchemaNode}
      (found : schema.NodeAt path typeName node) (depth : path.length = level)
      (action : InputAction) :
      Origin schema level path (inputTypeName action typeName) (.input action) typeName
  | interface {path : List Nat} {typeName : String} {node : SchemaNode}
      (found : schema.NodeAt path typeName node) (depth : path.length = level) :
      Origin schema level path (interfaceTypeName typeName) .interface typeName
  | union {path : List Nat} {typeName : String} {node : SchemaNode}
      (found : schema.NodeAt path typeName node) (depth : path.length = level) :
      Origin schema level path (unionTypeName typeName) .union typeName
  | enumeration {path : List Nat} {name typeName : String} {values : List String}
      (found : schema.EnumAt path name values) (depth : path.length = level + 1) :
      Origin schema level path name .enumeration typeName

theorem Opens.origin {kind : TypeKind} {base : String}
    (h : Opens scalars (.root schema config) level name kind base) :
    ∃ path, Origin schema level path name kind base := by
  cases h with
  | enumeration below declared kind enabled =>
    obtain ⟨path, hpath, hlength⟩ := below.exists_enum declared kind
    exact ⟨path, .enumeration hpath hlength⟩
  | object below visible =>
    obtain ⟨path, hpath, hlength⟩ := below.exists_path
    exact ⟨path, .object hpath hlength _⟩
  | input below visible =>
    obtain ⟨path, hpath, hlength⟩ := below.exists_path
    exact ⟨path, .input hpath hlength _⟩
  | interface below enabled =>
    obtain ⟨path, hpath, hlength⟩ := below.exists_path
    exact ⟨path, .interface hpath hlength⟩
  | union below enabled =>
    obtain ⟨path, hpath, hlength⟩ := below.exists_path
    exact ⟨path, .union hpath hlength⟩

theorem Origin.of_object {path : List Nat} {base : String}
    (h : Origin schema level path name .object base) :
    ∃ segment node, schema.NodeAt path base node ∧ path.length = level ∧
      name = objectTypeName segment base := by
  cases h with
  | object found depth segment => exact ⟨segment, _, found, depth, rfl⟩

theorem Origin.of_input {path : List Nat} {action : InputAction} {base : String}
    (h : Origin schema level path name (.input action) base) :
    ∃ node, schema.NodeAt path base node ∧ path.length = level ∧
      name = inputTypeName action base := by
  cases h with
  | input found depth => exact ⟨_, found, depth, rfl⟩

theorem Origin.of_enumeration {path : List Nat} {base : String}
    (h : Origin schema level path name .enumeration base) :
    ∃ values, schema.EnumAt path name values ∧ path.length = level + 1 := by
  cases h with
  | enumeration found depth => exact ⟨_, found, depth⟩

theorem Origin.names {path : List Nat} {kind : TypeKind} {base : String}
    (h : Origin schema level path name kind base) : kind.Names name := by
  cases h with
  | object => exact TypeKind.names_object ..
  | input => exact TypeKind.names_input ..
  | interface => exact TypeKind.names_interface _
  | union => exact TypeKind.names_union _
  | enumeration found =>
    cases found
    exact names_enumTypeName _ _

/-! ## What a type has got -/

/-- The fields of a type are distinct, its values are declared for an enum of its name, and its custom
fragment parts by a node that it is named after. -/
structure Sourced (scalars : ScalarRegistry) (start : Position) (level : Nat) (name : String)
    (node : TypeNode) : Prop where
  distinct : node.fields.keys.Nodup
  values : ∀ value ∈ node.values, ∃ (position : Position) (field : ClassifiedField)
    (options : FieldConfig) (values : List String), position.Below scalars start ∧
      position.level = level ∧ position.Declares scalars field options ∧
      field.kind = .enumeration values ∧ field.target = name ∧ value ∈ values
  fragments : ∀ entry ∈ node.fragments, ∃ (position : Position) (segment : Segment),
    position.Below scalars start ∧ position.level = level ∧
      name = objectTypeName segment position.typeName ∧ entry ∈ position.node.fragments

theorem Comes.sourced (h : Comes scalars start builder level name node)
    (sourced : ∀ node, builder.get? level name = some node → Sourced scalars start level name node) :
    Sourced scalars start level name node := by
  cases h with
  | unchanged found => exact sourced _ found
  | opened absent opens =>
    exact ⟨List.nodup_nil, (fun _ h ↦ nomatch h), (fun _ h ↦ nomatch h)⟩
  | labelled below found =>
    have hbefore := sourced _ found
    exact ⟨hbefore.distinct, hbefore.values, fun entry hentry ↦ ⟨_, _, below, rfl, rfl, hentry⟩⟩
  | @field _ _ holder added found writes absent =>
    have hbefore := sourced _ found
    refine ⟨?_, hbefore.values, hbefore.fragments⟩
    have hnew : added.name ∉ holder.fields.keys := by
      rw [← Entries.has_iff, absent]
      exact Bool.false_ne_true
    rw [Entries.keys_append]
    simpa using List.Nodup.concat hnew hbefore.distinct
  | members below found available =>
    have hbefore := sourced _ found
    exact ⟨hbefore.distinct, hbefore.values, hbefore.fragments⟩
  | values below declared kind found =>
    have hbefore := sourced _ found
    refine ⟨hbefore.distinct, fun value hvalue ↦ ?_, hbefore.fragments⟩
    rcases mem_addMissing.mp hvalue with hold | hnew
    · exact hbefore.values value hold
    · exact ⟨_, _, _, _, below, rfl, declared, kind, rfl, hnew⟩

theorem Steps.sourced (h : Steps scalars start builder next)
    (sourced : ∀ level name node, builder.get? level name = some node →
      Sourced scalars start level name node) :
    ∀ level name node, next.get? level name = some node → Sourced scalars start level name node := by
  induction h with
  | refl => exact sourced
  | tail _ hstep ih =>
    intro level name node hnode
    exact (hstep.comes hnode).sourced (ih level name)

/-- Members and values are added to a type only if it does not have them. -/
theorem Comes.nodup (h : Comes scalars start builder level name node)
    (nodup : ∀ node, builder.get? level name = some node → node.members.Nodup ∧ node.values.Nodup) :
    node.members.Nodup ∧ node.values.Nodup := by
  cases h with
  | unchanged found => exact nodup _ found
  | opened absent opens => exact ⟨List.nodup_nil, List.nodup_nil⟩
  | labelled below found =>
    have hbefore := nodup _ found
    exact hbefore
  | field found writes absent =>
    have hbefore := nodup _ found
    exact hbefore
  | members below found available =>
    exact ⟨nodup_addMissing (nodup _ found).1, (nodup _ found).2⟩
  | values below declared kind found =>
    exact ⟨(nodup _ found).1, nodup_addMissing (nodup _ found).2⟩

theorem Steps.nodup (h : Steps scalars start builder next)
    (nodup : ∀ level name node, builder.get? level name = some node →
      node.members.Nodup ∧ node.values.Nodup) :
    ∀ level name node, next.get? level name = some node →
      node.members.Nodup ∧ node.values.Nodup := by
  induction h with
  | refl => exact nodup
  | tail _ hstep ih =>
    intro level name node hnode
    exact (hstep.comes hnode).nodup (ih level name)

/-! ## Segments of object types -/

/-- A type that is labelled with the segment of its name stays so. -/
theorem Step.keeps_label (h : Step scalars start builder next)
    (found : builder.get? level (objectTypeName segment typeName) = some node)
    (label : node.segment = some segment) :
    ∃ later, next.get? level (objectTypeName segment typeName) = some later ∧
      later.segment = some segment := by
  obtain ⟨later, hlater, -⟩ := h.grows.types _ _ _ found
  refine ⟨later, hlater, ?_⟩
  obtain ⟨key, hkey⟩ : ∃ key, key = objectTypeName segment typeName := ⟨_, rfl⟩
  have hcomes := h.comes hlater
  rw [← hkey] at hcomes found
  cases hcomes with
  | unchanged found' =>
    obtain rfl := Option.some.inj (found.symm.trans found')
    exact label
  | opened absent => cases absent.symm.trans found
  | labelled below found' => rw [(objectTypeName_injective hkey).1]
  | field found' =>
    obtain rfl := Option.some.inj (found.symm.trans found')
    exact label
  | members below found' =>
    obtain rfl := Option.some.inj (found.symm.trans found')
    exact label
  | values below declared kind found' =>
    obtain rfl := Option.some.inj (found.symm.trans found')
    exact label

theorem Steps.keeps_label (h : Steps scalars start builder next)
    (found : builder.get? level (objectTypeName segment typeName) = some node)
    (label : node.segment = some segment) :
    ∃ later, next.get? level (objectTypeName segment typeName) = some later ∧
      later.segment = some segment := by
  induction h with
  | refl => exact ⟨node, found, label⟩
  | tail _ hstep ih =>
    obtain ⟨later, hlater, hlabel⟩ := ih
    exact hstep.keeps_label hlater hlabel

/-- Every node below the start of a walk is opened in it. -/
theorem Position.Below.node_opened (below : position.Below scalars start)
    (h : start.walk scalars builder = .ok next) :
    ∃ before, Steps scalars start builder before ∧
      Steps scalars start (openNode position.node position.typeName position.config
        (.under position.path) position.level before) next := by
  obtain ⟨before, after, hbefore, hwalk, hafter⟩ := below.walked h
  obtain ⟨walked, hfields, rfl⟩ := walk_eq_ok hwalk
  have hrest : Steps scalars start (openNode position.node position.typeName position.config
      (.under position.path) position.level before) walked :=
    walkFields_steps below (fun child hchild builder next hchildWalk ↦
      Position.walk_steps (Relation.ReflTransGen.tail below hchild) hchildWalk)
      (List.Subset.refl _) hfields
  exact ⟨before, hbefore, (hrest.trans (closeNode_steps below walked)).trans hafter⟩

/-- The object type of a node and a segment that sees it is opened in the walk. -/
theorem Position.Below.object_opened (below : position.Below scalars start)
    (visible : (Visibility.under position.path).object segment = true)
    (h : start.walk scalars builder = .ok next) :
    ∃ turn, Steps scalars start builder turn ∧
      Steps scalars start (openObject position.node position.typeName position.level turn segment)
        next := by
  obtain ⟨before, hbefore, hrest⟩ := below.node_opened h
  obtain ⟨turn, hturn, hopened⟩ := openObjects_turn below visible before
  have hinputs := hopened.trans (openInputs_steps below _)
  have hnode := hinputs.trans (openInterface_steps below _)
  exact ⟨turn, hbefore.trans hturn, hnode.trans hrest⟩

/-- The input of a node and an action that sees it is opened in the walk. -/
theorem Position.Below.input_opened {action : InputAction} (below : position.Below scalars start)
    (visible : (Visibility.under position.path).input action = true)
    (h : start.walk scalars builder = .ok next) :
    ∃ turn, Steps scalars start builder turn ∧
      Steps scalars start (openInput position.typeName position.level turn action) next := by
  obtain ⟨before, hbefore, hrest⟩ := below.node_opened h
  have hobjects := openObjects_steps below before
  obtain ⟨turn, hturn, hopened⟩ := openInputs_turn below visible _
  have hnode := hopened.trans (openInterface_steps below _)
  exact ⟨turn, (hbefore.trans hobjects).trans hturn, hnode.trans hrest⟩

theorem label_openObject (node : SchemaNode) (typeName : String) (level : Nat)
    (builder : GraphBuilder) (segment : Segment) :
    ∃ holder, (openObject node typeName level builder segment).get? level
      (objectTypeName segment typeName) = some holder ∧ holder.segment = some segment := by
  unfold openObject GraphBuilder.addField
  dsimp only
  split
  · split
    · rw [GraphBuilder.get?_modify, if_pos ⟨rfl, rfl⟩, GraphBuilder.get?_modify, if_pos ⟨rfl, rfl⟩,
        GraphBuilder.get?_ensure, if_pos ⟨rfl, rfl⟩]
      exact ⟨_, rfl, rfl⟩
    · rw [GraphBuilder.get?_modify, if_pos ⟨rfl, rfl⟩, GraphBuilder.get?_ensure, if_pos ⟨rfl, rfl⟩]
      exact ⟨_, rfl, rfl⟩
  · rw [GraphBuilder.get?_modify, if_pos ⟨rfl, rfl⟩, GraphBuilder.get?_ensure, if_pos ⟨rfl, rfl⟩]
    exact ⟨_, rfl, rfl⟩

/-- The object types of a root node have an identifier, whatever else the node declares. -/
theorem holds_id_openObject (existing : builder.existing = []) (node : SchemaNode)
    (typeName : String) (segment : Segment) :
    Holds (openObject node typeName 0 builder segment) 0 (objectTypeName segment typeName) "id" := by
  obtain ⟨holder, hholder⟩ : ∃ holder, ((builder.ensure 0 (objectTypeName segment typeName) .object
      typeName).modify 0 (objectTypeName segment typeName) fun object ↦
        { object with segment := some segment, fragments := node.fragments }).get? 0
      (objectTypeName segment typeName) = some holder := by
    rw [GraphBuilder.get?_modify, if_pos ⟨rfl, rfl⟩, GraphBuilder.get?_ensure, if_pos ⟨rfl, rfl⟩]
    exact ⟨_, rfl⟩
  exact holds_addField existing hholder

/-- What is known of an object type at the end of a walk. -/
theorem object_of_walk (h : start.walk scalars builder = .ok next) (built : Built scalars start builder)
    (found : next.get? level name = some node) (kind : node.kind = .object) :
    ∃ segment, node.segment = some segment ∧ name = objectTypeName segment node.base ∧
      (level = 0 → node.fields.has "id" = true) := by
  have hopened := ((Steps.built (Position.walk_steps .refl h) built).types _ _ _ found).opened
  rw [kind] at hopened
  obtain ⟨base, hbase⟩ : ∃ base, base = node.base := ⟨_, rfl⟩
  rw [← hbase] at hopened ⊢
  cases hopened with
  | @object position segment below visible =>
    obtain ⟨turn, hturn, hrest⟩ := below.object_opened visible h
    obtain ⟨holder, hholder, hlabel⟩ := label_openObject position.node position.typeName
      position.level turn segment
    obtain ⟨later, hlater, hsegment⟩ := Steps.keeps_label hrest hholder hlabel
    obtain rfl := Option.some.inj (found.symm.trans hlater)
    refine ⟨segment, hsegment, rfl, fun hlevel ↦ ?_⟩
    have hexisting : turn.existing = [] := (Steps.grows hturn).existing.trans built.existing
    rw [hlevel] at hrest found
    have hholds := (holds_id_openObject hexisting position.node position.typeName segment).later
      (Steps.grows hrest)
    obtain ⟨held, hheld, hid⟩ := hholds
    rwa [Option.some.inj (found.symm.trans hheld)]

/-! ## Fields of object types -/

/-- A field of an object type as its node declares it: its type is a scalar that the registry offers, the
enum of the field, an object type of the resource that is referred to, or one of the nested node. -/
def Follows (scalars : ScalarRegistry) (typeName : String) (node : SchemaNode) (field : FieldNode) :
    Prop :=
  match field.kind with
  | .scalar => scalars.Offers field.typeName
  | .enumeration => field.typeName = ClassifiedField.enumTypeName typeName field.name
  | .reference => ∃ spec resource segment, (field.name, spec) ∈ node.fields ∧
      spec.reference? = some resource ∧ field.typeName = objectTypeName segment resource
  | .object => ∃ spec child segment, (field.name, spec) ∈ node.fields ∧ spec.nested? = some child ∧
      field.typeName = objectTypeName segment (typeName ++ spec.localName field.name)

theorem Follows.nested {held : FieldNode} {holder : SchemaNode}
    (h : Follows scalars typeName holder held) (kind : held.kind = .object) :
    ∃ spec child segment, (held.name, spec) ∈ holder.fields ∧ spec.nested? = some child ∧
      held.typeName = objectTypeName segment (typeName ++ spec.localName held.name) := by
  unfold Follows at h
  rwa [kind] at h

theorem Follows.referred {held : FieldNode} {holder : SchemaNode}
    (h : Follows scalars typeName holder held) (kind : held.kind = .reference) :
    ∃ spec resource segment, (held.name, spec) ∈ holder.fields ∧ spec.reference? = some resource ∧
      held.typeName = objectTypeName segment resource := by
  unfold Follows at h
  rwa [kind] at h

/-- A leaf is of a scalar that the registry offers, or of an enum. -/
theorem Follows.leaf {held : FieldNode} {holder : SchemaNode}
    (h : Follows scalars typeName holder held) (leaf : held.kind.isLeaf = true) :
    scalars.Offers held.typeName ∨ held.kind = .enumeration ∧
      TypeKind.enumeration.Names held.typeName := by
  unfold Follows at h
  cases kind : held.kind with
  | scalar =>
    rw [kind] at h
    exact .inl h
  | enumeration =>
    rw [kind] at h
    exact .inr ⟨rfl, h ▸ names_enumTypeName _ _⟩
  | reference =>
    rw [kind] at leaf
    cases leaf
  | object =>
    rw [kind] at leaf
    cases leaf

theorem follows_of_leafLink {kind : LinkKind} {target : String}
    (declared : position.Declares scalars field options)
    (h : leafLink field options = some (kind, target)) (nullable : List Bool) :
    Follows scalars position.typeName position.node
      { FieldNode.leaf field.name kind target nullable with description := field.description } := by
  obtain ⟨spec, -, hclassify, -⟩ := declared
  unfold leafLink at h
  split at h
  · rename_i hkind
    cases h
    exact ClassifiedField.scalar_of_classify hclassify hkind
  · rename_i values hkind
    split at h
    · cases h
      exact (ClassifiedField.enumeration_of_classify hclassify hkind).1
    · cases h
      exact offers_string
  · cases h
  · cases h

theorem follows_of_objectField? {found : FieldNode}
    (declared : position.Declares scalars field options)
    (h : objectField? level field options builder segment = some found) :
    Follows scalars position.typeName position.node
      { found with description := field.description } := by
  unfold objectField? at h
  dsimp only at h
  split at h
  · rename_i kind target hlink
    cases h
    exact follows_of_leafLink declared hlink _
  · rename_i hlink
    obtain ⟨spec, hmem, hclassify, -⟩ := declared
    cases hkind : field.kind with
    | reference =>
      simp only [hkind, FieldKind.isReference, if_true] at h
      cases h
      exact ⟨spec, _, _, hmem, ClassifiedField.reference_of_classify hclassify hkind, rfl⟩
    | object child =>
      simp only [hkind, FieldKind.isReference, Bool.false_eq_true, if_false] at h
      split at h <;> cases h
      obtain ⟨hnested, htarget⟩ := ClassifiedField.object_of_classify hclassify hkind
      exact ⟨spec, child, _, hmem, hnested, congrArg (objectTypeName _) htarget⟩
    | scalar =>
      simp [leafLink, hkind] at hlink
    | enumeration values =>
      simp only [leafLink, hkind] at hlink
      split at hlink <;> cases hlink

/-- A field that is written into an object type is declared by a node that the type is named after, or is
the identifier of the root. -/
theorem Writes.follows {held : FieldNode} (h : Writes scalars start builder level name held)
    (hname : name = objectTypeName segment typeName) :
    ∃ position : Position, position.Below scalars start ∧ position.level = level ∧
      position.typeName = typeName ∧ Follows scalars typeName position.node held := by
  have hobject : TypeKind.object.Names name := ⟨segment, typeName, hname⟩
  cases h with
  | objectIdentifier below visible outermost =>
    obtain ⟨-, rfl⟩ := objectTypeName_injective hname
    exact ⟨_, below, rfl, rfl, offers_id⟩
  | object below declared visible enumOpen found =>
    obtain ⟨-, rfl⟩ := objectTypeName_injective hname
    exact ⟨_, below, rfl, rfl, follows_of_objectField? declared found⟩
  | inputIdentifier => cases hobject.unique (TypeKind.names_input ..)
  | input => cases hobject.unique (TypeKind.names_input ..)
  | interface => cases hobject.unique (TypeKind.names_interface _)

/-! ## Finished graphs -/

/-- A field that a node of the level with the given type name declares, or the identifier of the root. -/
def DeclaredAt (schema : ResourceSchema) (level : Nat) (typeName fieldName : String) : Prop :=
  level = 0 ∧ fieldName = "id" ∨
    ∃ path node spec, schema.NodeAt path typeName node ∧ path.length = level ∧
      (fieldName, spec) ∈ node.fields

theorem Shown.declaredAt {fieldName : String} {enables : GenerationConfig → Bool}
    (h : Shown scalars (.root schema config) level typeName fieldName enables) :
    DeclaredAt schema level typeName fieldName := by
  obtain ⟨position, field, options, below, rfl, rfl, ⟨spec, hmem, -⟩, rfl, -⟩ := h
  obtain ⟨path, hpath, hlength⟩ := below.exists_path
  exact .inr ⟨path, _, spec, hpath, hlength, hmem⟩

/-- A type of the graph of a resource, as the model tells of it. -/
structure Described (schema : ResourceSchema) (level : Nat) (node : TypeNode) : Prop where
  origin : ∃ path, Origin schema level path node.name node.kind node.base
  defined : node.extending = false
  distinct : node.fields.keys.Nodup
  named : ∀ entry ∈ node.fields, entry.1 = entry.2.name
  fields : node.kind = .object ∨ (∃ action, node.kind = .input action) →
    ∀ entry ∈ node.fields, DeclaredAt schema level node.base entry.1
  values : ∀ value ∈ node.values, ∃ path values, schema.EnumAt path node.name values ∧
    path.length = level + 1 ∧ value ∈ values

/-- An object type of the graph of a resource, as the model tells of it. -/
structure DescribedObject (scalars : ScalarRegistry) (schema : ResourceSchema) (level : Nat)
    (node : TypeNode) : Prop where
  segment : ∃ segment, node.segment = some segment ∧ node.name = objectTypeName segment node.base
  identified : level = 0 → node.fields.has "id" = true
  follows : ∀ entry ∈ node.fields, ∃ path holder, schema.NodeAt path node.base holder ∧
    path.length = level ∧ Follows scalars node.base holder entry.2
  fragments : ∀ entry ∈ node.fragments, ∃ path holder, schema.NodeAt path node.base holder ∧
    path.length = level ∧ entry ∈ holder.fragments

theorem Built.origin (built : Built scalars (.root schema config) builder)
    (found : builder.get? level name = some node) :
    ∃ path, Origin schema level path node.name node.kind node.base := by
  have hbuilt := built.types level name node found
  rw [hbuilt.named]
  exact hbuilt.opened.origin

/-- The fields of the objects and inputs that a walk builds up are declared, the identifiers apart. -/
theorem Built.declaredAt (built : Built scalars (.root schema config) builder)
    (found : builder.get? level name = some node)
    (kind : node.kind = .object ∨ ∃ action, node.kind = .input action) :
    ∀ entry ∈ node.fields, DeclaredAt schema level node.base entry.1 := by
  intro entry hentry
  obtain ⟨path, horigin⟩ := built.origin found
  have hbuilt := built.types level name node found
  obtain ⟨hname, before, -, hwrites⟩ := hbuilt.fields entry hentry
  rw [hbuilt.named] at horigin
  rw [hname]
  rcases kind with hobject | ⟨action, hinput⟩
  · rw [hobject] at horigin
    obtain ⟨segment, -, -, -, hnamed⟩ := horigin.of_object
    rcases hwrites.shown_object rfl hnamed with ⟨hlevel, -, hid, -⟩ | hshown
    · exact .inl ⟨hlevel, hid⟩
    · exact hshown.declaredAt
  · rw [hinput] at horigin
    obtain ⟨-, -, -, hnamed⟩ := horigin.of_input
    rcases hwrites.shown_input rfl hnamed with ⟨hlevel, -, hid, -⟩ | hshown
    · exact .inl ⟨hlevel, hid⟩
    · exact hshown.declaredAt

theorem Built.described (built : Built scalars (.root schema config) builder)
    (found : builder.get? level name = some node)
    (sourced : Sourced scalars (.root schema config) level name node) :
    Described schema level node where
  origin := built.origin found
  defined := built.defined found
  distinct := sourced.distinct
  named entry hentry := ((built.types level name node found).fields entry hentry).1
  fields kind := built.declaredAt found kind
  values value hvalue := by
    obtain ⟨position, field, options, values, below, rfl, declared, hkind, rfl, hmem⟩ :=
      sourced.values value hvalue
    obtain ⟨path, hpath, hlength⟩ := below.exists_enum declared hkind
    rw [(built.types _ _ _ found).named]
    exact ⟨path, values, hpath, hlength, hmem⟩

theorem Built.describedObject (built : Built scalars (.root schema config) builder)
    (found : builder.get? level name = some node) (kind : node.kind = .object)
    (sourced : Sourced scalars (.root schema config) level name node)
    (walked : (Position.root schema config).walk scalars (GraphBuilder.new schema.resource []) =
      .ok builder) : DescribedObject scalars schema level node := by
  have hbuilt := built.types level name node found
  obtain ⟨segment, hsegment, hname, hid⟩ := object_of_walk walked (built_new ..) found kind
  refine ⟨⟨segment, hsegment, hbuilt.named.trans hname⟩, hid, fun entry hentry ↦ ?_,
    fun entry hentry ↦ ?_⟩
  · obtain ⟨-, before, -, hwrites⟩ := hbuilt.fields entry hentry
    obtain ⟨position, below, hlevel, hbase, hfollows⟩ := hwrites.follows hname
    obtain ⟨path, hpath, hlength⟩ := below.exists_path
    exact ⟨path, position.node, hbase ▸ hpath, hlength.trans hlevel, hfollows⟩
  · obtain ⟨position, other, below, hlevel, hother, hmem⟩ := sourced.fragments entry hentry
    obtain ⟨path, hpath, hlength⟩ := below.exists_path
    obtain ⟨-, hbase⟩ := objectTypeName_injective (hname.symm.trans hother)
    exact ⟨path, position.node, hbase ▸ hpath, hlength.trans hlevel, hmem⟩

/-- The types of the graph of a resource are described by its model. -/
theorem ofSchema_described {graph : TypeGraph}
    (h : TypeGraph.ofSchema scalars schema config [] = .ok graph)
    (found : (name, node) ∈ graph.levels[level]?.getD []) :
    node.name = name ∧ Described schema level node ∧
      (node.kind = .object → DescribedObject scalars schema level node) := by
  obtain ⟨builder, hwalk, hbuilt, rfl⟩ := ofSchema_built h
  have hfound := hbuilt.get?_of_mem_finish found
  have hsteps : Steps scalars (.root schema config) _ builder := Position.walk_steps .refl hwalk
  have hsourced := Steps.sourced hsteps (fun _ _ _ h ↦ nomatch h) level name node hfound
  exact ⟨(hbuilt.types level name node hfound).named, hbuilt.described hfound hsourced,
    fun kind ↦ hbuilt.describedObject hfound kind hsourced hwalk⟩

end ResourceApi.Synthesis

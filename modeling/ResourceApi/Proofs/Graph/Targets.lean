import ResourceApi.Proofs.Graph.Closed

/-!
# What the fields of a graph point at

A field that leads to a nested object is written when the nested type is available, and an enum field
when its enum is open with its values.  Both stay so in every later step of the walk, and the names of
the targets tell their kinds.  So in the finished graph, which has dropped the types that stayed empty,
an object field finds a type of the right kind one level deeper, an enum field finds the enum with all
its values, and a union has object types as its members.
-/

namespace ResourceApi

namespace TypeKind

/-- The kind of the types that the object fields of a type lead to.  Unions and enums have no fields. -/
def nested? : TypeKind → Option TypeKind
  | .object => some .object
  | .input action => some (.input action)
  | .interface => some .union
  | .union | .enumeration => none

/-- The names that types of a kind have for a model type; an enum is named after a field as well. -/
def NamesFor : TypeKind → String → String → Prop
  | .object, base, name => ∃ segment, name = objectTypeName segment base
  | .input action, base, name => name = inputTypeName action base
  | .interface, base, name => name = interfaceTypeName base
  | .union, base, name => name = unionTypeName base
  | .enumeration, _, name => enumeration.Names name

theorem namesFor_object (segment : Segment) (base : String) :
    object.NamesFor base (objectTypeName segment base) := ⟨segment, rfl⟩

theorem namesFor_input (action : InputAction) (base : String) :
    (input action).NamesFor base (inputTypeName action base) := rfl

theorem namesFor_interface (base : String) : interface.NamesFor base (interfaceTypeName base) := rfl

theorem namesFor_union (base : String) : union.NamesFor base (unionTypeName base) := rfl

variable {kind kind' : TypeKind} {base base' name : String}

theorem NamesFor.names (h : kind.NamesFor base name) : kind.Names name := by
  cases kind with
  | object =>
    obtain ⟨segment, rfl⟩ := h
    exact names_object segment base
  | enumeration => exact h
  | _ => exact ⟨base, h⟩

/-- Enums apart, the name of a type tells its model type. -/
theorem NamesFor.unique (h : kind.NamesFor base name) (h' : kind'.NamesFor base' name)
    (fields : kind' ≠ .enumeration) : kind = kind' ∧ base = base' := by
  obtain rfl := h.names.unique h'.names
  refine ⟨rfl, ?_⟩
  cases kind with
  | object =>
    obtain ⟨segment, rfl⟩ := h
    obtain ⟨segment', hname⟩ := h'
    exact (objectTypeName_injective hname).2
  | input action => exact (inputTypeName_injective (h.symm.trans h')).2
  | interface => exact (String.append_left_inj _).mp (h.symm.trans h')
  | union => exact (String.append_left_inj _).mp (h.symm.trans h')
  | enumeration => exact absurd rfl fields

end TypeKind

namespace TypeGraph

theorem mem_objectsAt {graph : TypeGraph} {level : Nat} {node : TypeNode} :
    node ∈ graph.objectsAt level ↔
      ∃ name, (name, node) ∈ graph.levels[level]?.getD [] ∧ node.kind = .object := by
  unfold objectsAt Entries.values
  simp only [List.mem_filter, List.mem_map, beq_iff_eq, Prod.exists, exists_eq_right,
    exists_and_right]

/-- The object fields of a graph lead to object types of the next level. -/
def Leveled (graph : TypeGraph) : Prop :=
  ∀ level, ∀ node ∈ graph.objectsAt level, ∀ field ∈ node.fields.values, field.kind = .object →
    ∃ target ∈ graph.objectsAt (level + 1), target.name = field.typeName

end TypeGraph

namespace Synthesis

variable {scalars : ScalarRegistry} {start position : Position} {builder next : GraphBuilder}
  {field : ClassifiedField} {options : FieldConfig} {level : Nat} {name base : String}
  {kind : TypeKind} {held : FieldNode} {node : TypeNode} {action : InputAction} {segment : Segment}

theorem Opens.namesFor (h : Opens scalars start level name kind base) : kind.NamesFor base name := by
  cases h with
  | object => exact TypeKind.namesFor_object ..
  | input => exact TypeKind.namesFor_input ..
  | interface => exact TypeKind.namesFor_interface _
  | union => exact TypeKind.namesFor_union _
  | enumeration below declared kind enabled =>
    exact (Opens.enumeration below declared kind enabled).names

/-! ## Object fields -/

theorem kind_ne_object_of_leafLink {link : LinkKind × String}
    (h : leafLink field options = some link) : link.1 ≠ .object := by
  unfold leafLink at h
  split at h
  · cases h
    exact LinkKind.noConfusion
  · split at h <;> cases h <;> exact LinkKind.noConfusion
  · cases h
  · cases h

/-- What an object field leads to is available when the field is written. -/
theorem Links.isAvailable_of_object (h : Links level field options builder held)
    (object : held.kind = .object) : builder.isAvailable (level + 1) held.typeName = true := by
  cases h with
  | leaf link => exact absurd object (kind_ne_object_of_leafLink link)
  | reference => cases object
  | identifier => cases object
  | object available => exact available
  | nested available => exact available

theorem objectField?_object (h : objectField? level field options builder segment = some held)
    (object : held.kind = .object) : TypeKind.object.Names held.typeName := by
  unfold objectField? at h
  dsimp only at h
  split at h
  · rename_i link hlink
    cases h
    exact absurd object (kind_ne_object_of_leafLink hlink)
  · split at h
    · cases h
      cases object
    · split at h <;> cases h
      exact TypeKind.names_object _ field.target

/-- An object field of an input leads to the input of the nested node, for the same action. -/
theorem inputField?_object (h : inputField? level field options builder action = some held)
    (object : held.kind = .object) :
    (∃ child, field.kind = .object child) ∧ held.typeName = inputTypeName action field.target := by
  unfold inputField? leafLink at h
  cases hkind : field.kind with
  | object child =>
    simp only [hkind, FieldKind.isReference, Bool.false_eq_true, if_false] at h
    split at h <;> cases h
    exact ⟨⟨child, rfl⟩, rfl⟩
  | reference =>
    simp only [hkind, FieldKind.isReference, if_true] at h
    cases h
    cases object
  | scalar =>
    simp only [hkind] at h
    cases h
    cases object
  | enumeration values =>
    -- an enum that is not attached is text, so it is a leaf either way
    by_cases hattached : options.config.enabled .enumeration = true <;>
      simp only [hkind, hattached, Bool.false_eq_true, if_true, if_false] at h <;>
      cases h <;> cases object

theorem interfaceField?_object {nullable : List Bool}
    (h : interfaceField? level field options builder nullable = some held)
    (object : held.kind = .object) : TypeKind.union.Names held.typeName := by
  unfold interfaceField? at h
  dsimp only at h
  split at h
  · rename_i link hlink
    cases h
    exact absurd object (kind_ne_object_of_leafLink hlink)
  · split at h
    · cases h
      cases object
    · split at h <;> cases h
      exact TypeKind.names_union field.target

/-- An object field is written with a target of the kind that its type leads to. -/
theorem Writes.nested (h : Writes scalars start builder level name held)
    (object : held.kind = .object) (names : kind.Names name) :
    ∃ nested, kind.nested? = some nested ∧ nested.Names held.typeName ∧
      builder.isAvailable (level + 1) held.typeName = true := by
  cases h with
  | objectIdentifier => cases object
  | inputIdentifier => cases object
  | object below declared visible enumOpen found =>
    obtain rfl := names.unique (TypeKind.names_object ..)
    have htarget := objectField?_object found object
    exact ⟨.object, rfl, htarget, (links_of_objectField? found).isAvailable_of_object object⟩
  | @input position field options action node below declared visible enumOpen found =>
    obtain rfl := names.unique (TypeKind.names_input ..)
    have htarget := (inputField?_object found object).2
    exact ⟨.input action, rfl, ⟨field.target, htarget⟩,
      (links_of_inputField? found).isAvailable_of_object object⟩
  | interface below declared enabled visible partly enumOpen found =>
    obtain rfl := names.unique (TypeKind.names_interface _)
    have htarget := interfaceField?_object found object
    exact ⟨.union, rfl, htarget, (links_of_interfaceField? found).isAvailable_of_object object⟩

/-! ## Enum fields -/

/-- A node of the level with the type name declares the field as an enum of the values, and its options
attach the enum. -/
def EnumDeclared (scalars : ScalarRegistry) (start : Position) (level : Nat)
    (typeName fieldName : String) (values : List String) : Prop :=
  ∃ (position : Position) (field : ClassifiedField) (options : FieldConfig),
    position.Below scalars start ∧ position.level = level ∧ position.typeName = typeName ∧
    position.Declares scalars field options ∧ field.name = fieldName ∧
    field.kind = .enumeration values ∧ options.config.enabled .enumeration = true

theorem Links.enumeration (h : Links level field options builder held)
    (enum : held.kind = .enumeration) :
    ∃ values, field.kind = .enumeration values ∧ options.config.enabled .enumeration = true ∧
      held.typeName = field.target := by
  cases h with
  | @leaf kind target link nullable =>
    obtain rfl : kind = .enumeration := enum
    unfold leafLink at link
    split at link
    · cases link
    · rename_i values hkind
      split at link
      · rename_i henabled
        cases link
        exact ⟨values, hkind, henabled, rfl⟩
      · cases link
    · cases link
    · cases link
  | reference => cases enum
  | identifier => cases enum
  | object => cases enum
  | nested => cases enum

theorem Links.enumDeclared (h : Links position.level field options builder held)
    (enum : held.kind = .enumeration) (below : position.Below scalars start)
    (declared : position.Declares scalars field options) :
    held.typeName = ClassifiedField.enumTypeName position.typeName held.name ∧
      ∃ values, EnumDeclared scalars start position.level position.typeName held.name values := by
  obtain ⟨values, hkind, henabled, htype⟩ := h.enumeration enum
  obtain ⟨spec, -, hclassify, -⟩ := id declared
  rw [htype, h.name, (ClassifiedField.enumeration_of_classify hclassify hkind).1]
  exact ⟨rfl, values, position, field, options, below, rfl, rfl, declared, rfl, hkind, henabled⟩

/-- An enum field is named after its model type and is declared there. -/
theorem Writes.enumDeclared (h : Writes scalars start builder level name held)
    (enum : held.kind = .enumeration) (names : kind.NamesFor base name) :
    held.typeName = ClassifiedField.enumTypeName base held.name ∧
      ∃ values, EnumDeclared scalars start level base held.name values := by
  cases h with
  | objectIdentifier => cases enum
  | inputIdentifier => cases enum
  | object below declared visible enumOpen found =>
    obtain ⟨rfl, rfl⟩ := names.unique (TypeKind.namesFor_object ..) TypeKind.noConfusion
    exact (links_of_objectField? found).enumDeclared enum below declared
  | @input position field options action node below declared visible enumOpen found =>
    obtain ⟨rfl, rfl⟩ := names.unique (TypeKind.namesFor_input ..) TypeKind.noConfusion
    exact (links_of_inputField? found).enumDeclared enum below declared
  | interface below declared enabled visible partly enumOpen found =>
    obtain ⟨rfl, rfl⟩ := names.unique (TypeKind.namesFor_interface _) TypeKind.noConfusion
    exact (links_of_interfaceField? found).enumDeclared enum below declared

/-! ## Members of unions -/

/-- The members of all unions are object types by their names. -/
def ObjectMembers (builder : GraphBuilder) : Prop :=
  ∀ level name node, builder.get? level name = some node →
    ∀ member ∈ node.members, TypeKind.object.Names member

theorem Comes.objectMembers (h : Comes scalars start builder level name node)
    (members : ObjectMembers builder) : ∀ member ∈ node.members, TypeKind.object.Names member := by
  cases h with
  | unchanged found => exact members _ _ _ found
  | opened => exact fun _ h ↦ nomatch h
  | labelled below found => exact fun member hmember ↦ members _ _ _ found member hmember
  | field found => exact fun member hmember ↦ members _ _ _ found member hmember
  | values below declared kind found =>
    exact fun member hmember ↦ members _ _ _ found member hmember
  | members below found available objects =>
    intro member hmember
    rcases mem_addMissing.mp hmember with hold | hnew
    · exact members _ _ _ found member hold
    · exact objects member hnew

theorem Steps.objectMembers (h : Steps scalars start builder next)
    (members : ObjectMembers builder) : ObjectMembers next := by
  induction h with
  | refl => exact members
  | tail _ hstep ih => exact fun _ _ _ hnode ↦ (hstep.comes hnode).objectMembers ih

/-! ## Finished graphs -/

/-- What can be pointed at stands in the finished graph with the kind that its name tells. -/
theorem Built.exists_target (built : Built scalars start builder)
    (available : builder.isAvailable level name = true) (names : kind.Names name) :
    ∃ target, builder.finish.typeAt? level name = some target ∧ target.kind = kind := by
  obtain ⟨target, htarget⟩ := built.exists_of_isAvailable available
  have hbuilt := built.types level name target (built.typeAt?_finish.mp htarget).1
  exact ⟨target, htarget, hbuilt.kind.unique names⟩

theorem TypeBuilt.exists_nested (h : TypeBuilt scalars start builder level name node)
    (built : Built scalars start builder) {entry : String × FieldNode} (hentry : entry ∈ node.fields)
    (object : entry.2.kind = .object) :
    ∃ target, builder.finish.typeAt? (level + 1) entry.2.typeName = some target ∧
      node.kind.nested? = some target.kind := by
  obtain ⟨-, before, hbefore, hwrites⟩ := h.fields entry hentry
  obtain ⟨nested, hnested, hnames, havailable⟩ := hwrites.nested object h.kind
  obtain ⟨target, htarget, rfl⟩ :=
    built.exists_target ((Steps.grows hbefore).isAvailable havailable) hnames
  exact ⟨target, htarget, hnested⟩

/-- The object fields of the graph of a resource lead one level deeper. -/
theorem ofSchema_leveled {schema : ResourceSchema} {config : GenerationConfig} {graph : TypeGraph}
    (h : TypeGraph.ofSchema scalars schema config [] = .ok graph) : graph.Leveled := by
  obtain ⟨builder, -, hbuilt, rfl⟩ := ofSchema_built h
  intro level node hnode field hfield hkind
  obtain ⟨name, hentry, hobject⟩ := TypeGraph.mem_objectsAt.mp hnode
  obtain ⟨⟨key, _⟩, hheld, rfl⟩ := List.mem_map.mp hfield
  have htype := hbuilt.types _ _ _ (hbuilt.get?_of_mem_finish hentry)
  obtain ⟨target, htarget, hnested⟩ := htype.exists_nested hbuilt hheld hkind
  rw [hobject] at hnested
  have hnamed := (hbuilt.types _ _ _ (hbuilt.typeAt?_finish.mp htarget).1).named
  exact ⟨target, TypeGraph.mem_objectsAt.mpr ⟨_, Entries.mem_of_get? htarget,
    (Option.some.inj hnested).symm⟩, hnamed⟩

/-- Every declared enum that is attached stands in the finished graph with its values. -/
theorem EnumDeclared.exists_target {typeName fieldName : String} {values : List String}
    (h : EnumDeclared scalars start level typeName fieldName values)
    (built : Built scalars start next) (walked : start.walk scalars builder = .ok next) :
    ∃ target, next.finish.typeAt? level (ClassifiedField.enumTypeName typeName fieldName) =
        some target ∧ target.kind = .enumeration ∧ values ⊆ target.values := by
  obtain ⟨position, field, options, below, rfl, rfl, declared, rfl, hkind, henabled⟩ := h
  obtain ⟨spec, -, hclassify, -⟩ := id declared
  obtain ⟨hname, hfilled⟩ := ClassifiedField.enumeration_of_classify hclassify hkind
  obtain ⟨-, walked, -, -, hafter⟩ := below.field_written declared walked
  have hopen := (enumOpen_defineEnum position.typeName position.level field options walked).of_steps
    ((writeField_steps_defineEnum below declared walked).trans hafter)
  have hnames := names_enumTypeName position.typeName field.name
  rw [← hname] at hnames ⊢
  obtain ⟨target, htarget, htargetKind⟩ :=
    built.exists_target (hopen.isAvailable built hkind hfilled hnames henabled) hnames
  obtain ⟨held, hheld, hvalues⟩ := hopen values hkind henabled
  obtain rfl := Option.some.inj (hheld.symm.trans (built.typeAt?_finish.mp htarget).1)
  exact ⟨held, htarget, htargetKind, hvalues⟩

theorem TypeBuilt.exists_enum (h : TypeBuilt scalars start builder level name node)
    (built : Built scalars start builder) (walked : start.walk scalars next = .ok builder)
    {entry : String × FieldNode} (hentry : entry ∈ node.fields)
    (enum : entry.2.kind = .enumeration) :
    ∃ target, builder.finish.typeAt? level entry.2.typeName = some target ∧
      target.kind = .enumeration ∧
      (∃ values, EnumDeclared scalars start level node.base entry.2.name values) ∧
      ∀ values, EnumDeclared scalars start level node.base entry.2.name values →
        values ⊆ target.values := by
  obtain ⟨-, before, hbefore, hwrites⟩ := h.fields entry hentry
  obtain ⟨htype, values, hdeclared⟩ := hwrites.enumDeclared enum h.opened.namesFor
  obtain ⟨target, htarget, hkind, -⟩ := hdeclared.exists_target built walked
  rw [htype]
  refine ⟨target, htarget, hkind, ⟨values, hdeclared⟩, fun others hothers ↦ ?_⟩
  obtain ⟨same, hsame, -, hvalues⟩ := hothers.exists_target built walked
  rwa [Option.some.inj (htarget.symm.trans hsame)]

/-- The types of the graph of a resource, and what they point at.  No type is empty.  An object field
leads to a type of the next level, from objects to objects, from inputs to inputs of the same action and
from interfaces to unions.  The type of an enum field is an enum of the same level that has all values
which an attached declaration of the field gives it, and there is such a declaration.  The members of a
union are object types of its level. -/
theorem ofSchema_targets (scalars : ScalarRegistry) (schema : ResourceSchema)
    (config : GenerationConfig) (graph : TypeGraph)
    (h : TypeGraph.ofSchema scalars schema config [] = .ok graph) (level : Nat) (name : String)
    (node : TypeNode) (found : (name, node) ∈ graph.levels[level]?.getD []) :
    (node.name = name ∧ node.isEmpty = false) ∧
    (∀ entry ∈ node.fields, entry.2.kind = .object →
      ∃ target, graph.typeAt? (level + 1) entry.2.typeName = some target ∧
        node.kind.nested? = some target.kind) ∧
    (∀ entry ∈ node.fields, entry.2.kind = .enumeration →
      ∃ target, graph.typeAt? level entry.2.typeName = some target ∧ target.kind = .enumeration ∧
        (∃ values, EnumDeclared scalars (.root schema config) level node.base entry.2.name values) ∧
        ∀ values, EnumDeclared scalars (.root schema config) level node.base entry.2.name values →
          values ⊆ target.values) ∧
    ∀ member ∈ node.members,
      ∃ target, graph.typeAt? level member = some target ∧ target.kind = .object := by
  obtain ⟨builder, hwalk, hbuilt, rfl⟩ := ofSchema_built h
  have hfound := Entries.get?_of_mem (GraphBuilder.nodup_finish hbuilt.distinct level) found
  obtain ⟨hget, hfilled⟩ := hbuilt.typeAt?_finish.mp hfound
  have htype := hbuilt.types level name node hget
  have hsteps : Steps scalars (.root schema config) _ builder := Position.walk_steps .refl hwalk
  have hmembers := Steps.objectMembers hsteps (fun _ _ _ h ↦ nomatch h) level name node hget
  exact ⟨⟨htype.named, hfilled⟩, fun entry ↦ htype.exists_nested hbuilt,
    fun entry ↦ htype.exists_enum hbuilt hwalk,
    fun member hmember ↦ hbuilt.exists_target (htype.members member hmember) (hmembers member hmember)⟩

/-- Users with an address and a role that the mixed segment does not show: the interface of users leads
to the union of their address types and to the enum of their roles. -/
theorem ofSchema_targets_interface :
    let address : SchemaNode := ⟨none, [("city", .primitive "String")], []⟩
    let place : FieldAttributes := ⟨none, none, none, none, some address, false, none, none, .null⟩
    let role : FieldAttributes :=
      ⟨none, some ["ADMIN", "MEMBER"], none, none, none, false, none, none, .null⟩
    let schema : ResourceSchema :=
      ⟨"User", ⟨none, [("address", .attributes place), ("role", .attributes role)], []⟩, [], [], none⟩
    let config : GenerationConfig := ⟨fun leaf ↦ leaf != .object .mixed⟩
    ∃ graph node, TypeGraph.ofSchema ⟨[]⟩ schema config [] = .ok graph ∧
      ("UserInterface", node) ∈ graph.levels[0]?.getD [] ∧
      (∃ entry ∈ node.fields, entry.2.kind = .object ∧
        ∃ target, graph.typeAt? 1 entry.2.typeName = some target ∧ target.kind = .union) ∧
      ∃ entry ∈ node.fields, entry.2.kind = .enumeration ∧
        ∃ target, graph.typeAt? 0 entry.2.typeName = some target ∧ target.kind = .enumeration := by
  intro address place role schema config
  obtain ⟨graph, hgraph, hchecks⟩ : ∃ graph, TypeGraph.ofSchema ⟨[]⟩ schema config [] = .ok graph ∧
      ((graph.levels[0]?.getD []).any fun entry ↦
        entry.1 == "UserInterface" && entry.2.kind == .interface &&
          entry.2.fields.any (·.2.kind == .object) &&
          entry.2.fields.any (·.2.kind == .enumeration)) = true :=
    Except.exists_of_passes (by decide +kernel)
  obtain ⟨⟨name, node⟩, hnode, hchecks⟩ := List.any_eq_true.mp hchecks
  simp only [Bool.and_eq_true, beq_iff_eq, List.any_eq_true] at hchecks
  obtain ⟨⟨⟨rfl, hkind⟩, object, hobject, hobjectKind⟩, enum, henum, henumKind⟩ := hchecks
  obtain ⟨-, hobjects, henums, -⟩ :=
    ofSchema_targets ⟨[]⟩ schema config graph hgraph 0 "UserInterface" node hnode
  obtain ⟨union, hunion, hnested⟩ := hobjects object hobject hobjectKind
  obtain ⟨role, hrole, hroleKind, -, -⟩ := henums enum henum henumKind
  rw [hkind] at hnested
  exact ⟨graph, node, hgraph, hnode,
    ⟨object, hobject, hobjectKind, union, hunion, (Option.some.inj hnested).symm⟩,
    enum, henum, henumKind, role, hrole, hroleKind⟩

end Synthesis

end ResourceApi

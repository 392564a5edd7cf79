import ResourceApi.Proofs.Graph.Targets
import ResourceApi.Proofs.Graph.Visibility

/-!
# Interfaces

An interface is about the fields that some segments see and others do not.  What counts is what is left
visible after all configurations on the way to the field, so that an interface at a depth depends on
everything above it.
-/

namespace ResourceApi.Synthesis

variable {scalars : ScalarRegistry} {start position : Position} {builder next : GraphBuilder}
  {field : ClassifiedField} {options : FieldConfig} {level : Nat} {name typeName : String}
  {held : FieldNode} {nullable : List Bool}

/-! ## Fields of an interface -/

/-- The segments that every configuration on the way to a field enables. -/
def Position.seenBy (position : Position) (options : FieldConfig) : List Segment :=
  Segment.all.filter fun segment ↦ (position.fieldPath options).all (·.object segment)

/-- The field is one for the interface of its node: it is attached to it, and one or two of the three
segments see it. -/
structure Position.Abstracts (position : Position) (options : FieldConfig) : Prop where
  attached : options.config.enabled .interface = true
  partly : (position.seenBy options).length = 1 ∨ (position.seenBy options).length = 2

/-- An interface holds leaves as they are, references as identifiers, and nested objects as the union of
their types. -/
def HeldAs (field : ClassifiedField) (options : FieldConfig) (held : FieldNode) : Prop :=
  match field.kind with
  | .scalar => held.kind = .scalar ∧ held.typeName = field.target
  | .enumeration _ =>
    if options.config.enabled .enumeration then
      held.kind = .enumeration ∧ held.typeName = field.target
    else held.kind = .scalar ∧ held.typeName = "String"
  | .reference => held.kind = .scalar ∧ held.typeName = "ID"
  | .object _ => held.kind = .object ∧ held.typeName = unionTypeName field.target

theorem heldAs_of_interfaceField?
    (h : interfaceField? level field options builder nullable = some held)
    (description : Option String) :
    HeldAs field options { held with description := description } := by
  unfold interfaceField? leafLink at h
  unfold HeldAs
  cases hkind : field.kind with
  | scalar =>
    simp only [hkind] at h
    cases h
    exact ⟨rfl, rfl⟩
  | enumeration values =>
    by_cases hattached : options.config.enabled .enumeration = true <;>
      simp only [hkind, hattached, Bool.false_eq_true, if_true, if_false] at h ⊢ <;>
      cases h <;> exact ⟨rfl, rfl⟩
  | reference =>
    simp only [hkind, FieldKind.isReference, if_true] at h
    cases h
    exact ⟨rfl, rfl⟩
  | object child =>
    simp only [hkind, FieldKind.isReference, Bool.false_eq_true, if_false] at h
    split at h <;> cases h
    exact ⟨rfl, rfl⟩

/-- A field is seen by one or two segments exactly if there is a first one and not all of them follow. -/
theorem partly_of_segments {first : Segment} {rest : List Segment}
    (visible : (Visibility.under (position.fieldPath options)).segments = first :: rest)
    (fewer : rest.length + 1 < Segment.all.length) :
    (position.seenBy options).length = 1 ∨ (position.seenBy options).length = 2 := by
  have hlength : (position.seenBy options).length = rest.length + 1 := congrArg List.length visible
  have hall : Segment.all.length = 3 := rfl
  omega

theorem Position.Abstracts.exists_segments (h : position.Abstracts options) :
    ∃ first rest, (Visibility.under (position.fieldPath options)).segments = first :: rest ∧
      rest.length + 1 < Segment.all.length := by
  obtain ⟨-, hpartly⟩ := h
  change (Visibility.under _).segments.length = 1 ∨ (Visibility.under _).segments.length = 2 at hpartly
  cases hsegments : (Visibility.under (position.fieldPath options)).segments with
  | nil =>
    rw [hsegments] at hpartly
    simp at hpartly
  | cons first rest =>
    rw [hsegments, List.length_cons] at hpartly
    have hall : Segment.all.length = 3 := rfl
    exact ⟨first, rest, rfl, by omega⟩

/-! ## What is held was declared -/

/-- A field that is written into an interface is declared for it by a node that it is named after. -/
theorem Writes.abstracted (h : Writes scalars start builder level name held)
    (hname : name = interfaceTypeName typeName) :
    ∃ (position : Position) (field : ClassifiedField) (options : FieldConfig),
      position.Below scalars start ∧ position.level = level ∧ position.typeName = typeName ∧
      position.Declares scalars field options ∧ field.name = held.name ∧
      position.Abstracts options ∧ HeldAs field options held := by
  have hinterface : TypeKind.interface.Names name := ⟨typeName, hname⟩
  cases h with
  | interface below declared enabled visible partly enumOpen found =>
    obtain rfl := (String.append_left_inj _).mp hname
    exact ⟨_, _, _, below, rfl, rfl, declared, (links_of_interfaceField? found).name.symm,
      ⟨enabled, partly_of_segments visible partly⟩, heldAs_of_interfaceField? found _⟩
  | objectIdentifier => cases hinterface.unique (TypeKind.names_object ..)
  | object => cases hinterface.unique (TypeKind.names_object ..)
  | inputIdentifier => cases hinterface.unique (TypeKind.names_input ..)
  | input => cases hinterface.unique (TypeKind.names_input ..)

/-! ## What is declared is held -/

theorem exists_interfaceField? (leaf : field.kind.isObject = false) (level : Nat)
    (options : FieldConfig) (builder : GraphBuilder) (nullable : List Bool) :
    ∃ node, interfaceField? level field options builder nullable = some node := by
  unfold interfaceField?
  rcases leafLink_or_isReference leaf options with ⟨link, hlink⟩ | ⟨hlink, hreference⟩
  · rw [hlink]
    exact ⟨_, rfl⟩
  · rw [hlink, hreference]
    exact ⟨_, rfl⟩

/-- Opening a node opens its interface, if the node has one. -/
theorem exists_interface_openNode (enabled : position.config.enabled .interface = true)
    (builder : GraphBuilder) :
    ∃ holder, (openNode position.node position.typeName position.config (.under position.path)
      position.level builder).get? position.level (interfaceTypeName position.typeName) =
        some holder := by
  unfold openNode
  dsimp only
  rw [if_pos enabled, GraphBuilder.get?_ensure, if_pos ⟨rfl, rfl⟩]
  exact ⟨_, rfl⟩

/-- Writing a field writes it into the interface that it is for, if the interface is there. -/
theorem holds_interface_writeField (below : position.Below scalars start)
    (declared : position.Declares scalars field options) (leaf : field.kind.isObject = false)
    (abstracts : position.Abstracts options) (existing : builder.existing = []) {holder : TypeNode}
    (found : builder.get? position.level (interfaceTypeName position.typeName) = some holder) :
    Holds (writeField position.typeName position.level field options
      (.under (position.fieldPath options)) builder) position.level
      (interfaceTypeName position.typeName) field.name := by
  have hopen := enumOpen_defineEnum position.typeName position.level field options builder
  have hobjects := writeObjects_steps below declared hopen
  have hinputs := writeInputs_steps below declared (hopen.of_steps hobjects)
  have hbefore := Steps.grows (((defineEnum_steps below declared builder).trans hobjects).trans hinputs)
  obtain ⟨later, hlater, -⟩ := hbefore.types _ _ _ found
  obtain ⟨first, rest, hsegments, hfewer⟩ := abstracts.exists_segments
  unfold writeField writeInterface
  simp only [hsegments, abstracts.attached, hfewer, hlater, decide_true, Option.isSome_some,
    Bool.and_self, if_true]
  obtain ⟨node, hnode⟩ := exists_interfaceField? leaf position.level options _
    (options.nullable.object first)
  rw [← (links_of_interfaceField? hnode).name]
  exact holds_write (hbefore.existing.trans existing) hlater hnode field.description

theorem holds_interface_of_walk (built : Built scalars start builder)
    (h : start.walk scalars builder = .ok next) (below : position.Below scalars start)
    (enabled : position.config.enabled .interface = true)
    (declared : position.Declares scalars field options) (leaf : field.kind.isObject = false)
    (abstracts : position.Abstracts options) :
    Holds next position.level (interfaceTypeName position.typeName) field.name := by
  apply holds_of_walk built h below declared
  · exact exists_interface_openNode enabled
  · intro builder holder existing found
    exact holds_interface_writeField below declared leaf abstracts existing found

/-! ## Finished graphs -/

/-- The interfaces of a graph.  The interface of a model type at a level holds only fields that some node
of the level and the type declares for it: the field is attached to the interface, and of the three
segments one or two are enabled by every configuration on the path to the field.  A reference is held as
an identifier, and a nested object as the union of its types, which is there.  And the interface holds
all such fields of nodes with interfaces, nested objects apart. -/
theorem ofSchema_interfaces (scalars : ScalarRegistry) (schema : ResourceSchema)
    (config : GenerationConfig) (graph : TypeGraph)
    (h : TypeGraph.ofSchema scalars schema config [] = .ok graph) (level : Nat) (typeName : String) :
    (∀ holder, graph.typeAt? level (interfaceTypeName typeName) = some holder →
      ∀ entry ∈ holder.fields,
        (∃ (position : Position) (field : ClassifiedField) (options : FieldConfig),
          position.Below scalars (.root schema config) ∧ position.level = level ∧
          position.typeName = typeName ∧ position.Declares scalars field options ∧
          field.name = entry.1 ∧ position.Abstracts options ∧ HeldAs field options entry.2) ∧
        (entry.2.kind = .object → ∃ union,
          graph.typeAt? (level + 1) entry.2.typeName = some union ∧ union.kind = .union)) ∧
    ∀ (position : Position) (field : ClassifiedField) (options : FieldConfig),
      position.Below scalars (.root schema config) →
      position.level = level → position.typeName = typeName →
      position.config.enabled .interface = true →
      position.Declares scalars field options → field.kind.isObject = false →
      position.Abstracts options →
        ∃ holder, graph.typeAt? level (interfaceTypeName typeName) = some holder ∧
          holder.kind = .interface ∧ holder.fields.has field.name = true := by
  obtain ⟨builder, hwalk, hbuilt, rfl⟩ := ofSchema_built h
  constructor
  · intro holder hholder entry hentry
    have htype := hbuilt.types _ _ _ (hbuilt.typeAt?_finish.mp hholder).1
    have hkind : holder.kind = .interface := htype.kind.unique (TypeKind.names_interface typeName)
    obtain ⟨hkey, before, -, hwrites⟩ := htype.fields entry hentry
    refine ⟨?_, fun hobject ↦ ?_⟩
    · rw [hkey]
      exact hwrites.abstracted rfl
    · obtain ⟨target, htarget, hnested⟩ := htype.exists_nested hbuilt hentry hobject
      rw [hkind] at hnested
      exact ⟨target, htarget, (Option.some.inj hnested).symm⟩
  · rintro position field options below rfl rfl enabled declared leaf abstracts
    have hholds := holds_interface_of_walk (built_new ..) hwalk below enabled declared leaf abstracts
    exact hholds.finish hbuilt (TypeKind.names_interface position.typeName) ⟨by simp, by simp⟩

/-- Users whose best friend the mixed segment does not show: the interface of users has the friend, as an
identifier. -/
theorem ofSchema_interfaces_users :
    let friend : FieldAttributes := ⟨none, none, some "User", none, none, false, none, none, .null⟩
    let schema : ResourceSchema :=
      ⟨"User", ⟨none, [("friend", .attributes friend)], []⟩, [], [], none⟩
    let config : GenerationConfig := ⟨fun leaf ↦ leaf != .object .mixed⟩
    ∃ graph holder held, TypeGraph.ofSchema ⟨[]⟩ schema config [] = .ok graph ∧
      graph.typeAt? 0 "UserInterface" = some holder ∧ holder.fields.get? "friend" = some held ∧
      held.kind = .scalar ∧ held.typeName = "ID" := by
  intro friend schema config
  let options : FieldConfig := ⟨config, NullableVectors.defaults 0 false, AuthMapper.default true⟩
  let field : ClassifiedField := ⟨"friend", .reference, 0, "User", false, none, .null⟩
  have hdeclared : (Position.root schema config).Declares ⟨[]⟩ field options :=
    ⟨.attributes friend, List.mem_singleton_self _, rfl, rfl⟩
  obtain ⟨graph, hgraph⟩ : ∃ graph, TypeGraph.ofSchema ⟨[]⟩ schema config [] = .ok graph :=
    ⟨_, rfl⟩
  obtain ⟨hheld, hholds⟩ := ofSchema_interfaces ⟨[]⟩ schema config graph hgraph 0 "User"
  obtain ⟨holder, hholder, -, hfield⟩ :=
    hholds (.root schema config) field options .refl rfl rfl rfl hdeclared rfl ⟨rfl, .inr rfl⟩
  obtain ⟨held, hfound⟩ := Option.isSome_iff_exists.mp hfield
  obtain ⟨⟨position, other, options', below, hlevel, -, ⟨spec, hmem, hclassify, -⟩, hname, -, has⟩, -⟩ :=
    hheld holder hholder ("friend", held) (Entries.mem_of_get? hfound)
  refine ⟨graph, holder, held, hgraph, hholder, hfound, ?_⟩
  -- the only declaration of the name is the reference
  obtain rfl := below.eq_of_level hlevel
  obtain ⟨-, rfl⟩ := Prod.mk.inj (List.mem_singleton.mp hmem)
  rw [hname] at hclassify
  obtain rfl := Except.ok.inj hclassify
  exact has

end ResourceApi.Synthesis

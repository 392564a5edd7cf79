import ResourceApi.Proofs.Graph.Origin

/-!
# Visibility along the path

A type of a segment holds a field exactly if some node of its level and model type declares the field
and every configuration on the way there, from the root to the field, enables the segment; the inputs
hold a field by the same rule for their action.  A nested object may be left out when it has no type.
The identifiers of the root types are the only fields that no node declares.
-/

namespace ResourceApi.Synthesis

variable {scalars : ScalarRegistry} {start position : Position} {builder next : GraphBuilder}
  {field : ClassifiedField} {options : FieldConfig} {level : Nat} {name typeName : String}
  {segment : Segment} {action : InputAction} {node : FieldNode}

/-- A node of the level and the model type declares the field, and every configuration from that of the
root to that of the field enables it. -/
def Shown (scalars : ScalarRegistry) (start : Position) (level : Nat) (typeName fieldName : String)
    (enables : GenerationConfig → Bool) : Prop :=
  ∃ (position : Position) (field : ClassifiedField) (options : FieldConfig),
    position.Below scalars start ∧ position.level = level ∧ position.typeName = typeName ∧
    position.Declares scalars field options ∧ field.name = fieldName ∧
    ∀ config ∈ position.fieldPath options, enables config = true

/-! ## What is held was shown -/

theorem object_under_iff {configs : List GenerationConfig} :
    (Visibility.under configs).object segment = true ↔
      ∀ config ∈ configs, config.object segment = true :=
  List.all_eq_true

theorem input_under_iff {configs : List GenerationConfig} :
    (Visibility.under configs).input action = true ↔
      ∀ config ∈ configs, config.input action = true :=
  List.all_eq_true

/-- A field that is written into an object type is the identifier of the root, or it is shown. -/
theorem Writes.shown_object (h : Writes scalars start builder level name node)
    (hstart : start.level = 0) (hname : name = objectTypeName segment typeName) :
    (level = 0 ∧ typeName = start.typeName ∧ node.name = "id" ∧
      ∀ config ∈ start.path, config.object segment = true) ∨
    Shown scalars start level typeName node.name (·.object segment) := by
  have hobject : TypeKind.object.Names name := ⟨segment, typeName, hname⟩
  cases h with
  | objectIdentifier below visible outermost =>
    obtain ⟨rfl, rfl⟩ := objectTypeName_injective hname
    obtain rfl := below.eq_of_level (outermost.trans hstart.symm)
    exact .inl ⟨outermost, rfl, rfl, object_under_iff.mp visible⟩
  | object below declared visible enumOpen found =>
    obtain ⟨rfl, rfl⟩ := objectTypeName_injective hname
    exact .inr ⟨_, _, _, below, rfl, rfl, declared, (links_of_objectField? found).name.symm,
      object_under_iff.mp visible⟩
  | inputIdentifier => cases hobject.unique (TypeKind.names_input ..)
  | input => cases hobject.unique (TypeKind.names_input ..)
  | interface => cases hobject.unique (TypeKind.names_interface _)

/-- A field that is written into an input is the identifier of the root update, or it is shown. -/
theorem Writes.shown_input (h : Writes scalars start builder level name node)
    (hstart : start.level = 0) (hname : name = inputTypeName action typeName) :
    (level = 0 ∧ typeName = start.typeName ∧ node.name = "id" ∧ action = .update ∧
      ∀ config ∈ start.path, config.input action = true) ∨
    Shown scalars start level typeName node.name (·.input action) := by
  have hinput : (TypeKind.input action).Names name := ⟨typeName, hname⟩
  cases h with
  | inputIdentifier below visible outermost =>
    obtain ⟨rfl, rfl⟩ := inputTypeName_injective hname
    obtain rfl := below.eq_of_level (outermost.trans hstart.symm)
    exact .inl ⟨outermost, rfl, rfl, rfl, input_under_iff.mp visible⟩
  | input below declared visible enumOpen found =>
    obtain ⟨rfl, rfl⟩ := inputTypeName_injective hname
    exact .inr ⟨_, _, _, below, rfl, rfl, declared, (links_of_inputField? found).name.symm,
      input_under_iff.mp visible⟩
  | objectIdentifier => cases hinput.unique (TypeKind.names_object ..)
  | object => cases hinput.unique (TypeKind.names_object ..)
  | interface => cases hinput.unique (TypeKind.names_interface _)

/-! ## What is shown is held -/

/-- The type is there and holds the field. -/
def Holds (builder : GraphBuilder) (level : Nat) (name fieldName : String) : Prop :=
  ∃ node, builder.get? level name = some node ∧ node.fields.has fieldName = true

theorem Holds.later {fieldName : String} (h : Holds builder level name fieldName)
    (grows : builder.Grows next) : Holds next level name fieldName := by
  obtain ⟨node, hnode, hfield⟩ := h
  obtain ⟨held, hheld⟩ := Option.isSome_iff_exists.mp hfield
  obtain ⟨later, hlater, hgrows⟩ := grows.types level name node hnode
  exact ⟨later, hlater, Option.isSome_iff_exists.mpr ⟨held, hgrows.fields fieldName held hheld⟩⟩

/-- A field that is added to a type that is there is held afterwards; without an initial document
nothing else keeps it out. -/
theorem holds_addField (existing : builder.existing = []) {holder : TypeNode}
    (found : builder.get? level name = some holder) :
    Holds (builder.addField level name node) level name node.name := by
  unfold GraphBuilder.addField
  split
  · refine ⟨_, by rw [GraphBuilder.get?_modify, if_pos ⟨rfl, rfl⟩, found]; rfl, ?_⟩
    rw [Entries.has_iff, Entries.keys_append]
    simp
  · rename_i hadd
    refine ⟨holder, found, ?_⟩
    unfold GraphBuilder.canAdd GraphBuilder.definedBefore at hadd
    rw [found, existing] at hadd
    simpa using hadd

theorem holds_write (existing : builder.existing = []) {holder : TypeNode}
    (found : builder.get? level name = some holder) {written : Option FieldNode}
    (hwritten : written = some node) (description : Option String) :
    Holds (write level name description builder written) level name node.name := by
  rw [hwritten]
  exact holds_addField existing found

theorem exists_openObject (node : SchemaNode) (typeName : String) (level : Nat)
    (builder : GraphBuilder) (segment : Segment) :
    ∃ holder, (openObject node typeName level builder segment).get? level
      (objectTypeName segment typeName) = some holder := by
  have hlabelled : ∃ holder, ((builder.ensure level (objectTypeName segment typeName) .object
      typeName).modify level (objectTypeName segment typeName) fun object ↦
        { object with segment := some segment, fragments := node.fragments }).get? level
      (objectTypeName segment typeName) = some holder := by
    rw [GraphBuilder.get?_modify, if_pos ⟨rfl, rfl⟩, GraphBuilder.get?_ensure, if_pos ⟨rfl, rfl⟩]
    exact ⟨_, rfl⟩
  obtain ⟨holder, hholder⟩ := hlabelled
  unfold openObject
  dsimp only
  split
  · obtain ⟨later, hlater, -⟩ := (grows_addField _ _ _ idField).types _ _ _ hholder
    exact ⟨later, hlater⟩
  · exact ⟨holder, hholder⟩

theorem exists_openInput (typeName : String) (level : Nat) (builder : GraphBuilder)
    (action : InputAction) :
    ∃ holder, (openInput typeName level builder action).get? level
      (inputTypeName action typeName) = some holder := by
  have hopened : ∃ holder, (builder.ensure level (inputTypeName action typeName) (.input action)
      typeName).get? level (inputTypeName action typeName) = some holder := by
    rw [GraphBuilder.get?_ensure, if_pos ⟨rfl, rfl⟩]
    exact ⟨_, rfl⟩
  obtain ⟨holder, hholder⟩ := hopened
  unfold openInput
  dsimp only
  split
  · obtain ⟨later, hlater, -⟩ := (grows_addField _ _ _ idField).types _ _ _ hholder
    exact ⟨later, hlater⟩
  · exact ⟨holder, hholder⟩

/-- Opening a node opens its object types in the segments that see it. -/
theorem exists_object_openNode (below : position.Below scalars start)
    (visible : (Visibility.under position.path).object segment = true) (builder : GraphBuilder) :
    ∃ holder, (openNode position.node position.typeName position.config (.under position.path)
      position.level builder).get? position.level (objectTypeName segment position.typeName) =
        some holder := by
  obtain ⟨turn, -, hopened⟩ := openObjects_turn below visible builder
  have hinputs := hopened.trans (openInputs_steps below _)
  have hnode := hinputs.trans (openInterface_steps below _)
  obtain ⟨holder, hholder⟩ := exists_openObject position.node position.typeName position.level turn
    segment
  obtain ⟨later, hlater, -⟩ := (Steps.grows hnode).types _ _ _ hholder
  exact ⟨later, hlater⟩

/-- Opening a node opens its inputs for the actions that see it. -/
theorem exists_input_openNode (below : position.Below scalars start)
    (visible : (Visibility.under position.path).input action = true) (builder : GraphBuilder) :
    ∃ holder, (openNode position.node position.typeName position.config (.under position.path)
      position.level builder).get? position.level (inputTypeName action position.typeName) =
        some holder := by
  obtain ⟨turn, -, hopened⟩ := openInputs_turn below visible
    ((Visibility.under position.path).segments.foldl
      (openObject position.node position.typeName position.level) builder)
  have hnode := hopened.trans (openInterface_steps below _)
  obtain ⟨holder, hholder⟩ := exists_openInput position.typeName position.level turn action
  obtain ⟨later, hlater, -⟩ := (Steps.grows hnode).types _ _ _ hholder
  exact ⟨later, hlater⟩

/-- A field that is no nested object is a leaf or a reference. -/
theorem leafLink_or_isReference (leaf : field.kind.isObject = false) (options : FieldConfig) :
    (∃ link, leafLink field options = some link) ∨
      leafLink field options = none ∧ field.kind.isReference = true := by
  unfold leafLink
  cases hkind : field.kind with
  | scalar => exact .inl ⟨_, rfl⟩
  | enumeration values =>
    by_cases henabled : options.config.enabled .enumeration = true
    · exact .inl ⟨_, by rw [if_pos henabled]⟩
    · exact .inl ⟨_, by rw [if_neg henabled]⟩
  | reference => exact .inr ⟨rfl, rfl⟩
  | object child =>
    rw [hkind] at leaf
    cases leaf

/-- A field that is no nested object has something to write in every segment. -/
theorem exists_objectField? (leaf : field.kind.isObject = false) (level : Nat)
    (options : FieldConfig) (builder : GraphBuilder) (segment : Segment) :
    ∃ node, objectField? level field options builder segment = some node := by
  unfold objectField?
  rcases leafLink_or_isReference leaf options with ⟨link, hlink⟩ | ⟨hlink, hreference⟩
  · rw [hlink]
    exact ⟨_, rfl⟩
  · rw [hlink, hreference]
    exact ⟨_, rfl⟩

theorem exists_inputField? (leaf : field.kind.isObject = false) (level : Nat)
    (options : FieldConfig) (builder : GraphBuilder) (action : InputAction) :
    ∃ node, inputField? level field options builder action = some node := by
  unfold inputField?
  rcases leafLink_or_isReference leaf options with ⟨link, hlink⟩ | ⟨hlink, hreference⟩
  · rw [hlink]
    exact ⟨_, rfl⟩
  · rw [hlink, hreference]
    exact ⟨_, rfl⟩

/-- Writing a field writes it into the object types of the segments that see it. -/
theorem holds_object_writeField (below : position.Below scalars start)
    (declared : position.Declares scalars field options) (leaf : field.kind.isObject = false)
    (visible : (Visibility.under (position.fieldPath options)).object segment = true)
    (existing : builder.existing = []) {holder : TypeNode}
    (found : builder.get? position.level (objectTypeName segment position.typeName) = some holder) :
    Holds (writeField position.typeName position.level field options
      (.under (position.fieldPath options)) builder) position.level
      (objectTypeName segment position.typeName) field.name := by
  have hdefine := defineEnum_steps below declared builder
  have henum := enumOpen_defineEnum position.typeName position.level field options builder
  obtain ⟨turn, hturn, hwritten⟩ := steps_foldl_turn
    (fun _ _ h hsteps ↦ EnumOpen.of_steps h hsteps)
    (fun _ hsegment builder henum ↦ write_steps builder fun node hnode ↦
      .object below declared (Visibility.mem_segments.mp hsegment) henum hnode)
    henum (Visibility.mem_segments.mpr visible)
  have hbefore := Steps.grows (hdefine.trans hturn)
  obtain ⟨later, hlater, -⟩ := hbefore.types _ _ _ found
  obtain ⟨node, hnode⟩ := exists_objectField? leaf position.level options turn segment
  have hholds := holds_write (hbefore.existing.trans existing) hlater hnode field.description
  rw [(links_of_objectField? hnode).name] at hholds
  have hobjects := writeObjects_steps below declared henum
  have hinputs := writeInputs_steps below declared (henum.of_steps hobjects)
  have hinterface := writeInterface_steps below declared
    ((henum.of_steps hobjects).of_steps hinputs)
  exact hholds.later (Steps.grows ((hwritten.trans hinputs).trans hinterface))

/-- Writing a field writes it into the inputs of the actions that see it, if there is something to
write from now on. -/
theorem holds_input_writeField (below : position.Below scalars start)
    (declared : position.Declares scalars field options)
    (visible : (Visibility.under (position.fieldPath options)).input action = true)
    (links : ∀ turn, builder.Grows turn →
      ∃ node, inputField? position.level field options turn action = some node)
    (existing : builder.existing = []) {holder : TypeNode}
    (found : builder.get? position.level (inputTypeName action position.typeName) = some holder) :
    Holds (writeField position.typeName position.level field options
      (.under (position.fieldPath options)) builder) position.level
      (inputTypeName action position.typeName) field.name := by
  have hdefine := defineEnum_steps below declared builder
  have hopen := enumOpen_defineEnum position.typeName position.level field options builder
  have hobjects := writeObjects_steps below declared hopen
  have henum := hopen.of_steps hobjects
  obtain ⟨turn, hturn, hwritten⟩ := steps_foldl_turn
    (fun _ _ h hsteps ↦ EnumOpen.of_steps h hsteps)
    (fun _ haction builder henum ↦ write_steps builder fun node hnode ↦
      .input below declared (Visibility.mem_inputs.mp haction) henum hnode)
    henum (Visibility.mem_inputs.mpr visible)
  have hbefore := Steps.grows ((hdefine.trans hobjects).trans hturn)
  obtain ⟨later, hlater, -⟩ := hbefore.types _ _ _ found
  obtain ⟨node, hnode⟩ := links turn hbefore
  have hholds := holds_write (hbefore.existing.trans existing) hlater hnode field.description
  rw [(links_of_inputField? hnode).name] at hholds
  have hinputs := writeInputs_steps below declared henum
  have hinterface := writeInterface_steps below declared (henum.of_steps hinputs)
  exact hholds.later (Steps.grows (hwritten.trans hinterface))

theorem object_path_of_fieldPath
    (visible : (Visibility.under (position.fieldPath options)).object segment = true) :
    (Visibility.under position.path).object segment = true :=
  object_under_iff.mpr fun config hconfig ↦
    object_under_iff.mp visible config (List.mem_append_left _ hconfig)

theorem input_path_of_fieldPath
    (visible : (Visibility.under (position.fieldPath options)).input action = true) :
    (Visibility.under position.path).input action = true :=
  input_under_iff.mpr fun config hconfig ↦
    input_under_iff.mp visible config (List.mem_append_left _ hconfig)

/-- A type that is opened with its node and that a field is written into holds the field at the end of
a walk. -/
theorem holds_of_walk (built : Built scalars start builder)
    (h : start.walk scalars builder = .ok next) (below : position.Below scalars start)
    (declared : position.Declares scalars field options)
    (opened : ∀ builder, ∃ holder, (openNode position.node position.typeName position.config
      (.under position.path) position.level builder).get? position.level name = some holder)
    (written : ∀ (builder : GraphBuilder) (holder : TypeNode), builder.existing = [] →
      builder.get? position.level name = some holder →
        Holds (writeField position.typeName position.level field options
          (.under (position.fieldPath options)) builder) position.level name field.name) :
    Holds next position.level name field.name := by
  obtain ⟨before, walked, hbefore, hnested, hafter⟩ := below.field_written declared h
  obtain ⟨holder, hholder⟩ := opened before
  obtain ⟨later, hlater, -⟩ := (Steps.grows hnested).types _ _ _ hholder
  have hwalked := (hbefore.trans (openNode_steps below before)).trans hnested
  have hexisting := (Steps.built hwalked built).existing
  exact (written walked later hexisting hlater).later (Steps.grows hafter)

/-- At the end of a walk the object types hold the fields that their segments see. -/
theorem holds_object_of_walk (built : Built scalars start builder)
    (h : start.walk scalars builder = .ok next) (below : position.Below scalars start)
    (declared : position.Declares scalars field options) (leaf : field.kind.isObject = false)
    (visible : (Visibility.under (position.fieldPath options)).object segment = true) :
    Holds next position.level (objectTypeName segment position.typeName) field.name := by
  apply holds_of_walk built h below declared
  · exact exists_object_openNode below (object_path_of_fieldPath visible)
  · intro builder holder existing found
    exact holds_object_writeField below declared leaf visible existing found

/-- At the end of a walk the inputs hold the fields that their actions see. -/
theorem holds_input_of_walk (built : Built scalars start builder)
    (h : start.walk scalars builder = .ok next) (below : position.Below scalars start)
    (declared : position.Declares scalars field options) (leaf : field.kind.isObject = false)
    (visible : (Visibility.under (position.fieldPath options)).input action = true) :
    Holds next position.level (inputTypeName action position.typeName) field.name := by
  apply holds_of_walk built h below declared
  · exact exists_input_openNode below (input_path_of_fieldPath visible)
  · intro builder holder existing found
    exact holds_input_writeField below declared visible
      (fun turn _ ↦ exists_inputField? leaf position.level options turn action) existing found

/-! ## Finished graphs -/

/-- What a built-up builder holds in a type of a kind with fields, the finished graph holds. -/
theorem Holds.finish {fieldName : String} {kind : TypeKind} (h : Holds builder level name fieldName)
    (built : Built scalars start builder) (hname : kind.Names name)
    (hfields : kind ≠ .union ∧ kind ≠ .enumeration) :
    ∃ holder, builder.finish.typeAt? level name = some holder ∧ holder.kind = kind ∧
      holder.fields.has fieldName = true := by
  obtain ⟨holder, hholder, hfield⟩ := h
  have hkind : holder.kind = kind := (built.types level name holder hholder).kind.unique hname
  have hfilled : holder.isEmpty = false := by
    have hne : holder.fields ≠ [] := by
      intro hnil
      rw [hnil] at hfield
      cases hfield
    unfold TypeNode.isEmpty
    rw [hkind]
    cases kind <;> simp_all
  exact ⟨holder, built.typeAt?_finish.mpr ⟨hholder, hfilled⟩, hkind, hfield⟩

theorem Built.writes_of_has {fieldName : String} {holder : TypeNode}
    (built : Built scalars start builder)
    (found : builder.finish.typeAt? level name = some holder)
    (has : holder.fields.has fieldName = true) :
    ∃ before node, Writes scalars start before level name node ∧ node.name = fieldName := by
  obtain ⟨hholder, -⟩ := built.typeAt?_finish.mp found
  obtain ⟨node, hnode⟩ := Option.isSome_iff_exists.mp has
  obtain ⟨hname, before, -, hwrites⟩ :=
    (built.types level name holder hholder).fields _ (Entries.mem_of_get? hnode)
  exact ⟨before, node, hwrites, hname.symm⟩

/-- The visibility of the fields of a graph.  An object type of a segment holds only fields that some
node of its level and model type declares and that every configuration on the path to the field enables
for the segment, the identifier of the root apart; and it holds all of these that are no nested objects.
The inputs hold the fields of their actions in the same way; the identifier of the root is in the update
input only. -/
theorem ofSchema_visibility (scalars : ScalarRegistry) (schema : ResourceSchema)
    (config : GenerationConfig) (graph : TypeGraph)
    (h : TypeGraph.ofSchema scalars schema config [] = .ok graph) (level : Nat) (typeName : String) :
    (∀ segment holder fieldName,
      graph.typeAt? level (objectTypeName segment typeName) = some holder →
      holder.fields.has fieldName = true →
        (level = 0 ∧ typeName = schema.resource ∧ fieldName = "id" ∧
          config.object segment = true) ∨
        Shown scalars (.root schema config) level typeName fieldName (·.object segment)) ∧
    (∀ segment (position : Position) (field : ClassifiedField) (options : FieldConfig),
      position.Below scalars (.root schema config) →
      position.level = level → position.typeName = typeName →
      position.Declares scalars field options → field.kind.isObject = false →
      (∀ enabled ∈ position.fieldPath options, enabled.object segment = true) →
        ∃ holder, graph.typeAt? level (objectTypeName segment typeName) = some holder ∧
          holder.kind = .object ∧ holder.fields.has field.name = true) ∧
    (∀ action holder fieldName,
      graph.typeAt? level (inputTypeName action typeName) = some holder →
      holder.fields.has fieldName = true →
        (level = 0 ∧ typeName = schema.resource ∧ fieldName = "id" ∧ action = .update ∧
          config.input action = true) ∨
        Shown scalars (.root schema config) level typeName fieldName (·.input action)) ∧
    (∀ action (position : Position) (field : ClassifiedField) (options : FieldConfig),
      position.Below scalars (.root schema config) →
      position.level = level → position.typeName = typeName →
      position.Declares scalars field options → field.kind.isObject = false →
      (∀ enabled ∈ position.fieldPath options, enabled.input action = true) →
        ∃ holder, graph.typeAt? level (inputTypeName action typeName) = some holder ∧
          holder.kind = .input action ∧ holder.fields.has field.name = true) := by
  obtain ⟨builder, hwalk, hbuilt, rfl⟩ := ofSchema_built h
  have hstart := built_new scalars (Position.root schema config) schema.resource
  refine ⟨?_, ?_, ?_, ?_⟩
  · intro segment holder fieldName hholder hfield
    obtain ⟨before, node, hwrites, rfl⟩ := hbuilt.writes_of_has hholder hfield
    rcases hwrites.shown_object rfl rfl with ⟨hlevel, htype, hid, hpath⟩ | hshown
    · exact .inl ⟨hlevel, htype, hid, hpath config (List.mem_singleton_self config)⟩
    · exact .inr hshown
  · rintro segment position field options below rfl rfl declared leaf hpath
    have hholds := holds_object_of_walk hstart hwalk below declared leaf
      (object_under_iff.mpr hpath)
    exact hholds.finish hbuilt (TypeKind.names_object segment position.typeName)
      ⟨by simp, by simp⟩
  · intro action holder fieldName hholder hfield
    obtain ⟨before, node, hwrites, rfl⟩ := hbuilt.writes_of_has hholder hfield
    rcases hwrites.shown_input rfl rfl with ⟨hlevel, htype, hid, haction, hpath⟩ | hshown
    · exact .inl ⟨hlevel, htype, hid, haction, hpath config (List.mem_singleton_self config)⟩
    · exact .inr hshown
  · rintro action position field options below rfl rfl declared leaf hpath
    have hholds := holds_input_of_walk hstart hwalk below declared leaf
      (input_under_iff.mpr hpath)
    exact hholds.finish hbuilt (TypeKind.names_input action position.typeName)
      ⟨by simp, by simp⟩

/-- A nested field under a root that is hidden from the mixed segment: the caller's own objects hold it,
and an object of the mixed segment, had there been one, could not. -/
theorem ofSchema_visibility_nested :
    let address : SchemaNode := ⟨none, [("city", .primitive "String")], []⟩
    let table : FieldAttributes := ⟨none, none, none, none, some address, false, none, none, .null⟩
    let schema : ResourceSchema := ⟨"User", ⟨none, [("address", .attributes table)], []⟩, [], [], none⟩
    let config : GenerationConfig := ⟨fun leaf ↦ leaf != .object .mixed⟩
    ∃ graph, TypeGraph.ofSchema ⟨[]⟩ schema config [] = .ok graph ∧
      (∃ holder, graph.typeAt? 1 "SelfUserAddressObject" = some holder ∧
        holder.fields.has "city" = true) ∧
      ∀ holder, graph.typeAt? 1 "MixedUserAddressObject" = some holder →
        holder.fields.has "city" = true →
        Shown ⟨[]⟩ (.root schema config) 1 "UserAddress" "city" (·.object .mixed) := by
  intro address table schema config
  obtain ⟨graph, hgraph⟩ : ∃ graph, TypeGraph.ofSchema ⟨[]⟩ schema config [] = .ok graph :=
    ⟨_, rfl⟩
  obtain ⟨hheld, hshown, -, -⟩ := ofSchema_visibility ⟨[]⟩ schema config graph hgraph 1 "UserAddress"
  refine ⟨graph, hgraph, ?_, fun holder hholder hfield ↦ ?_⟩
  · let options : FieldConfig :=
      ⟨config, NullableVectors.defaults 0 false, AuthMapper.default false⟩
    let outer : ClassifiedField := ⟨"address", .object address, 0,
      ClassifiedField.nestedTypeName "User" "address", false, none, .null⟩
    let city : ClassifiedField := ⟨"city", .scalar, 0, "String", false, none, .null⟩
    have houter : (Position.root schema config).Declares ⟨[]⟩ outer options :=
      ⟨.attributes table, List.mem_singleton_self _, rfl, rfl⟩
    let position := (Position.root schema config).nested outer options address config
    have hbelow : position.Below ⟨[]⟩ (.root schema config) :=
      .single (.intro houter rfl rfl)
    have hcity : position.Declares ⟨[]⟩ city options :=
      ⟨.primitive "String", List.mem_singleton_self _, rfl, rfl⟩
    obtain ⟨holder, hholder, -, hfield⟩ :=
      hshown .own position city options hbelow rfl (by decide) hcity rfl (by decide)
    exact ⟨holder, hholder, hfield⟩
  · rcases hheld .mixed holder "city" hholder hfield with ⟨hlevel, -⟩ | hmixed
    · cases hlevel
    · exact hmixed

end ResourceApi.Synthesis

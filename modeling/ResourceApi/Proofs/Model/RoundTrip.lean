import ResourceApi.Model.Decode
import ResourceApi.Model.Encode
import ResourceApi.Proofs.Json.Equality

/-!
# Models read back from what is written

The reader takes many forms of one model: attributes and nodes by position, members that are null,
missing, unknown or in another order.  The writer has one form for each model, and reading that form
gives the model back.  The writer relies on three properties of a model that was read: no object in it
repeats a name, no partial is null, and every nested declaration is itself read back from what is
written of it.  They are collected along the recursion of the reader.
-/

namespace ResourceApi.Model

variable {α : Type}

/-! ## Lists and tables of one kind -/

/-- If what is written of each element is read back, so is what is written of all of them. -/
theorem mapM_map_of_read {read : Json → Option α} {write : α → Json} {items : List α}
    (h : ∀ a ∈ items, read (write a) = some a) : (items.map write).mapM read = some items := by
  induction items with
  | nil => rfl
  | cons a rest ih =>
    rw [List.forall_mem_cons] at h
    simp [h.1, ih h.2]

theorem mapM_members_of_read {read : Json → Option α} {write : α → Json} {entries : Entries α}
    (h : ∀ entry ∈ entries, read (write entry.2) = some entry.2) :
    (entries.map fun (name, value) ↦ (name, write value)).mapM
      (fun (name, value) ↦ (read value).map fun v ↦ (name, v)) = some entries := by
  induction entries with
  | nil => rfl
  | cons entry rest ih =>
    rw [List.forall_mem_cons] at h
    simp [h.1, ih h.2]

theorem wellFormed_arr_map {write : α → Json} {items : List α} (h : ∀ a ∈ items, (write a).WellFormed) :
    (Json.arr (items.map write)).WellFormed := by
  rwa [Json.WellFormed, Json.wellFormedItems_iff, List.forall_mem_map]

theorem wellFormed_obj_map (write : α → Json) {entries : Entries α} (distinct : entries.keys.Nodup)
    (h : ∀ entry ∈ entries, (write entry.2).WellFormed) :
    (Json.obj (entries.map fun (name, value) ↦ (name, write value))).WellFormed := by
  rw [Json.wellFormed_obj, List.forall_mem_map]
  exact ⟨by simpa [Entries.keys, Function.comp_def] using distinct, h⟩

theorem readEntries_of_read {read : Json → Option α} (write : α → Json)
    (h : ∀ a, read (write a) = some a) {entries : Entries α} (distinct : entries.keys.Nodup) :
    readEntries read (.obj (entries.map fun (name, value) ↦ (name, write value))) = some entries := by
  have hmembers := mapM_members_of_read fun entry (_ : entry ∈ entries) ↦ h entry.2
  simp [readEntries, Json.members?, hmembers, Entries.ofList_of_nodup distinct]

theorem nodup_of_readEntries {read : Json → Option α} {written : Option Json} {entries : Entries α}
    (h : defaulted [] (readEntries read) written = some entries) : entries.keys.Nodup := by
  cases written with
  | none =>
    obtain rfl : [] = entries := Option.some.inj h
    exact List.nodup_nil
  | some value =>
    obtain ⟨members, -, hmembers⟩ := Option.bind_eq_some_iff.mp h
    obtain ⟨pairs, -, hentries⟩ := Option.bind_eq_some_iff.mp hmembers
    cases hentries
    exact (Entries.ofList_spec pairs).1

/-! ## Members that may be left out -/

/-- The members that are written of slots, some of which are empty. -/
def filled (slots : Entries (Option Json)) : Entries Json :=
  slots.flatMap fun (name, value) ↦ present name value

theorem unlessEmpty_eq (name : String) (items : List α) (value : Json) :
    unlessEmpty name items value = present name (if items = [] then none else some value) := by
  cases items with
  | nil => rfl
  | cons => rfl

theorem keys_filled (slots : Entries (Option Json)) : (filled slots).keys.Sublist slots.keys := by
  induction slots with
  | nil => exact List.Sublist.slnil
  | cons slot rest ih =>
    obtain ⟨name, value⟩ := slot
    cases value with
    | none => exact ih.cons name
    | some v => exact ih.cons_cons name

theorem get?_filled {slots : Entries (Option Json)} (distinct : slots.keys.Nodup) (key : String) :
    Entries.get? (filled slots) key = (Entries.get? slots key).join := by
  induction slots with
  | nil => rfl
  | cons slot rest ih =>
    obtain ⟨name, value⟩ := slot
    obtain ⟨hname, hrest⟩ := List.nodup_cons.mp distinct
    change Entries.get? (present name value ++ filled rest) key = _
    rw [Entries.get?_append, ih hrest, Entries.get?_cons]
    by_cases hkey : key = name
    · subst hkey
      rw [Entries.get?_eq_none_iff.mpr hname]
      cases value <;> simp [present, Entries.get?_cons]
    · cases value <;> simp [present, Entries.get?_cons, hkey]

theorem wellFormed_filled {slots : Entries (Option Json)}
    (h : ∀ slot ∈ slots, ∀ value ∈ slot.2, value.WellFormed) :
    ∀ member ∈ filled slots, member.2.WellFormed := by
  intro member hmem
  obtain ⟨⟨name, value⟩, hslot, hmember⟩ := List.mem_flatMap.mp hmem
  cases value with
  | none => cases hmember
  | some v =>
    obtain rfl := List.mem_singleton.mp hmember
    exact h _ hslot v rfl

theorem optional_map {read : Json → Option α} (write : α → Json) (h : ∀ a, read (write a) = some a)
    (hnull : ∀ a, write a ≠ .null) (value : Option α) :
    optional read (value.map write) = some value := by
  cases value with
  | none => rfl
  | some a =>
    have hread : optional read (some (write a)) = (read (write a)).map some := by
      cases hwrite : write a with
      | null => exact absurd hwrite (hnull a)
      | _ => rfl
    rw [Option.map_some, hread, h, Option.map_some]

/-- A member that is left out when it is empty is read as empty. -/
theorem defaulted_unlessEmpty {read : Json → Option (List α)} {items : List α} {value : Json}
    (h : read value = some items) :
    defaulted [] read (if items = [] then none else some value) = some items := by
  cases items with
  | nil => rfl
  | cons => exact h

theorem isPlain_of_nodup {members : List (String × Json)} (h : (Entries.keys members).Nodup)
    (known : List String) : isPlain known members = true := by
  rw [isPlain, List.all_eq_true]
  intro name _
  rw [decide_eq_true_iff, ← List.countP_eq_length_filter]
  have hcount := List.nodup_iff_count_le_one.mp h name
  rwa [Entries.keys, List.count, List.countP_map] at hcount

/-! ## Texts, selections and partials -/

theorem optional_text (value : Option String) : optional Json.str? (value.map .str) = some value :=
  optional_map .str (fun _ ↦ rfl) (fun _ h ↦ nomatch h) value

theorem readStrings_strings (texts : List String) : readStrings (Json.strings texts) = some texts :=
  mapM_map_of_read fun _ _ ↦ rfl

theorem wellFormed_strings (texts : List String) : (Json.strings texts).WellFormed :=
  wellFormed_arr_map fun _ _ ↦ trivial

theorem readSelection_encodeSelection (selection : FragmentSelection) :
    readSelection (encodeSelection selection) = some selection := by
  cases selection with
  | field => rfl
  | nested => rfl

theorem wellFormed_encodeSelection (selection : FragmentSelection) :
    (encodeSelection selection).WellFormed := by
  cases selection with
  | field => trivial
  | nested => exact Json.wellFormed_obj.mpr ⟨by simp, by simp⟩

theorem readFragments_encodeFragments {fragments : List (String × List FragmentSelection)}
    (h : (Entries.keys fragments).Nodup) :
    readEntries readSelections (encodeFragments fragments) = some fragments :=
  readEntries_of_read (fun selections ↦ .arr (selections.map encodeSelection))
    (fun _ ↦ mapM_map_of_read fun selection _ ↦ readSelection_encodeSelection selection) h

theorem wellFormed_encodeFragments {fragments : List (String × List FragmentSelection)}
    (h : (Entries.keys fragments).Nodup) : (encodeFragments fragments).WellFormed :=
  wellFormed_obj_map (fun selections : List FragmentSelection ↦ .arr (selections.map encodeSelection)) h
    fun _ _ ↦ wellFormed_arr_map fun selection _ ↦ wellFormed_encodeSelection selection

/-- A partial that is read is not null, and it repeats no name. -/
theorem settings_of_optional {written generate : Option Json}
    (h : optional (some ·.distinct) written = some generate) :
    ∀ settings ∈ generate, settings ≠ .null ∧ settings.WellFormed := by
  cases written with
  | none =>
    cases h
    exact fun _ hmem ↦ nomatch hmem
  | some value =>
    have hsound := Json.wellFormed_distinct value
    cases value with
    | null =>
      cases h
      exact fun _ hmem ↦ nomatch hmem
    | _ =>
      cases h
      rintro _ ⟨⟩
      exact ⟨by simp [Json.distinct], hsound⟩

theorem optional_settings {generate : Option Json}
    (h : ∀ settings ∈ generate, settings ≠ .null ∧ settings.WellFormed) :
    optional (some ·.distinct) generate = some generate := by
  cases generate with
  | none => rfl
  | some settings =>
    obtain ⟨hnull, hsound⟩ := h settings rfl
    have hdistinct := Json.distinct_of_wellFormed hsound
    cases settings with
    | null => exact absurd rfl hnull
    | _ => simp only [optional, hdistinct, Option.map_some]

/-! ## The recursion of reader and writer -/

theorem encodeSpecs_eq (specs : List FieldSpec) : encodeSpecs specs = specs.map encodeSpec := by
  induction specs with
  | nil => rfl
  | cons spec rest ih => rw [encodeSpecs, ih, List.map_cons]

theorem encodeFields_eq (fields : List (String × FieldSpec)) :
    encodeFields fields = fields.map fun (name, spec) ↦ (name, encodeSpec spec) := by
  induction fields with
  | nil => rfl
  | cons field rest ih => rw [encodeFields, ih, List.map_cons]

theorem decodeSpecs_eq (items : List Json) : decodeSpecs items = items.mapM decodeSpec := by
  induction items with
  | nil => rfl
  | cons value rest ih => rw [decodeSpecs, ih, List.mapM_cons]

theorem decodeFieldMembers_eq (members : List (String × Json)) :
    decodeFieldMembers members =
      members.mapM fun (name, value) ↦ (decodeSpec value).map fun spec ↦ (name, spec) := by
  induction members with
  | nil => rfl
  | cons member rest ih =>
    obtain ⟨name, value⟩ := member
    rw [decodeFieldMembers, ih, List.mapM_cons]
    cases h : decodeSpec value <;> simp [h]

theorem decodeSchemaIn_eq (members : List (String × Json)) :
    decodeSchemaIn members =
      match Entries.get? members "schema" with
      | some value => decodeSchema value
      | none => some none := by
  induction members with
  | nil => rfl
  | cons member rest ih =>
    obtain ⟨name, value⟩ := member
    rw [decodeSchemaIn, Entries.get?_cons, ih]
    by_cases h : name = "schema"
    · subst h
      rfl
    · simp [h, Ne.symm h]

theorem decodeFieldsIn_eq (members : List (String × Json)) :
    decodeFieldsIn members =
      match Entries.get? members "fields" with
      | some value => decodeFields value
      | none => some [] := by
  induction members with
  | nil => rfl
  | cons member rest ih =>
    obtain ⟨name, value⟩ := member
    rw [decodeFieldsIn, Entries.get?_cons, ih]
    by_cases h : name = "fields"
    · subst h
      rfl
    · simp [h, Ne.symm h]

/-! ## Declarations -/

/-- The declaration is written without repeated names, and what is written is read as it. -/
structure Kept (spec : FieldSpec) : Prop where
  wellFormed : (encodeSpec spec).WellFormed
  decodes : decodeSpec (encodeSpec spec) = some spec

theorem kept_primitive (name : String) : Kept (.primitive name) :=
  ⟨trivial, by rw [encodeSpec, decodeSpec]⟩

theorem kept_list {specs : List FieldSpec} (h : ∀ spec ∈ specs, Kept spec) : Kept (.list specs) where
  wellFormed := by
    rw [encodeSpec, encodeSpecs_eq]
    exact wellFormed_arr_map fun spec hspec ↦ (h spec hspec).wellFormed
  decodes := by
    rw [encodeSpec, decodeSpec, decodeSpecs_eq, encodeSpecs_eq,
      mapM_map_of_read fun spec hspec ↦ (h spec hspec).decodes]

/-! ## Nodes -/

/-- What the writer relies on of a node. -/
structure NodeKept (node : SchemaNode) : Prop where
  generate : ∀ settings ∈ node.generate, settings ≠ .null ∧ settings.WellFormed
  names : (Entries.keys node.fields).Nodup
  fields : ∀ field ∈ node.fields, Kept field.2
  fragments : (Entries.keys node.fragments).Nodup

theorem readNode_eq_some_iff {members : Entries Json} {fields : List (String × FieldSpec)}
    {node : SchemaNode} :
    readNode members fields = some node ↔
      isPlain nodeNames members = true ∧
      optional (some ·.distinct) (Entries.get? members "generate") = some node.generate ∧
      defaulted [] (readEntries readSelections) (Entries.get? members "fragments") =
        some node.fragments ∧
      Entries.ofList fields = node.fields := by
  obtain ⟨generate, held, fragments⟩ := node
  unfold readNode
  cases isPlain nodeNames members with
  | false => simp
  | true => simp [Option.bind_eq_some_iff]

theorem NodeKept.of_readNode {node : SchemaNode} {members : Entries Json}
    {fields : List (String × FieldSpec)} (hfields : ∀ field ∈ fields, Kept field.2)
    (h : readNode members fields = some node) : NodeKept node := by
  obtain ⟨-, hgenerate, hfragments, hnode⟩ := readNode_eq_some_iff.mp h
  obtain ⟨hnames, hmem⟩ := Entries.ofList_spec fields
  rw [hnode] at hnames hmem
  exact ⟨settings_of_optional hgenerate, hnames, fun field hfield ↦ hfields field (hmem field hfield),
    nodup_of_readEntries hfragments⟩

def nodeSlots (node : SchemaNode) : Entries (Option Json) :=
  [("generate", node.generate), ("fields", some (.obj (encodeFields node.fields))),
    ("fragments", if node.fragments = [] then none else some (encodeFragments node.fragments))]

theorem encodeNode_eq (node : SchemaNode) : encodeNode node = filled (nodeSlots node) := by
  obtain ⟨generate, fields, fragments⟩ := node
  simp [encodeNode, unlessEmpty_eq, nodeSlots, filled, present]

theorem NodeKept.wellFormed_slots {node : SchemaNode} (h : NodeKept node) :
    ∀ slot ∈ nodeSlots node, ∀ value ∈ slot.2, value.WellFormed := by
  have hfields : (Json.obj (encodeFields node.fields)).WellFormed := by
    rw [encodeFields_eq]
    exact wellFormed_obj_map encodeSpec h.names fun field hfield ↦ (h.fields field hfield).wellFormed
  have hfragments := wellFormed_encodeFragments h.fragments
  simpa [nodeSlots, hfields, hfragments] using fun settings hmem ↦ (h.generate settings hmem).2

/-- A node is read from all members that hold what is written of it. -/
theorem NodeKept.reads {node : SchemaNode} (h : NodeKept node) {members : Entries Json}
    (plain : isPlain nodeNames members = true)
    (holds : ∀ slot ∈ nodeSlots node, Entries.get? members slot.1 = slot.2) :
    decodeFieldsIn members = some node.fields ∧ readNode members node.fields = some node := by
  simp only [nodeSlots, List.forall_mem_cons] at holds
  obtain ⟨hgenerate, hfields, hfragments, -⟩ := holds
  refine ⟨?_, readNode_eq_some_iff.mpr ⟨plain, ?_, ?_, Entries.ofList_of_nodup h.names⟩⟩
  · rw [decodeFieldsIn_eq, hfields, encodeFields_eq]
    exact (decodeFieldMembers_eq _).trans
      (mapM_members_of_read fun field hfield ↦ (h.fields field hfield).decodes)
  · rw [hgenerate]
    exact optional_settings h.generate
  · rw [hfragments]
    exact defaulted_unlessEmpty (readFragments_encodeFragments h.fragments)

theorem get?_filled_of_mem {slots : Entries (Option Json)} (distinct : slots.keys.Nodup) :
    ∀ slot ∈ slots, Entries.get? (filled slots) slot.1 = slot.2 := by
  intro slot hslot
  rw [get?_filled distinct, Entries.get?_of_mem distinct hslot, Option.join_some]

theorem isPlain_filled {slots : Entries (Option Json)} (distinct : slots.keys.Nodup)
    (known : List String) : isPlain known (filled slots) = true :=
  isPlain_of_nodup ((keys_filled slots).nodup distinct) known

theorem nodup_nodeSlots (node : SchemaNode) : (nodeSlots node).keys.Nodup := by
  change nodeNames.Nodup
  decide

theorem NodeKept.decodeSchema {node : SchemaNode} (h : NodeKept node) :
    Model.decodeSchema (.obj (encodeNode node)) = some (some node) := by
  have hdistinct := nodup_nodeSlots node
  rw [encodeNode_eq]
  obtain ⟨hfields, hnode⟩ := h.reads (isPlain_filled hdistinct nodeNames) (get?_filled_of_mem hdistinct)
  simp [Model.decodeSchema, hfields, hnode]

/-! ## Attribute tables -/

/-- What the writer relies on of an attribute table. -/
structure AttributesKept (attributes : FieldAttributes) : Prop where
  schema : ∀ node ∈ attributes.schema, NodeKept node
  options : attributes.options.WellFormed

theorem readAttributes_eq_some_iff {members : Entries Json} {schema : Option SchemaNode}
    {attributes : FieldAttributes} :
    readAttributes members schema = some attributes ↔
      isPlain attributeNames members = true ∧
      optional Json.str? (Entries.get? members "type") = some attributes.primitive ∧
      optional readStrings (Entries.get? members "enum") = some attributes.values ∧
      optional Json.str? (Entries.get? members "ref") = some attributes.reference ∧
      optional Json.str? (Entries.get? members "scalar") = some attributes.scalar ∧
      defaulted false Json.bool? (Entries.get? members "required") = some attributes.required ∧
      optional Json.str? (Entries.get? members "alias") = some attributes.typeAlias ∧
      optional Json.str? (Entries.get? members "description") = some attributes.description ∧
      schema = attributes.schema ∧
      ((Entries.get? members "options").getD .null).distinct = attributes.options := by
  obtain ⟨primitive, values, reference, scalar, held, required, typeAlias, description, options⟩ :=
    attributes
  unfold readAttributes
  cases isPlain attributeNames members with
  | false => simp
  | true => simp [Option.bind_eq_some_iff, -Bool.exists_bool]

theorem AttributesKept.of_readAttributes {attributes : FieldAttributes} {members : Entries Json}
    {schema : Option SchemaNode} (hschema : ∀ node ∈ schema, NodeKept node)
    (h : readAttributes members schema = some attributes) : AttributesKept attributes := by
  obtain ⟨-, -, -, -, -, -, -, -, rfl, hoptions⟩ := readAttributes_eq_some_iff.mp h
  exact ⟨hschema, hoptions ▸ Json.wellFormed_distinct _⟩

def attributeSlots (attributes : FieldAttributes) : Entries (Option Json) :=
  [("type", attributes.primitive.map .str), ("enum", attributes.values.map Json.strings),
    ("ref", attributes.reference.map .str), ("scalar", attributes.scalar.map .str),
    ("schema", attributes.schema.map fun node ↦ .obj (encodeNode node)),
    ("required", some (.bool attributes.required)), ("alias", attributes.typeAlias.map .str),
    ("description", attributes.description.map .str),
    ("options", if attributes.options.isNull then none else some attributes.options)]

theorem encodeAttributes_eq (attributes : FieldAttributes) :
    encodeAttributes attributes = filled (attributeSlots attributes) := by
  obtain ⟨primitive, values, reference, scalar, schema, required, typeAlias, description, options⟩ :=
    attributes
  have hschema : encodeSchema schema =
      present "schema" (schema.map fun node ↦ .obj (encodeNode node)) := by
    cases schema with
    | none => rfl
    | some node => rfl
  have hoptions : (if options.isNull then [] else [("options", options)]) =
      present "options" (if options.isNull then none else some options) := by
    cases options.isNull with
    | true => rfl
    | false => rfl
  simp [encodeAttributes, hschema, hoptions, attributeSlots, filled, present]

theorem nodup_attributeSlots (attributes : FieldAttributes) :
    (attributeSlots attributes).keys.Nodup := by
  change attributeNames.Nodup
  decide

theorem AttributesKept.wellFormed_slots {attributes : FieldAttributes} (h : AttributesKept attributes) :
    ∀ slot ∈ attributeSlots attributes, ∀ value ∈ slot.2, value.WellFormed := by
  have hschema : ∀ node ∈ attributes.schema, (Json.obj (encodeNode node)).WellFormed := by
    intro node hnode
    rw [encodeNode_eq, Json.wellFormed_obj]
    exact ⟨(keys_filled _).nodup (nodup_nodeSlots node),
      wellFormed_filled (h.schema node hnode).wellFormed_slots⟩
  have hrequired : (Json.bool attributes.required).WellFormed := trivial
  simpa [attributeSlots, wellFormed_strings, h.options, hrequired] using hschema

theorem options_eq (options : Json) :
    (if options.isNull then none else some options).getD .null = options := by
  cases options with
  | null => rfl
  | _ => rfl

theorem AttributesKept.reads {attributes : FieldAttributes} (h : AttributesKept attributes) :
    decodeSchemaIn (encodeAttributes attributes) = some attributes.schema ∧
      readAttributes (encodeAttributes attributes) attributes.schema = some attributes := by
  have hdistinct := nodup_attributeSlots attributes
  have holds := get?_filled_of_mem hdistinct
  have hplain := isPlain_filled hdistinct attributeNames
  simp only [attributeSlots, List.forall_mem_cons] at holds
  rw [← attributeSlots, ← encodeAttributes_eq] at holds
  rw [← encodeAttributes_eq] at hplain
  obtain ⟨htype, henum, href, hscalar, hschema, hrequired, halias, hdescription, hoptions, -⟩ := holds
  refine ⟨?_, readAttributes_eq_some_iff.mpr ⟨hplain, ?_, ?_, ?_, ?_, ?_, ?_, ?_, rfl, ?_⟩⟩
  · rw [decodeSchemaIn_eq, hschema]
    cases hnode : attributes.schema with
    | none => rfl
    | some node => exact (h.schema node hnode).decodeSchema
  · rw [htype, optional_text]
  · rw [henum, optional_map Json.strings readStrings_strings (fun _ h ↦ nomatch h)]
  · rw [href, optional_text]
  · rw [hscalar, optional_text]
  · rw [hrequired]
    rfl
  · rw [halias, optional_text]
  · rw [hdescription, optional_text]
  · rw [hoptions, options_eq, Json.distinct_of_wellFormed h.options]

theorem kept_attributes {attributes : FieldAttributes} (h : AttributesKept attributes) :
    Kept (.attributes attributes) where
  wellFormed := by
    rw [encodeSpec, encodeAttributes_eq, Json.wellFormed_obj]
    exact ⟨(keys_filled _).nodup (nodup_attributeSlots attributes),
      wellFormed_filled h.wellFormed_slots⟩
  decodes := by
    obtain ⟨hschema, hattributes⟩ := h.reads
    simp [encodeSpec, decodeSpec, hschema, hattributes]

/-! ## What the reader gives -/

mutual

theorem kept_of_decodeSpec : ∀ {value : Json} {spec : FieldSpec},
    decodeSpec value = some spec → Kept spec
  | .str name, spec, h => by
      rw [decodeSpec, Option.some_inj] at h
      exact h ▸ kept_primitive name
  | .arr items, spec, h => by
      rw [decodeSpec] at h
      split at h
      · rename_i specs hspecs
        cases h
        exact kept_list (kept_of_decodeSpecs hspecs)
      · obtain ⟨members, -, h⟩ := Option.bind_eq_some_iff.mp h
        obtain ⟨schema, hschema, h⟩ := Option.bind_eq_some_iff.mp h
        obtain ⟨attributes, hattributes, h⟩ := Option.bind_eq_some_iff.mp h
        cases h
        exact kept_attributes (.of_readAttributes (nodeKept_of_decodeSchemaAt hschema) hattributes)
  | .obj members, spec, h => by
      rw [decodeSpec] at h
      obtain ⟨schema, hschema, h⟩ := Option.bind_eq_some_iff.mp h
      obtain ⟨attributes, hattributes, h⟩ := Option.bind_eq_some_iff.mp h
      cases h
      exact kept_attributes (.of_readAttributes (nodeKept_of_decodeSchemaIn hschema) hattributes)
  | .null, _, h | .bool _, _, h | .int _, _, h | .float _, _, h => nomatch h

theorem kept_of_decodeSpecs : ∀ {items : List Json} {specs : List FieldSpec},
    decodeSpecs items = some specs → ∀ spec ∈ specs, Kept spec
  | [], _, h => by
      cases h
      exact fun _ hmem ↦ nomatch hmem
  | value :: rest, _, h => by
      rw [decodeSpecs] at h
      obtain ⟨spec, hspec, h⟩ := Option.bind_eq_some_iff.mp h
      obtain ⟨specs, hspecs, h⟩ := Option.bind_eq_some_iff.mp h
      cases h
      exact List.forall_mem_cons.mpr ⟨kept_of_decodeSpec hspec, kept_of_decodeSpecs hspecs⟩

theorem kept_of_decodeFields : ∀ {value : Json} {fields : List (String × FieldSpec)},
    decodeFields value = some fields → ∀ field ∈ fields, Kept field.2
  | .obj members, _, h => by
      rw [decodeFields] at h
      exact kept_of_decodeFieldMembers h
  | .null, _, h | .bool _, _, h | .int _, _, h | .float _, _, h | .str _, _, h | .arr _, _, h =>
      nomatch h

theorem kept_of_decodeFieldMembers : ∀ {members : List (String × Json)}
    {fields : List (String × FieldSpec)}, decodeFieldMembers members = some fields →
    ∀ field ∈ fields, Kept field.2
  | [], _, h => by
      cases h
      exact fun _ hmem ↦ nomatch hmem
  | (_, value) :: rest, _, h => by
      rw [decodeFieldMembers] at h
      obtain ⟨spec, hspec, h⟩ := Option.bind_eq_some_iff.mp h
      obtain ⟨fields, hfields, h⟩ := Option.bind_eq_some_iff.mp h
      cases h
      exact List.forall_mem_cons.mpr ⟨kept_of_decodeSpec hspec, kept_of_decodeFieldMembers hfields⟩

theorem nodeKept_of_decodeSchema : ∀ {value : Json} {schema : Option SchemaNode},
    decodeSchema value = some schema → ∀ node ∈ schema, NodeKept node
  | .null, _, h => by
      cases h
      exact fun _ hmem ↦ nomatch hmem
  | .obj members, _, h => by
      rw [decodeSchema] at h
      obtain ⟨fields, hfields, h⟩ := Option.bind_eq_some_iff.mp h
      obtain ⟨node, hnode, h⟩ := Option.bind_eq_some_iff.mp h
      cases h
      rintro _ ⟨⟩
      exact .of_readNode (kept_of_decodeFieldsIn hfields) hnode
  | .arr items, _, h => by
      rw [decodeSchema] at h
      obtain ⟨members, -, h⟩ := Option.bind_eq_some_iff.mp h
      obtain ⟨fields, hfields, h⟩ := Option.bind_eq_some_iff.mp h
      obtain ⟨node, hnode, h⟩ := Option.bind_eq_some_iff.mp h
      cases h
      rintro _ ⟨⟩
      exact .of_readNode (kept_of_decodeFieldsAt hfields) hnode
  | .bool _, _, h | .int _, _, h | .float _, _, h | .str _, _, h => nomatch h

theorem nodeKept_of_decodeSchemaIn : ∀ {members : List (String × Json)} {schema : Option SchemaNode},
    decodeSchemaIn members = some schema → ∀ node ∈ schema, NodeKept node
  | [], _, h => by
      cases h
      exact fun _ hmem ↦ nomatch hmem
  | (_, value) :: rest, _, h => by
      rw [decodeSchemaIn] at h
      split at h
      · exact nodeKept_of_decodeSchema h
      · exact nodeKept_of_decodeSchemaIn h

theorem nodeKept_of_decodeSchemaAt : ∀ {index : Nat} {items : List Json} {schema : Option SchemaNode},
    decodeSchemaAt index items = some schema → ∀ node ∈ schema, NodeKept node
  | _, [], _, h => by
      cases h
      exact fun _ hmem ↦ nomatch hmem
  | 0, value :: _, _, h => by
      rw [decodeSchemaAt] at h
      exact nodeKept_of_decodeSchema h
  | _ + 1, _ :: rest, _, h => by
      rw [decodeSchemaAt] at h
      exact nodeKept_of_decodeSchemaAt h

theorem kept_of_decodeFieldsIn : ∀ {members : List (String × Json)}
    {fields : List (String × FieldSpec)}, decodeFieldsIn members = some fields → ∀ field ∈ fields, Kept field.2
  | [], _, h => by
      cases h
      exact fun _ hmem ↦ nomatch hmem
  | (_, value) :: rest, _, h => by
      rw [decodeFieldsIn] at h
      split at h
      · exact kept_of_decodeFields h
      · exact kept_of_decodeFieldsIn h

theorem kept_of_decodeFieldsAt : ∀ {index : Nat} {items : List Json}
    {fields : List (String × FieldSpec)}, decodeFieldsAt index items = some fields →
    ∀ field ∈ fields, Kept field.2
  | _, [], _, h => by
      cases h
      exact fun _ hmem ↦ nomatch hmem
  | 0, value :: _, _, h => by
      rw [decodeFieldsAt] at h
      exact kept_of_decodeFields h
  | _ + 1, _ :: rest, _, h => by
      rw [decodeFieldsAt] at h
      exact kept_of_decodeFieldsAt h

end

/-! ## Resources -/

def resourceSlots (schema : ResourceSchema) : Entries (Option Json) :=
  ("resource", some (.str schema.resource)) :: nodeSlots schema.node ++
    [("operation_names", if schema.operationNames = [] then none else
        some (.obj (schema.operationNames.map fun (name, value) ↦ (name, .str value)))),
      ("unique", if schema.unique = [] then none else some (Json.strings schema.unique)),
      ("plural", schema.plural.map .str)]

theorem encode_eq (schema : ResourceSchema) : encode schema = .obj (filled (resourceSlots schema)) := by
  simp [encode, encodeNode_eq, unlessEmpty_eq, resourceSlots, filled, present]

theorem nodup_resourceSlots (schema : ResourceSchema) : (resourceSlots schema).keys.Nodup := by
  change ("resource" :: nodeNames ++ ["operation_names", "unique", "plural"]).Nodup
  decide

/-- What the writer relies on of a resource. -/
structure ResourceKept (schema : ResourceSchema) : Prop where
  node : NodeKept schema.node
  operationNames : schema.operationNames.keys.Nodup

theorem decode?_eq_some_iff {members : List (String × Json)} {schema : ResourceSchema} :
    decode? (.obj members) = some schema ↔
      isPlain resourceNames members = true ∧ ∃ fields, decodeFieldsIn members = some fields ∧
      defaulted "" Json.str? (Entries.get? members "resource") = some schema.resource ∧
      readNode members fields = some schema.node ∧
      defaulted [] (readEntries Json.str?) (Entries.get? members "operation_names") =
        some schema.operationNames ∧
      defaulted [] readStrings (Entries.get? members "unique") = some schema.unique ∧
      optional Json.str? (Entries.get? members "plural") = some schema.plural := by
  obtain ⟨resource, node, operationNames, unique, plural⟩ := schema
  unfold decode?
  cases h : isPlain resourceNames members with
  | false => simp [h]
  | true => simp [h, Option.bind_eq_some_iff]

theorem resourceKept_of_decode? {value : Json} {schema : ResourceSchema}
    (h : decode? value = some schema) : ResourceKept schema := by
  cases value with
  | obj members =>
    obtain ⟨-, fields, hfields, -, hnode, hnames, -⟩ := decode?_eq_some_iff.mp h
    exact ⟨.of_readNode (kept_of_decodeFieldsIn hfields) hnode, nodup_of_readEntries hnames⟩
  | _ => cases h

theorem ResourceKept.wellFormed_encode {schema : ResourceSchema} (h : ResourceKept schema) :
    (encode schema).WellFormed := by
  have hnames := wellFormed_obj_map Json.str h.operationNames fun _ _ ↦ trivial
  have hresource : (Json.str schema.resource).WellFormed := trivial
  rw [encode_eq, Json.wellFormed_obj]
  refine ⟨(keys_filled _).nodup (nodup_resourceSlots schema), wellFormed_filled ?_⟩
  rw [resourceSlots, List.cons_append, List.forall_mem_cons, List.forall_mem_append]
  exact ⟨by simp, h.node.wellFormed_slots, by simp [hnames, wellFormed_strings]⟩

theorem ResourceKept.decode?_encode {schema : ResourceSchema} (h : ResourceKept schema) :
    decode? (encode schema) = some schema := by
  have hdistinct := nodup_resourceSlots schema
  have holds := get?_filled_of_mem hdistinct
  rw [resourceSlots, List.cons_append, List.forall_mem_cons, List.forall_mem_append, ← List.cons_append,
    ← resourceSlots] at holds
  obtain ⟨hresource, hslots, hrest⟩ := holds
  simp only [List.forall_mem_cons] at hrest
  obtain ⟨hnames, hunique, hplural, -⟩ := hrest
  obtain ⟨hfields, hnode⟩ := h.node.reads (isPlain_filled hdistinct nodeNames) hslots
  rw [encode_eq]
  refine decode?_eq_some_iff.mpr ⟨isPlain_filled hdistinct resourceNames, schema.node.fields, hfields,
    ?_, hnode, ?_, ?_, ?_⟩
  · rw [hresource]
    rfl
  · rw [hnames]
    exact defaulted_unlessEmpty (readEntries_of_read .str (fun _ ↦ rfl) h.operationNames)
  · rw [hunique]
    exact defaulted_unlessEmpty (readStrings_strings schema.unique)
  · rw [hplural, optional_text]

/-- Whatever value a model is read from, the model is written as a value in which no object repeats a
name; that value is read as the very same model, in the same order throughout, and written alike. -/
theorem decode?_encode_of_decode? {value : Json} {schema : ResourceSchema}
    (h : decode? value = some schema) :
    (encode schema).WellFormed ∧ decode? (encode schema) = some schema ∧
      (decode? (encode schema)).map encode = some (encode schema) := by
  have hkept := resourceKept_of_decode? h
  have hdecode := hkept.decode?_encode
  exact ⟨hkept.wellFormed_encode, hdecode, by rw [hdecode, Option.map_some]⟩

/-- A node given by position in an attribute list, an empty list and a null plural are read; the writer
has other forms for them, or none. -/
theorem decode?_encode_of_decode?_user :
    let value : Json := .obj [("plural", .null), ("resource", .str "User"), ("unique", .arr []),
      ("fragments", .obj [("Card", .arr [.str "name",
        .obj [("part", .str "Whole"), ("field", .str "home")]])]),
      ("fields", .obj [("name", .arr [.str "String"]),
        ("home", .arr [.null, .null, .null, .null, .arr [.null, .obj [("street", .str "String")]]])])]
    let written : Json := .obj [("resource", .str "User"),
      ("fields", .obj [("name", .arr [.str "String"]),
        ("home", .obj [("schema", .obj [("fields", .obj [("street", .str "String")])]),
          ("required", .bool false)])]),
      ("fragments", .obj [("Card", .arr [.str "name",
        .obj [("field", .str "home"), ("part", .str "Whole")]])])]
    ∃ schema, decode? value = some schema ∧ encode schema = written ∧ written.WellFormed ∧
      decode? written = some schema := by
  intro value written
  have hread : decode? value = some ⟨"User",
      ⟨none, [("name", .list [.primitive "String"]),
          ("home", .attributes ⟨none, none, none, none,
            some ⟨none, [("street", .primitive "String")], []⟩, false, none, none, .null⟩)],
        [("Card", [.field "name", .nested "home" "Whole"])]⟩,
      [], [], none⟩ := rfl
  obtain ⟨hwellFormed, hdecode, -⟩ := decode?_encode_of_decode? hread
  exact ⟨_, hread, rfl, hwellFormed, hdecode⟩

end ResourceApi.Model

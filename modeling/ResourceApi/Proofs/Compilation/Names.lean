import ResourceApi.Proofs.Compilation.Stages
import ResourceApi.Proofs.Document.Completion

/-!
# Names of a run

The names of generated types, pages and root fields are put together from those of the models without
separators.  Each tells what it is put together from, up to the name of a node, of an enum or of a
resource.  So if those tell what they are names of, then all generated names are distinct, and every
object, input and enum goes back to one declaration.
-/

namespace ResourceApi

/-! ## Names that tell what they are names of -/

/-- The names of the types of nodes tell the nodes. -/
def NodesApart (schemas : List ResourceSchema) : Prop :=
  ∀ schema ∈ schemas, ∀ schema' ∈ schemas, ∀ path path' typeName node node',
    schema.NodeAt path typeName node → schema'.NodeAt path' typeName node' →
      schema = schema' ∧ path = path'

/-- The names of enums tell the fields that declare them. -/
def EnumsApart (schemas : List ResourceSchema) : Prop :=
  ∀ schema ∈ schemas, ∀ schema' ∈ schemas, ∀ path path' name values values',
    schema.EnumAt path name values → schema'.EnumAt path' name values' →
      schema = schema' ∧ path = path'

/-- Names of nodes, enums and plurals tell what they are names of, and no plural is also the name of a
resource. -/
structure NamesApart (schemas : List ResourceSchema) : Prop where
  nodes : NodesApart schemas
  enums : EnumsApart schemas
  plurals : ∀ schema ∈ schemas, ∀ schema' ∈ schemas, schema.pluralName = schema'.pluralName →
    schema = schema'
  singulars : ∀ schema ∈ schemas, ∀ schema' ∈ schemas, schema.pluralName ≠ schema'.resource

/-- If the values of all parts are distinct, then a value tells its part and what it is the value of. -/
theorem eq_of_nodup_flatMap {α β γ : Type} {parts : List α} {f : α → List β} {g : β → γ} {a a' : α}
    {b b' : β} (distinct : (parts.flatMap fun a ↦ (f a).map g).Nodup) (ha : a ∈ parts)
    (ha' : a' ∈ parts) (hb : b ∈ f a) (hb' : b' ∈ f a') (h : g b = g b') : a = a' ∧ b = b' := by
  have hpairs : (parts.flatMap fun a ↦ (f a).map g) =
      (parts.flatMap fun a ↦ (f a).map (Prod.mk a)).map fun pair ↦ g pair.2 := by
    simp [List.map_flatMap, Function.comp_def]
  have hmem : ∀ {a b}, a ∈ parts → b ∈ f a →
      (a, b) ∈ parts.flatMap fun a ↦ (f a).map (Prod.mk a) := fun ha hb ↦
    List.mem_flatMap.mpr ⟨_, ha, List.mem_map_of_mem hb⟩
  rw [hpairs] at distinct
  exact Prod.mk.inj (List.inj_on_of_nodup_map distinct (hmem ha hb) (hmem ha' hb') h)

/-- Models of bounded depth have their nodes apart if all their type names are distinct. -/
theorem nodesApart_of_nodup {schemas : List ResourceSchema} {depth : Nat}
    (shallow : ∀ schema ∈ schemas, schema.level depth = [])
    (distinct : (schemas.flatMap fun schema ↦
      (schema.nodesTo depth).map PlacedNode.typeName).Nodup) : NodesApart schemas := by
  intro schema hschema schema' hschema' path path' typeName node node' hnode hnode'
  obtain ⟨hsame, hplaced⟩ := eq_of_nodup_flatMap distinct hschema hschema'
    (hnode.mem_nodesTo (shallow schema hschema)) (hnode'.mem_nodesTo (shallow schema' hschema')) rfl
  exact ⟨hsame, congrArg PlacedNode.path hplaced⟩

/-- Models of bounded depth have their enums apart if all names of enums are distinct. -/
theorem enumsApart_of_nodup {schemas : List ResourceSchema} {depth : Nat}
    (shallow : ∀ schema ∈ schemas, schema.level depth = [])
    (distinct : (schemas.flatMap fun schema ↦
      ((schema.nodesTo depth).flatMap PlacedNode.enums).map Prod.snd).Nodup) :
    EnumsApart schemas := by
  intro schema hschema schema' hschema' path path' name values values' henum henum'
  obtain ⟨placed, hplaced, hmem⟩ := henum.exists_mem_enums (shallow schema hschema)
  obtain ⟨placed', hplaced', hmem'⟩ := henum'.exists_mem_enums (shallow schema' hschema')
  obtain ⟨hsame, hpath⟩ := eq_of_nodup_flatMap distinct hschema hschema'
    (List.mem_flatMap.mpr ⟨placed, hplaced, hmem⟩) (List.mem_flatMap.mpr ⟨placed', hplaced', hmem'⟩)
    rfl
  exact ⟨hsame, congrArg Prod.fst hpath⟩

namespace Synthesis

variable {schemas : List ResourceSchema} {schema schema' : ResourceSchema} {level level' : Nat}
  {path path' : List Nat} {name base base' : String} {kind kind' : TypeKind}

/-- The name of a type tells the declaration that it is opened for. -/
theorem Origin.unique (nodes : NodesApart schemas)
    (enums : kind = .enumeration → EnumsApart schemas) (hschema : schema ∈ schemas)
    (hschema' : schema' ∈ schemas) (h : Origin schema level path name kind base)
    (h' : Origin schema' level' path' name kind' base') :
    schema = schema' ∧ path = path' ∧ level = level' := by
  obtain rfl : kind = kind' := h.names.unique h'.names
  obtain ⟨key, hkey⟩ : ∃ key, name = key := ⟨_, rfl⟩
  rw [hkey] at h'
  have hnodes : ∀ {typeName node node'}, schema.NodeAt path typeName node → path.length = level →
      schema'.NodeAt path' typeName node' → path'.length = level' →
        schema = schema' ∧ path = path' ∧ level = level' := by
    intro typeName node node' hpath hlevel hpath' hlevel'
    obtain ⟨hsame, rfl⟩ := nodes _ hschema _ hschema' _ _ _ _ _ hpath hpath'
    exact ⟨hsame, rfl, hlevel.symm.trans hlevel'⟩
  cases h with
  | object found depth =>
    cases h' with
    | object found' depth' =>
      obtain ⟨-, rfl⟩ := objectTypeName_injective hkey
      exact hnodes found depth found' depth'
  | input found depth =>
    cases h' with
    | input found' depth' =>
      obtain ⟨-, rfl⟩ := inputTypeName_injective hkey
      exact hnodes found depth found' depth'
  | interface found depth =>
    cases h' with
    | interface found' depth' =>
      obtain rfl := (String.append_left_inj _).mp hkey
      exact hnodes found depth found' depth'
  | union found depth =>
    cases h' with
    | union found' depth' =>
      obtain rfl := (String.append_left_inj _).mp hkey
      exact hnodes found depth found' depth'
  | enumeration found depth =>
    cases h' with
    | enumeration found' depth' =>
      subst hkey
      obtain ⟨hsame, rfl⟩ := enums rfl _ hschema _ hschema' _ _ _ _ _ found found'
      exact ⟨hsame, rfl, Nat.succ.inj (depth.symm.trans depth')⟩

end Synthesis

/-! ## Names of a stage -/

namespace Stage

variable {scalars : ScalarRegistry} {schemas : List ResourceSchema} {stages : List Stage}
  {stage stage' : Stage} {name : String}

theorem Modeled.exists_level (modeled : stage.Modeled scalars stages) {node : TypeNode}
    (h : node ∈ stage.graph.definitions) :
    ∃ level : Nat, (node.name, node) ∈ stage.graph.levels[level]?.getD [] ∧
      Synthesis.Described stage.schema level node := by
  obtain ⟨level, name, hentry⟩ := TypeGraph.mem_definitions.mp h
  obtain ⟨rfl, hdescribed, -⟩ := modeled.types level name node hentry
  exact ⟨level, hentry, hdescribed⟩

theorem Modeled.names_of_mem (modeled : stage.Modeled scalars stages) {node : TypeNode}
    (h : node ∈ stage.graph.definitions) : node.kind.Names node.name := by
  obtain ⟨level, -, hdescribed⟩ := modeled.exists_level h
  obtain ⟨path, horigin⟩ := hdescribed.origin
  exact horigin.names

/-- The types of a level stand under their names. -/
theorem Modeled.names_level (modeled : stage.Modeled scalars stages) {level : Nat} {types : Level}
    (found : stage.graph.levels[level]? = some types) : types.values.map (·.name) = types.keys := by
  refine Entries.map_values_eq_keys fun entry hentry ↦ ?_
  exact (modeled.types level entry.1 entry.2 (by rwa [found])).1.symm

theorem Modeled.exists_origin (modeled : stage.Modeled scalars stages) {level : Nat} {types : Level}
    (found : stage.graph.levels[level]? = some types) (hname : name ∈ types.keys) :
    ∃ path kind base, Synthesis.Origin stage.schema level path name kind base := by
  obtain ⟨⟨key, node⟩, hentry, rfl⟩ := List.mem_map.mp hname
  obtain ⟨rfl, hdescribed, -⟩ := modeled.types level key node (by rwa [found])
  obtain ⟨path, horigin⟩ := hdescribed.origin
  exact ⟨path, _, _, horigin⟩

/-- The types of a stage have distinct names. -/
theorem Modeled.nodup_names (modeled : stage.Modeled scalars stages) (nodes : NodesApart schemas)
    (enums : EnumsApart schemas) (hschema : stage.schema ∈ schemas) :
    (stage.graph.definitions.map (·.name)).Nodup := by
  unfold TypeGraph.definitions
  rw [List.map_flatMap, List.nodup_flatMap]
  constructor
  · intro types htypes
    obtain ⟨level, hat⟩ := List.mem_iff_getElem?.mp htypes
    have hdistinct := modeled.distinct level
    rw [hat] at hdistinct
    rw [modeled.names_level hat]
    exact hdistinct
  · rw [List.pairwise_iff_getElem]
    intro level level' hbound hbound' hless name hname hname'
    dsimp only at hname hname'
    rw [modeled.names_level (List.getElem?_eq_getElem hbound)] at hname
    rw [modeled.names_level (List.getElem?_eq_getElem hbound')] at hname'
    obtain ⟨path, kind, base, horigin⟩ :=
      modeled.exists_origin (List.getElem?_eq_getElem hbound) hname
    obtain ⟨path', kind', base', horigin'⟩ :=
      modeled.exists_origin (List.getElem?_eq_getElem hbound') hname'
    obtain ⟨-, -, hsame⟩ := horigin.unique nodes (fun _ ↦ enums) hschema hschema horigin'
    omega

/-- The document of a stage defines the types of its graph and its pages. -/
theorem Modeled.definedTypes_document (modeled : stage.Modeled scalars stages) :
    stage.document.definedTypes =
      stage.graph.definitions.map (·.name) ++ stage.operations.pages.map (·.name) := by
  have hroot : ∀ (kind : OperationKind) (signatures : List Signature),
      TypeDocument.definedTypes
        (TypeDocument.rootExtension stage.graph.resource kind signatures) = [] := by
    intro kind signatures
    unfold TypeDocument.rootExtension
    split <;> rfl
  have hnodes : TypeDocument.definedTypes (stage.graph.definitions.map
      (TypeDocument.ofNode stage.graph.resource)) = stage.graph.definitions.map (·.name) := by
    unfold TypeDocument.definedTypes
    rw [List.filter_eq_self.mpr, List.map_map]
    · rfl
    · intro definition hdefinition
      obtain ⟨node, hnode, rfl⟩ := List.mem_map.mp hdefinition
      obtain ⟨level, -, hdescribed⟩ := modeled.exists_level hnode
      change (!node.extending) = true
      rw [hdescribed.defined, Bool.not_false]
  have hpages : TypeDocument.definedTypes (stage.operations.pages.map
      (TypeDocument.ofPage stage.graph.resource)) = stage.operations.pages.map (·.name) := by
    unfold TypeDocument.definedTypes
    rw [List.filter_eq_self.mpr, List.map_map]
    · rfl
    · intro definition hdefinition
      obtain ⟨page, -, rfl⟩ := List.mem_map.mp hdefinition
      rfl
  unfold document TypeDocument.ofResource
  rw [TypeDocument.definedTypes_append, TypeDocument.definedTypes_append,
    TypeDocument.definedTypes_append, hroot, hroot, hnodes, hpages, List.append_nil,
    List.append_nil]

/-- What the document of a stage defines is a type of some kind, or a page. -/
theorem Modeled.cases_definedTypes (modeled : stage.Modeled scalars stages)
    (h : name ∈ stage.document.definedTypes) :
    (∃ level path kind base, Synthesis.Origin stage.schema level path name kind base) ∨
      ∃ segment, name = pageTypeName segment stage.schema.pluralName := by
  rw [modeled.definedTypes_document, List.mem_append] at h
  rcases h with hnode | hpage
  · obtain ⟨node, hmem, rfl⟩ := List.mem_map.mp hnode
    obtain ⟨level, -, hdescribed⟩ := modeled.exists_level hmem
    obtain ⟨path, horigin⟩ := hdescribed.origin
    exact .inl ⟨level, path, _, _, horigin⟩
  · obtain ⟨page, hmem, rfl⟩ := List.mem_map.mp hpage
    obtain ⟨segment, hname, -⟩ := OperationSchema.page_of_mem_pages hmem
    exact .inr ⟨segment, hname⟩

theorem Modeled.nodup_definedTypes (modeled : stage.Modeled scalars stages)
    (nodes : NodesApart schemas) (enums : EnumsApart schemas) (hschema : stage.schema ∈ schemas) :
    stage.document.definedTypes.Nodup := by
  rw [modeled.definedTypes_document]
  refine List.Nodup.append (modeled.nodup_names nodes enums hschema) OperationSchema.nodup_pageNames
    fun name hnode hpage ↦ ?_
  obtain ⟨node, hmem, rfl⟩ := List.mem_map.mp hnode
  obtain ⟨page, hpageMem, hname⟩ := List.mem_map.mp hpage
  obtain ⟨segment, hpageName, -⟩ := OperationSchema.page_of_mem_pages hpageMem
  have hnames := modeled.names_of_mem hmem
  rw [← hname, hpageName] at hnames
  exact not_names_pageTypeName _ _ _ hnames

/-- Stages of different models define different names. -/
theorem Modeled.disjoint_definedTypes (modeled : stage.Modeled scalars stages)
    (modeled' : stage'.Modeled scalars stages) (apart : NamesApart schemas)
    (hschema : stage.schema ∈ schemas) (hschema' : stage'.schema ∈ schemas)
    (hne : stage.schema ≠ stage'.schema) :
    List.Disjoint stage.document.definedTypes stage'.document.definedTypes := by
  intro name hname hname'
  rcases modeled.cases_definedTypes hname with ⟨level, path, kind, base, horigin⟩ | ⟨segment, hpage⟩
  · rcases modeled'.cases_definedTypes hname' with
      ⟨level', path', kind', base', horigin'⟩ | ⟨segment', hpage'⟩
    · exact hne (horigin.unique apart.nodes (fun _ ↦ apart.enums) hschema hschema' horigin').1
    · exact not_names_pageTypeName _ _ _ (hpage' ▸ horigin.names)
  · rcases modeled'.cases_definedTypes hname' with
      ⟨level', path', kind', base', horigin'⟩ | ⟨segment', hpage'⟩
    · exact not_names_pageTypeName _ _ _ (hpage ▸ horigin'.names)
    · have hplural := (Segment.eq_of_append (hpage.symm.trans hpage')).2
      exact hne (apart.plurals _ hschema _ hschema' hplural)

/-! ## Root fields of a stage -/

theorem fieldsOf_rootExtension (resource : String) (kind other : OperationKind)
    (signatures : List Signature) :
    TypeDocument.fieldsOf (TypeDocument.rootExtension resource other signatures) kind.rootType =
      if other = kind then signatures.map TypeDocument.ofSignature else [] := by
  unfold TypeDocument.rootExtension
  split
  · rename_i hempty
    rw [List.isEmpty_iff.mp hempty, List.map_nil, ite_self]
    rfl
  · have hname : (other.rootType == kind.rootType) = decide (other = kind) := by
      cases other <;> cases kind <;> decide
    rw [TypeDocument.fieldsOf_cons]
    change (if (other.rootType == kind.rootType) = true then _ else _) ++ [] = _
    rw [hname, List.append_nil]
    simp only [decide_eq_true_iff]

/-- The root fields of a stage are its operations. -/
theorem fieldsOf_document (named : ∀ node ∈ stage.graph.definitions, node.kind.Names node.name)
    (kind : OperationKind) : stage.document.fieldsOf kind.rootType =
      (stage.operations.ofKind kind).map TypeDocument.ofSignature := by
  have hnodes : TypeDocument.fieldsOf (stage.graph.definitions.map
      (TypeDocument.ofNode stage.graph.resource)) kind.rootType = [] := by
    refine TypeDocument.fieldsOf_eq_nil fun definition hdefinition hname ↦ ?_
    obtain ⟨node, hnode, rfl⟩ := List.mem_map.mp hdefinition
    have hnames := named node hnode
    change node.name = kind.rootType at hname
    rw [hname] at hnames
    exact absurd hnames (not_names_rootType _ _)
  have hpages : TypeDocument.fieldsOf (stage.operations.pages.map
      (TypeDocument.ofPage stage.graph.resource)) kind.rootType = [] := by
    refine TypeDocument.fieldsOf_eq_nil fun definition hdefinition hname ↦ ?_
    obtain ⟨page, hpage, rfl⟩ := List.mem_map.mp hdefinition
    obtain ⟨segment, hpageName, -⟩ := OperationSchema.page_of_mem_pages hpage
    exact absurd (hpageName.symm.trans hname) (pageTypeName_ne_rootType _ _ _)
  unfold document TypeDocument.ofResource
  rw [TypeDocument.fieldsOf_append, TypeDocument.fieldsOf_append, TypeDocument.fieldsOf_append,
    hnodes, hpages, fieldsOf_rootExtension, fieldsOf_rootExtension]
  cases kind <;> simp [OperationSchema.ofKind]

theorem Modeled.fieldsOf_document (modeled : stage.Modeled scalars stages) (kind : OperationKind) :
    stage.document.fieldsOf kind.rootType =
      (stage.operations.ofKind kind).map TypeDocument.ofSignature :=
  Stage.fieldsOf_document (fun _ ↦ modeled.names_of_mem) kind

theorem Modeled.typeFields_document (modeled : stage.Modeled scalars stages)
    (kind : OperationKind) : stage.document.typeFields kind.rootType =
      (stage.operations.ofKind kind).map (·.name) := by
  unfold TypeDocument.typeFields
  rw [modeled.fieldsOf_document, List.map_map]
  rfl

theorem Modeled.nodup_rootFields (modeled : stage.Modeled scalars stages)
    (renames : stage.schema.operationNames = []) (apart : NamesApart schemas)
    (hschema : stage.schema ∈ schemas) (kind : OperationKind) :
    (stage.document.typeFields kind.rootType).Nodup := by
  rw [modeled.typeFields_document]
  cases kind with
  | query => exact OperationSchema.nodup_queryNames renames
  | mutation =>
    exact OperationSchema.nodup_mutationNames renames (apart.singulars _ hschema _ hschema)

/-- Stages of different resources have different root fields. -/
theorem Modeled.disjoint_rootFields (modeled : stage.Modeled scalars stages)
    (modeled' : stage'.Modeled scalars stages) (renames : stage.schema.operationNames = [])
    (renames' : stage'.schema.operationNames = []) (apart : NamesApart schemas)
    (hschema : stage.schema ∈ schemas) (hschema' : stage'.schema ∈ schemas)
    (hne : stage.schema.resource ≠ stage'.schema.resource) (kind : OperationKind) :
    List.Disjoint (stage.document.typeFields kind.rootType)
      (stage'.document.typeFields kind.rootType) := by
  have hplural : stage.schema.pluralName ≠ stage'.schema.pluralName := fun hsame ↦
    hne (congrArg ResourceSchema.resource (apart.plurals _ hschema _ hschema' hsame))
  rw [modeled.typeFields_document, modeled'.typeFields_document]
  intro name hname hname'
  cases kind with
  | query =>
    obtain ⟨range, segment, part, hquery⟩ := OperationSchema.mem_queryNames renames hname
    obtain ⟨range', segment', part', hquery'⟩ := OperationSchema.mem_queryNames renames' hname'
    obtain ⟨-, -, -, hsame⟩ :=
      OperationNames.synthesized_query_injective (hquery.symm.trans hquery')
    exact hplural hsame
  | mutation =>
    obtain ⟨action, target, hmutation⟩ := OperationSchema.mem_mutationNames renames hname
    obtain ⟨action', target', hmutation'⟩ := OperationSchema.mem_mutationNames renames' hname'
    obtain ⟨-, hsubject⟩ :=
      OperationNames.synthesized_mutation_injective (hmutation.symm.trans hmutation')
    cases target <;> cases target'
    · exact hne hsubject
    · exact apart.singulars _ hschema' _ hschema hsubject.symm
    · exact apart.singulars _ hschema _ hschema' hsubject
    · exact hplural hsubject

end Stage

/-! ## Declarations behind definitions -/

/-- The definition is that of an object or an input of the node, or of the enum, at the path, and has
only what is declared there, the identifier of the root apart. -/
inductive ResourceSchema.Declares (schema : ResourceSchema) : List Nat → Definition → Prop
  | object {path : List Nat} {typeName : String} {node : SchemaNode} {definition : Definition}
      (found : schema.NodeAt path typeName node) (segment : Segment)
      (named : definition.name = objectTypeName segment typeName)
      (fields : ∀ field ∈ definition.fields, path = [] ∧ field.name = "id" ∨
        ∃ spec, (field.name, spec) ∈ node.fields) : Declares schema path definition
  | input {path : List Nat} {typeName : String} {node : SchemaNode} {definition : Definition}
      (found : schema.NodeAt path typeName node) (action : InputAction)
      (named : definition.name = inputTypeName action typeName)
      (fields : ∀ field ∈ definition.fields, path = [] ∧ field.name = "id" ∨
        ∃ spec, (field.name, spec) ∈ node.fields) : Declares schema path definition
  | enumeration {path : List Nat} {values : List String} {definition : Definition}
      (found : schema.EnumAt path definition.name values)
      (members : ∀ value ∈ definition.values, value ∈ values) : Declares schema path definition

namespace ResourceSchema

variable {schemas : List ResourceSchema} {schema schema' : ResourceSchema} {path path' : List Nat}
  {definition : Definition} {node : TypeNode} {level : Nat}

theorem Declares.withExtending (h : schema.Declares path definition) (extending : Bool) :
    schema.Declares path { definition with extending } := by
  cases h with
  | object found segment named fields => exact .object found segment named fields
  | input found action named fields => exact .input found action named fields
  | enumeration found members => exact .enumeration found members

theorem Declares.origin (h : schema.Declares path definition) :
    ∃ level kind base, Synthesis.Origin schema level path definition.name kind base := by
  cases h with
  | object found segment named =>
    rw [named]
    exact ⟨_, _, _, .object found rfl segment⟩
  | input found action named =>
    rw [named]
    exact ⟨_, _, _, .input found rfl action⟩
  | enumeration found members =>
    obtain ⟨level, hlevel⟩ := found.exists_level
    exact ⟨level, _, "", .enumeration found hlevel⟩

/-- A definition is that of one declaration at most. -/
theorem Declares.unique (apart : NamesApart schemas) (hschema : schema ∈ schemas)
    (hschema' : schema' ∈ schemas) (h : schema.Declares path definition)
    (h' : schema'.Declares path' definition) : schema = schema' ∧ path = path' := by
  obtain ⟨level, kind, base, horigin⟩ := h.origin
  obtain ⟨level', kind', base', horigin'⟩ := h'.origin
  obtain ⟨hsame, hpath, -⟩ := horigin.unique apart.nodes (fun _ ↦ apart.enums) hschema hschema' horigin'
  exact ⟨hsame, hpath⟩

end ResourceSchema

namespace Stage

variable {scalars : ScalarRegistry} {schemas : List ResourceSchema} {stages : List Stage}
  {stage : Stage}

/-- What is declared at a level for a type name is declared by the one node of that name. -/
theorem exists_of_declaredAt (nodes : NodesApart schemas) {schema : ResourceSchema}
    (hschema : schema ∈ schemas) {level : Nat} {path : List Nat} {typeName fieldName : String}
    {node : SchemaNode} (found : schema.NodeAt path typeName node) (depth : path.length = level)
    (h : Synthesis.DeclaredAt schema level typeName fieldName) :
    path = [] ∧ fieldName = "id" ∨ ∃ spec, (fieldName, spec) ∈ node.fields := by
  rcases h with ⟨hroot, hid⟩ | ⟨path', node', spec, hpath', -, hmem⟩
  · exact .inl ⟨List.length_eq_zero_iff.mp (depth.trans hroot), hid⟩
  · obtain ⟨-, rfl⟩ := nodes _ hschema _ hschema _ _ _ _ _ found hpath'
    obtain ⟨-, rfl⟩ := found.unique hpath'
    exact .inr ⟨spec, hmem⟩

/-- The objects, inputs and enums of a stage are those of declarations of its model. -/
theorem Modeled.exists_declares (modeled : stage.Modeled scalars stages) (apart : NamesApart schemas)
    (hschema : stage.schema ∈ schemas) {node : TypeNode} (hnode : node ∈ stage.graph.definitions)
    (kind : node.kind = .object ∨ (∃ action, node.kind = .input action) ∨ node.kind = .enumeration) :
    ∃ path, stage.schema.Declares path (TypeDocument.ofNode stage.graph.resource node) := by
  obtain ⟨level, -, hdescribed⟩ := modeled.exists_level hnode
  obtain ⟨path, horigin⟩ := hdescribed.origin
  have hfields : node.kind = .object ∨ (∃ action, node.kind = .input action) →
      ∀ holder, stage.schema.NodeAt path node.base holder → path.length = level →
        ∀ field ∈ (TypeDocument.ofNode stage.graph.resource node).fields,
          path = [] ∧ field.name = "id" ∨ ∃ spec, (field.name, spec) ∈ holder.fields := by
    intro hkind holder hpath hlength field hfield
    obtain ⟨held, hheld, rfl⟩ := List.mem_map.mp hfield
    obtain ⟨entry, hentry, rfl⟩ := List.mem_map.mp hheld
    have hdeclared := hdescribed.fields hkind entry hentry
    rw [hdescribed.named entry hentry] at hdeclared
    exact exists_of_declaredAt apart.nodes hschema hpath hlength hdeclared
  rcases kind with hobject | ⟨action, hinput⟩ | henum
  · rw [hobject] at horigin
    obtain ⟨segment, holder, hpath, hlength, hname⟩ := horigin.of_object
    exact ⟨path, .object hpath segment hname (hfields (.inl hobject) holder hpath hlength)⟩
  · rw [hinput] at horigin
    obtain ⟨holder, hpath, hlength, hname⟩ := horigin.of_input
    exact ⟨path, .input hpath action hname (hfields (.inr ⟨action, hinput⟩) holder hpath hlength)⟩
  · rw [henum] at horigin
    obtain ⟨values, hpath, -⟩ := horigin.of_enumeration
    refine ⟨path, .enumeration hpath fun value hvalue ↦ ?_⟩
    obtain ⟨path', values', hpath', -, hmem⟩ := hdescribed.values value hvalue
    obtain ⟨-, rfl⟩ := apart.enums _ hschema _ hschema _ _ _ _ _ hpath hpath'
    obtain ⟨-, rfl⟩ := hpath.unique hpath'
    exact hmem

end Stage

/-- The definition is one of those that no declaration brings by itself: a root type, a page type of a
resource, or a type that all resources share. -/
def Definition.IsCommon (schemas : List ResourceSchema) (definition : Definition) : Prop :=
  (∃ kind : OperationKind, definition.name = kind.rootType) ∨
    (∃ schema ∈ schemas, ∃ segment, definition.name = pageTypeName segment schema.pluralName) ∨
    definition.name = paginationInputType ∨ definition.name = nameAndIdType

/-- The definition is of an object, an input or an enum. -/
def Definition.HoldsDeclared (definition : Definition) : Prop :=
  definition.kind = .object ∨ definition.kind = .inputObject ∨ definition.kind = .enumeration

namespace Stage

variable {scalars : ScalarRegistry} {schemas : List ResourceSchema} {stages : List Stage}
  {stage : Stage} {definition : Definition}

theorem kind_of_holdsDeclared {resource : String} {node : TypeNode}
    (h : (TypeDocument.ofNode resource node).HoldsDeclared) :
    node.kind = .object ∨ (∃ action, node.kind = .input action) ∨ node.kind = .enumeration := by
  have hkind : TypeDocument.kindOf node.kind = .object ∨
      TypeDocument.kindOf node.kind = .inputObject ∨
      TypeDocument.kindOf node.kind = .enumeration := h
  cases hnode : node.kind with
  | object => exact .inl rfl
  | input action => exact .inr (.inl ⟨action, rfl⟩)
  | enumeration => exact .inr (.inr rfl)
  | interface => simp [hnode, TypeDocument.kindOf] at hkind
  | union => simp [hnode, TypeDocument.kindOf] at hkind

/-- The document of a stage holds the types of its graph, its pages and extensions of the root types. -/
theorem cases_of_mem_document (h : definition ∈ stage.document) :
    (∃ node ∈ stage.graph.definitions,
        TypeDocument.ofNode stage.graph.resource node = definition) ∨
      (∃ segment, definition.name = pageTypeName segment stage.schema.pluralName) ∨
      ∃ kind : OperationKind, definition.name = kind.rootType := by
  unfold document TypeDocument.ofResource at h
  simp only [List.mem_append] at h
  rcases h with ((htype | hwrapper) | hquery) | hmutation
  · exact .inl (List.mem_map.mp htype)
  · obtain ⟨page, hpage, rfl⟩ := List.mem_map.mp hwrapper
    obtain ⟨segment, hname, -⟩ := OperationSchema.page_of_mem_pages hpage
    exact .inr (.inl ⟨segment, hname⟩)
  · exact .inr (.inr ⟨.query, TypeDocument.name_of_mem_rootExtension hquery⟩)
  · exact .inr (.inr ⟨.mutation, TypeDocument.name_of_mem_rootExtension hmutation⟩)

/-- What the document of a stage says of the name of a type it says of a type of the graph. -/
theorem exists_of_names {kind : TypeKind} (h : definition ∈ stage.document)
    (named : kind.Names definition.name) : ∃ node ∈ stage.graph.definitions,
      TypeDocument.ofNode stage.graph.resource node = definition := by
  rcases cases_of_mem_document h with hnode | ⟨segment, hpage⟩ | ⟨root, hroot⟩
  · exact hnode
  · exact absurd (hpage ▸ named) (not_names_pageTypeName _ _ _)
  · exact absurd (hroot ▸ named) (not_names_rootType _ _)

theorem Modeled.exists_declares_of_mem (modeled : stage.Modeled scalars stages)
    (apart : NamesApart schemas) (hschema : stage.schema ∈ schemas)
    (h : definition ∈ stage.document) (kind : definition.HoldsDeclared) :
    definition.IsCommon schemas ∨ ∃ path, stage.schema.Declares path definition := by
  rcases cases_of_mem_document h with ⟨node, hnode, rfl⟩ | ⟨segment, hpage⟩ | hroot
  · exact .inr (modeled.exists_declares apart hschema hnode (kind_of_holdsDeclared kind))
  · exact .inl (.inr (.inl ⟨stage.schema, hschema, segment, hpage⟩))
  · exact .inl (.inl hroot)

end Stage

namespace TypeDocument

/-- The objects and inputs that completion adds are those that all resources share. -/
theorem isCommon_of_mem_supportDefinitions {document : TypeDocument} {scalars : ScalarRegistry}
    {definition : Definition} (h : definition ∈ document.supportDefinitions scalars)
    (kind : definition.HoldsDeclared) (schemas : List ResourceSchema) :
    definition.IsCommon schemas := by
  have hscalar : ∀ name, ¬(Definition.new name .scalar).HoldsDeclared := by
    intro name hkind
    rcases hkind with hkind | hkind | hkind <;> cases hkind
  rcases mem_supportDefinitions.mp h with hanswer | ⟨rfl, -⟩
  · obtain ⟨name, -, -, -, hsupport⟩ := mem_answers.mp hanswer
    unfold supportFor? at hsupport
    split at hsupport
    · cases hsupport
      exact .inr (.inr (.inl rfl))
    · split at hsupport
      · cases hsupport
        exact .inr (.inr (.inr rfl))
      · split at hsupport <;> cases hsupport
        exact absurd kind (hscalar name)
  · exact absurd kind (hscalar _)

end TypeDocument

/-! ## Names of a run -/

namespace Compiler

variable {compiler : Compiler} {schemas : List ResourceSchema} {stages : List Stage}

/-- The stages of a run are of different resources. -/
theorem pairwise_stages (checked : checkSchemas schemas = .ok ())
    (h : compiler.stages [] schemas = .ok stages) :
    stages.Pairwise fun stage stage' ↦ stage.schema.resource ≠ stage'.schema.resource :=
  List.pairwise_map.mp (nodup_resources checked h)

theorem nodup_definedTypes (checked : checkSchemas schemas = .ok ())
    (h : compiler.stages [] schemas = .ok stages) (apart : NamesApart schemas) :
    (compiler.document [] stages).definedTypes.Nodup := by
  have hmodeled := modeled_stages h
  have hschema : ∀ stage ∈ stages, stage.schema ∈ schemas := fun stage ↦ schema_mem h
  refine TypeDocument.nodup_definedTypes_complete ?_
  rw [List.nil_append, TypeDocument.definedTypes_flatMap, List.nodup_flatMap]
  refine ⟨fun stage hstage ↦ (hmodeled stage hstage).nodup_definedTypes apart.nodes apart.enums
    (hschema stage hstage), ?_⟩
  refine (pairwise_stages checked h).imp_of_mem fun {stage stage'} hstage hstage' hne ↦ ?_
  exact (hmodeled stage hstage).disjoint_definedTypes (hmodeled stage' hstage') apart
    (hschema stage hstage) (hschema stage' hstage') fun hsame ↦
      hne (congrArg ResourceSchema.resource hsame)

/-- The fields of a type are those of the initial document, then those of each stage. -/
theorem fieldsOf_document (initial : TypeDocument) (stages : List Stage) {name : String}
    (apart : ¬TypeDocument.IsShared name) :
    (compiler.document initial stages).fieldsOf name =
      initial.fieldsOf name ++ stages.flatMap fun stage ↦ stage.document.fieldsOf name := by
  unfold document
  rw [TypeDocument.fieldsOf_complete _ _ apart, TypeDocument.fieldsOf_append,
    TypeDocument.fieldsOf_flatMap]

theorem typeFields_document (initial : TypeDocument) (stages : List Stage) {name : String}
    (apart : ¬TypeDocument.IsShared name) :
    (compiler.document initial stages).typeFields name =
      initial.typeFields name ++ stages.flatMap fun stage ↦ stage.document.typeFields name := by
  unfold TypeDocument.typeFields
  rw [fieldsOf_document _ _ apart, List.map_append, List.map_flatMap]

theorem nodup_rootFields (checked : checkSchemas schemas = .ok ())
    (h : compiler.stages [] schemas = .ok stages) (apart : NamesApart schemas)
    (renames : ∀ schema ∈ schemas, schema.operationNames = []) (kind : OperationKind) :
    ((compiler.document [] stages).rootFields kind).Nodup := by
  have hmodeled := modeled_stages h
  have hschema : ∀ stage ∈ stages, stage.schema ∈ schemas := fun stage ↦ schema_mem h
  rw [TypeDocument.rootFields_eq, typeFields_document _ _ (TypeDocument.not_isShared_rootType kind),
    show TypeDocument.typeFields [] kind.rootType = [] from rfl, List.nil_append, List.nodup_flatMap]
  refine ⟨fun stage hstage ↦ (hmodeled stage hstage).nodup_rootFields
    (renames _ (hschema stage hstage)) apart (hschema stage hstage) kind, ?_⟩
  refine (pairwise_stages checked h).imp_of_mem fun {stage stage'} hstage hstage' hne ↦ ?_
  exact (hmodeled stage hstage).disjoint_rootFields (hmodeled stage' hstage')
    (renames _ (hschema stage hstage)) (renames _ (hschema stage' hstage')) apart
    (hschema stage hstage) (hschema stage' hstage') hne kind

/-- An object, an input or an enum of a run is common, or it is that of a declaration. -/
theorem exists_declares (h : compiler.stages [] schemas = .ok stages) (apart : NamesApart schemas)
    {definition : Definition} (mem : definition ∈ compiler.document [] stages)
    (kind : definition.HoldsDeclared) : definition.IsCommon schemas ∨
      ∃ schema ∈ schemas, ∃ path, schema.Declares path definition := by
  obtain ⟨before, hbefore, heq⟩ := TypeDocument.exists_of_mem_complete mem
  rw [← heq] at kind ⊢
  rcases hbefore with hdocument | hsupport
  · obtain ⟨stage, hstage, hmem⟩ := List.mem_flatMap.mp hdocument
    have hschema := schema_mem h hstage
    rcases (modeled_stages h stage hstage).exists_declares_of_mem apart hschema hmem kind with
      hcommon | ⟨path, hdeclares⟩
    · exact .inl hcommon
    · exact .inr ⟨stage.schema, hschema, path, hdeclares.withExtending _⟩
  · exact .inl (TypeDocument.isCommon_of_mem_supportDefinitions hsupport kind schemas)

/-- If names tell what they are names of, then the definitions of a run have distinct names, so have the
fields of each root type, and every object, input and enum that is not common to all resources is that of
exactly one declaration. -/
theorem compileAll_names (compiler : Compiler) (schemas : List ResourceSchema)
    (compiled : CompiledSchema) (apart : NamesApart schemas)
    (renames : ∀ schema ∈ schemas, schema.operationNames = [])
    (h : compiler.compileAll schemas [] = .ok compiled) :
    compiled.document.definedTypes.Nodup ∧ (∀ kind, (compiled.document.rootFields kind).Nodup) ∧
      ∀ definition ∈ compiled.document, definition.HoldsDeclared →
        definition.IsCommon schemas ∨
          ∃ schema ∈ schemas, ∃ path, schema.Declares path definition ∧
            ∀ schema' ∈ schemas, ∀ path', schema'.Declares path' definition →
              schema = schema' ∧ path = path' := by
  obtain ⟨stages, hchecked, hstages, hdocument, -⟩ := compileAll_eq_ok h
  rw [hdocument]
  refine ⟨nodup_definedTypes hchecked hstages apart,
    nodup_rootFields hchecked hstages apart renames, fun definition mem kind ↦ ?_⟩
  rcases exists_declares hstages apart mem kind with hcommon | ⟨schema, hschema, path, hdeclares⟩
  · exact .inl hcommon
  · exact .inr ⟨schema, hschema, path, hdeclares, fun schema' hschema' path' hdeclares' ↦
      hdeclares.unique apart hschema hschema' hdeclares'⟩

/-- A user has an address, and there is a resource of the name that the type of the address gets. -/
theorem compileAll_names_met :
    let address : SchemaNode := ⟨none, [("city", .primitive "String")], []⟩
    let table : FieldAttributes := ⟨none, none, none, none, some address, false, none, none, .null⟩
    let user : ResourceSchema := ⟨"User", ⟨none, [("address", .attributes table)], []⟩, [], [], none⟩
    let userAddress : ResourceSchema :=
      ⟨"UserAddress", ⟨none, [("street", .primitive "String")], []⟩, [], [], none⟩
    let own : GenerationConfig := ⟨fun leaf ↦ leaf == .object .own⟩
    ∃ compiled, compileAll ⟨own, ⟨[]⟩⟩ [user, userAddress] [] = .ok compiled ∧
      compiled.document.definedTypes =
        ["SelfUserObject", "SelfUserAddressObject", "SelfUserAddressObject"] := by
  intro address table user userAddress own
  obtain ⟨compiled, hcompiled, hnames⟩ :
      ∃ compiled, compileAll ⟨own, ⟨[]⟩⟩ [user, userAddress] [] = .ok compiled ∧
        (compiled.document.definedTypes ==
          ["SelfUserObject", "SelfUserAddressObject", "SelfUserAddressObject"]) = true :=
    Except.exists_of_passes (by decide +kernel)
  exact ⟨compiled, hcompiled, beq_iff_eq.mp hnames⟩

/-- Users with an address and a role, and posts. -/
theorem compileAll_names_users :
    let address : SchemaNode := ⟨none, [("city", .primitive "String")], []⟩
    let table : FieldAttributes := ⟨none, none, none, none, some address, false, none, none, .null⟩
    let roles : FieldAttributes :=
      ⟨none, some ["Admin", "Guest"], none, none, none, false, none, none, .null⟩
    let user : ResourceSchema :=
      ⟨"User", ⟨none, [("address", .attributes table), ("role", .attributes roles)], []⟩, [], [], none⟩
    let post : ResourceSchema := ⟨"Post", ⟨none, [("title", .primitive "String")], []⟩, [], [], none⟩
    ∃ compiled, compileAll ⟨.full, ⟨[]⟩⟩ [user, post] [] = .ok compiled ∧
      compiled.document.definedTypes.Nodup ∧ ∀ kind, (compiled.document.rootFields kind).Nodup := by
  intro address table roles user post
  have hshallow : ∀ schema ∈ [user, post], schema.level 2 = [] := by decide +kernel
  have hplurals : ([user, post].map ResourceSchema.pluralName).Nodup := by decide +kernel
  have hapart : NamesApart [user, post] := by
    refine ⟨nodesApart_of_nodup hshallow ?_, enumsApart_of_nodup hshallow ?_, ?_, ?_⟩
    · decide +kernel
    · decide +kernel
    · exact fun schema hschema schema' hschema' hsame ↦
        List.inj_on_of_nodup_map hplurals hschema hschema' hsame
    · decide +kernel
  have hplain : ∀ schema ∈ [user, post], schema.operationNames = [] := by decide
  obtain ⟨compiled, hcompiled, -⟩ :
      ∃ compiled, compileAll ⟨.full, ⟨[]⟩⟩ [user, post] [] = .ok compiled ∧ true = true :=
    Except.exists_of_passes (by decide +kernel)
  obtain ⟨htypes, hroots, -⟩ := compileAll_names _ _ compiled hapart hplain hcompiled
  exact ⟨compiled, hcompiled, htypes, hroots⟩

end Compiler
end ResourceApi

import ResourceApi.Compilation
import ResourceApi.Proofs.Document.Closed
import ResourceApi.Proofs.Graph.Closed
import ResourceApi.Proofs.Signature

/-!
# Compiled documents are closed

The fields of a graph lead to scalars, to types of the graph, or out of it.  Retargeting turns what
leads to no graph at all into identifiers, and changes no names.  So every type that the stages refer
to is defined by one of them, or is a type that completion knows how to define.
-/

namespace ResourceApi

open TypeRef (nameOf)

/-! ## Retargeted graphs -/

/-- Applies `f` to the fields of a type. -/
def TypeNode.mapFields (f : FieldNode → FieldNode) (node : TypeNode) : TypeNode :=
  { node with fields := node.fields.map fun (name, field) ↦ (name, f field) }

namespace TypeGraph

variable {scalars : ScalarRegistry} {graph : TypeGraph} {node : TypeNode} {name : String}

theorem definitions_mapFields (graph : TypeGraph) (f : FieldNode → FieldNode) :
    (graph.mapFields f).definitions = graph.definitions.map (TypeNode.mapFields f) := by
  unfold definitions mapFields Entries.values
  rw [List.flatMap_map, List.map_flatMap]
  simp only [List.map_map, Function.comp_def, TypeNode.mapFields]

theorem names_mapFields (graph : TypeGraph) (f : FieldNode → FieldNode) :
    (graph.mapFields f).definitions.map (·.name) = graph.definitions.map (·.name) := by
  rw [definitions_mapFields, List.map_map]
  rfl

theorem has_iff : graph.has name = true ↔ ∃ level ∈ graph.levels, name ∈ Entries.keys level := by
  unfold has get?
  rw [List.findSome?_isSome_iff]
  exact exists_congr fun level ↦ and_congr_right fun _ ↦ Entries.has_iff

theorem has_mapFields (graph : TypeGraph) (f : FieldNode → FieldNode) (name : String) :
    (graph.mapFields f).has name = graph.has name := by
  have hkeys : ∀ level : Level,
      Entries.keys (level.map fun entry ↦ (entry.1, entry.2.mapFields f)) = level.keys := by
    intro level
    unfold Entries.keys
    rw [List.map_map]
    rfl
  rw [Bool.eq_iff_iff, has_iff, has_iff]
  change (∃ level ∈ graph.levels.map fun level : Level ↦
    level.map fun entry ↦ (entry.1, entry.2.mapFields f), _) ↔ _
  simp only [List.mem_map, exists_exists_and_eq_and, hkeys]

/-- What a graph has is among its definitions. -/
theorem Linked.mem_names (linked : graph.Linked scalars) (h : graph.has name = true) :
    name ∈ graph.definitions.map (·.name) := by
  obtain ⟨types, htypes, hname⟩ := has_iff.mp h
  obtain ⟨⟨key, node⟩, hentry, rfl⟩ := List.mem_map.mp hname
  obtain ⟨level, hlevel⟩ := List.mem_iff_getElem?.mp htypes
  have hmem : (key, node) ∈ graph.levels[level]?.getD [] := by rwa [hlevel]
  exact List.mem_map.mpr
    ⟨node, mem_definitions.mpr ⟨level, key, hmem⟩, linked.named level (key, node) hmem⟩

end TypeGraph

/-! ## Stages -/

namespace Stage

variable {scalars : ScalarRegistry} {known : List String} {stage : Stage} {name : String}

/-- A stage that leads nowhere but to scalars and to the known types. -/
structure Settled (scalars : ScalarRegistry) (known : List String) (stage : Stage) : Prop where
  resource : IsWord stage.schema.resource
  plural : IsWord stage.schema.pluralName
  defined : ∀ node ∈ stage.graph.definitions, node.extending = false
  fields : ∀ node ∈ stage.graph.definitions, ∀ entry ∈ node.fields,
    scalars.Offers entry.2.typeName ∨ entry.2.typeName ∈ known
  decorated : ∀ node ∈ stage.graph.definitions, ∀ entry ∈ node.fields,
    entry.2.decorated = decorate entry.2.typeName entry.2.nullable
  members : ∀ node ∈ stage.graph.definitions, ∀ member ∈ node.members, member ∈ known
  served : ∀ name, stage.graph.has name = true → name ∈ known

/-- A reference that leads nowhere becomes an identifier; any other field stays where it is. -/
theorem settled_retargetField {field : FieldNode} (h : field.kind = .reference ∨
      scalars.Offers field.typeName ∨ field.typeName ∈ known) :
    scalars.Offers (retargetField known field).typeName ∨
      (retargetField known field).typeName ∈ known := by
  unfold retargetField
  split
  · exact .inl Synthesis.offers_id
  · rename_i hkeep
    rcases h with hreference | hsettled
    · right
      simpa [hreference] using hkeep
    · exact hsettled

/-- Retargeting writes the type of a field anew. -/
theorem decorated_retargetField (known : List String) {field : FieldNode}
    (h : field.decorated = decorate field.typeName field.nullable) :
    (retargetField known field).decorated =
      decorate (retargetField known field).typeName (retargetField known field).nullable := by
  unfold retargetField
  split
  · rfl
  · exact h

theorem mem_definitions_retarget {node : TypeNode}
    (h : node ∈ (stage.retarget known).graph.definitions) :
    ∃ before ∈ stage.graph.definitions, before.mapFields (retargetField known) = node := by
  unfold retarget at h
  rw [TypeGraph.definitions_mapFields] at h
  exact List.mem_map.mp h

theorem settled_retarget (named : stage.schema.Named) (linked : stage.graph.Linked scalars)
    (known_of : ∀ node ∈ stage.graph.definitions, node.name ∈ known) :
    (stage.retarget known).Settled scalars known where
  resource := named.resource.isWord
  plural := named.isWord_pluralName
  defined node hnode := by
    obtain ⟨before, hbefore, rfl⟩ := mem_definitions_retarget hnode
    exact linked.defined before hbefore
  fields node hnode entry hentry := by
    obtain ⟨before, hbefore, rfl⟩ := mem_definitions_retarget hnode
    obtain ⟨⟨fieldName, field⟩, hfield, rfl⟩ := List.mem_map.mp hentry
    apply settled_retargetField
    rcases linked.fields before hbefore _ hfield with hreference | hoffers | ⟨other, hother, hname⟩
    · exact .inl hreference
    · exact .inr (.inl hoffers)
    · exact .inr (.inr (hname ▸ known_of other hother))
  decorated node hnode entry hentry := by
    obtain ⟨before, hbefore, rfl⟩ := mem_definitions_retarget hnode
    obtain ⟨⟨fieldName, field⟩, hfield, rfl⟩ := List.mem_map.mp hentry
    exact decorated_retargetField known (linked.decorated before hbefore _ hfield)
  members node hnode member hmember := by
    obtain ⟨before, hbefore, rfl⟩ := mem_definitions_retarget hnode
    obtain ⟨other, hother, hname⟩ := linked.members before hbefore member hmember
    exact hname ▸ known_of other hother
  served name hhas := by
    unfold retarget at hhas
    rw [TypeGraph.has_mapFields] at hhas
    obtain ⟨node, hnode, rfl⟩ := List.mem_map.mp (linked.mem_names hhas)
    exact known_of node hnode

theorem mem_knownTypes {stages : List Stage} : name ∈ knownTypes [] stages ↔
    ∃ stage ∈ stages, ∃ node ∈ stage.graph.definitions, node.name = name := by
  unfold knownTypes
  change name ∈ _ ++ [] ↔ _
  rw [List.append_nil, List.mem_flatMap]
  exact exists_congr fun stage ↦ and_congr_right fun _ ↦ List.mem_map

/-- Retargeting changes no names. -/
theorem knownTypes_retarget (initial : TypeDocument) (known : List String) (stages : List Stage) :
    knownTypes initial (stages.map (retarget known)) = knownTypes initial stages := by
  unfold knownTypes retarget
  simp only [List.flatMap_map, TypeGraph.names_mapFields]

end Stage

namespace Compiler

variable {compiler : Compiler} {schema : ResourceSchema} {schemas : List ResourceSchema}
  {stage : Stage} {stages : List Stage}

theorem linked_stage (named : schema.Named) (h : compiler.stage [] schema = .ok stage) :
    stage.schema = schema ∧ stage.graph.Linked compiler.scalars := by
  obtain ⟨config, -, h⟩ := Except.bind_eq_ok_iff.mp h
  obtain ⟨graph, hgraph, h⟩ := Except.bind_eq_ok_iff.mp h
  cases h
  exact ⟨rfl, Synthesis.ofSchema_linked named hgraph⟩

/-- All stages lead to scalars and to the types of the stages, whose names are words. -/
theorem settled_stages (named : ∀ schema ∈ schemas, schema.Named)
    (h : compiler.stages [] schemas = .ok stages) :
    (∀ stage ∈ stages, stage.Settled compiler.scalars (Stage.knownTypes [] stages)) ∧
      ∀ name ∈ Stage.knownTypes [] stages, IsWord name := by
  obtain ⟨drafts, hdrafts, h⟩ := Except.bind_eq_ok_iff.mp h
  cases h
  have hlinked : ∀ draft ∈ drafts, draft.schema.Named ∧ draft.graph.Linked compiler.scalars := by
    intro draft hdraft
    obtain ⟨schema, hschema, hstage⟩ := Except.exists_of_mem_mapM hdrafts hdraft
    obtain ⟨rfl, hlinked⟩ := linked_stage (named schema hschema) hstage
    exact ⟨named _ hschema, hlinked⟩
  rw [Stage.knownTypes_retarget]
  constructor
  · intro stage hstage
    obtain ⟨draft, hdraft, rfl⟩ := List.mem_map.mp hstage
    obtain ⟨hnamed, hgraph⟩ := hlinked draft hdraft
    exact Stage.settled_retarget hnamed hgraph fun node hnode ↦
      Stage.mem_knownTypes.mpr ⟨draft, hdraft, node, hnode, rfl⟩
  · intro name hname
    obtain ⟨draft, hdraft, node, hnode, rfl⟩ := Stage.mem_knownTypes.mp hname
    exact (hlinked draft hdraft).2.words node hnode

end Compiler

/-! ## References of a stage -/

namespace TypeDocument

variable {scalars : ScalarRegistry} {name : String}

theorem isSome_supportFor?_of_offers (h : scalars.Offers name) :
    (supportFor? scalars name).isSome = true := by
  have hscalar : (Scalar.isBuiltin name || name == Scalar.dateTime || scalars.has name) = true := by
    simpa [ScalarRegistry.Offers, or_assoc] using h
  unfold supportFor?
  rw [if_pos hscalar]
  split
  · rfl
  · split <;> rfl

theorem isSome_supportFor?_of_shared (h : name ∈ sharedTypes) :
    (supportFor? scalars name).isSome = true := by
  have hshared : ∀ name ∈ sharedTypes, name = paginationInputType ∨ name = nameAndIdType ∨
      Scalar.isBuiltin name = true := by decide
  rcases hshared name h with rfl | rfl | hbuiltin
  · rfl
  · rfl
  · exact isSome_supportFor?_of_offers (.inl hbuiltin)

theorem mem_referencesOf {definition : Definition} : name ∈ referencesOf definition ↔
    (∃ field ∈ definition.fields, name ∈ field.references) ∨ name ∈ definition.members := by
  unfold referencesOf
  rw [List.mem_append, List.mem_flatMap]
  rfl

theorem references_rootExtension {resource : String} {kind : OperationKind}
    {signatures : List Signature} {definition : Definition}
    (hmem : definition ∈ rootExtension resource kind signatures)
    (href : name ∈ referencesOf definition) :
    ∃ signature ∈ signatures, name ∈ (ofSignature signature).references := by
  unfold rootExtension at hmem
  split at hmem
  · cases hmem
  · obtain rfl := List.mem_singleton.mp hmem
    rcases mem_referencesOf.mp href with ⟨field, hfield, href⟩ | hmember
    · obtain ⟨signature, hsignature, rfl⟩ := List.mem_map.mp hfield
      exact ⟨signature, hsignature, href⟩
    · cases hmember

theorem defines_page {graph : TypeGraph} {operations : OperationSchema} {page : PageType}
    (h : page ∈ operations.pages) : (ofResource graph operations).Defines page.name := by
  refine ⟨ofPage graph.resource page, ?_, rfl, rfl⟩
  unfold ofResource
  simp only [List.mem_append]
  exact .inl (.inl (.inr (List.mem_map_of_mem h)))

theorem defines_flatMap {α : Type} {f : α → TypeDocument} {parts : List α} {part : α}
    (hmem : part ∈ parts) (h : (f part).Defines name) : Defines (parts.flatMap f) name := by
  obtain ⟨definition, hdefinition, hdefines⟩ := h
  exact ⟨definition, List.mem_flatMap.mpr ⟨part, hmem, hdefinition⟩, hdefines⟩

end TypeDocument

namespace Stage

variable {scalars : ScalarRegistry} {known : List String} {stage : Stage} {name : String}

theorem Settled.references_ofNode (settled : stage.Settled scalars known) (named : scalars.Named)
    (words : ∀ name ∈ known, IsWord name) {node : TypeNode} (hnode : node ∈ stage.graph.definitions)
    (resource : String) (h : name ∈ TypeDocument.referencesOf (TypeDocument.ofNode resource node)) :
    scalars.Offers name ∨ name ∈ known := by
  rcases TypeDocument.mem_referencesOf.mp h with ⟨field, hfield, href⟩ | hmember
  · obtain ⟨value, hvalue, rfl⟩ := List.mem_map.mp hfield
    obtain ⟨entry, hentry, rfl⟩ := List.mem_map.mp hvalue
    obtain rfl := List.mem_singleton.mp href
    have hsettled := settled.fields node hnode entry hentry
    have hword : IsWord entry.2.typeName := hsettled.elim named.isWord (words _)
    change scalars.Offers (nameOf entry.2.decorated) ∨ nameOf entry.2.decorated ∈ known
    rwa [settled.decorated node hnode entry hentry,
      TypeRef.nameOf_decorate (Text.isPlain_of_isWord hword)]
  · exact .inr (settled.members node hnode name hmember)

theorem Settled.references_ofPage (settled : stage.Settled scalars known) {page : PageType}
    (hpage : page ∈ stage.operations.pages) (resource : String)
    (h : name ∈ TypeDocument.referencesOf (TypeDocument.ofPage resource page)) :
    scalars.Offers name ∨ name ∈ known := by
  obtain ⟨segment, -, hobject, hhas⟩ := OperationSchema.page_of_mem_pages hpage
  have hplain : TypeRef.IsPlain page.object.toList := by
    rw [hobject]
    exact Text.isPlain_of_isWord (isName_objectTypeName segment settled.resource).isWord
  have hreferences : TypeDocument.referencesOf (TypeDocument.ofPage resource page) =
      [nameOf ("[" ++ page.object ++ "!]!"), nameOf (Scalar.nonNegativeInt ++ "!"), nameOf "Int!",
        nameOf "Int!"] := rfl
  rw [hreferences, TypeRef.nameOf_nonNullList hplain] at h
  rcases List.mem_cons.mp h with rfl | hscalar
  · exact .inr (settled.served _ hhas)
  · have hbuiltin : ∀ name ∈ [nameOf (Scalar.nonNegativeInt ++ "!"), nameOf "Int!", nameOf "Int!"],
        Scalar.isBuiltin name = true := by decide
    exact .inl (.inl (hbuiltin name hscalar))

/-- The name can be completed, is known, or is a page of the stage. -/
def Resolves (scalars : ScalarRegistry) (known : List String) (stage : Stage) (name : String) : Prop :=
  (TypeDocument.supportFor? scalars name).isSome = true ∨ name ∈ known ∨
    ∃ page ∈ stage.operations.pages, page.name = name

theorem resolves_of_settled (h : scalars.Offers name ∨ name ∈ known) :
    stage.Resolves scalars known name := by
  rcases h with hoffers | hknown
  · exact .inl (TypeDocument.isSome_supportFor?_of_offers hoffers)
  · exact .inr (.inl hknown)

theorem Settled.resolves_signature (settled : stage.Settled scalars known) {signature : Signature}
    (h : signature ∈ stage.operations.signatures)
    (href : name ∈ (TypeDocument.ofSignature signature).references) :
    stage.Resolves scalars known name := by
  have hresource : IsWord stage.names.resource := settled.resource
  rcases OperationSchema.references_ofGraph hresource settled.plural h href with
    hshared | hhas | hpage
  · exact .inl (TypeDocument.isSome_supportFor?_of_shared hshared)
  · exact .inr (.inl (settled.served name hhas))
  · exact .inr (.inr hpage)

/-- Everything that the document of a stage refers to resolves. -/
theorem Settled.resolves (settled : stage.Settled scalars known) (named : scalars.Named)
    (words : ∀ name ∈ known, IsWord name) (h : stage.document.Refers name) :
    stage.Resolves scalars known name := by
  obtain ⟨definition, hmem, href⟩ := h
  unfold document TypeDocument.ofResource at hmem
  simp only [List.mem_append, List.mem_map] at hmem
  rcases hmem with ((⟨node, hnode, rfl⟩ | ⟨page, hpage, rfl⟩) | hquery) | hmutation
  · exact resolves_of_settled (settled.references_ofNode named words hnode _ href)
  · exact resolves_of_settled (settled.references_ofPage hpage _ href)
  · obtain ⟨signature, hsignature, hfield⟩ := TypeDocument.references_rootExtension hquery href
    exact settled.resolves_signature (List.mem_append_left _ hsignature) hfield
  · obtain ⟨signature, hsignature, hfield⟩ := TypeDocument.references_rootExtension hmutation href
    exact settled.resolves_signature (List.mem_append_right _ hsignature) hfield

theorem mem_document {node : TypeNode} (h : node ∈ stage.graph.definitions) :
    TypeDocument.ofNode stage.graph.resource node ∈ stage.document := by
  unfold document TypeDocument.ofResource
  simp only [List.mem_append]
  exact .inl (.inl (.inl (List.mem_map_of_mem h)))

theorem Settled.defines_node (settled : stage.Settled scalars known) {node : TypeNode}
    (hnode : node ∈ stage.graph.definitions) : stage.document.Defines node.name :=
  ⟨TypeDocument.ofNode stage.graph.resource node, mem_document hnode, rfl, settled.defined node hnode⟩

end Stage

namespace Compiler

/-- A compiled document defines every type that it refers to, and the root types that it extends. -/
theorem compileAll_closed (compiler : Compiler) (schemas : List ResourceSchema)
    (compiled : CompiledSchema) (named : ∀ schema ∈ schemas, schema.Named)
    (scalars : compiler.scalars.Named) (h : compiler.compileAll schemas [] = .ok compiled) :
    compiled.document.Closed := by
  obtain ⟨_, -, h⟩ := Except.bind_eq_ok_iff.mp h
  obtain ⟨stages, hstages, h⟩ := Except.bind_eq_ok_iff.mp h
  cases h
  obtain ⟨hsettled, hwords⟩ := settled_stages named hstages
  refine TypeDocument.closed_complete fun name hrefers ↦ .inr ?_
  obtain ⟨definition, hmem, href⟩ := hrefers
  obtain ⟨stage, hstage, hdefinition⟩ := List.mem_flatMap.mp hmem
  rcases (hsettled stage hstage).resolves scalars hwords ⟨definition, hdefinition, href⟩ with
    hsupport | hknown | ⟨page, hpage, rfl⟩
  · exact .inr hsupport
  · obtain ⟨other, hother, node, hnode, rfl⟩ := Stage.mem_knownTypes.mp hknown
    have hdefines := (hsettled other hother).defines_node hnode
    exact .inl (TypeDocument.defines_flatMap hother hdefines)
  · have hdefines : stage.document.Defines page.name := TypeDocument.defines_page hpage
    exact .inl (TypeDocument.defines_flatMap hstage hdefines)

/-- A post refers to its author, who is compiled too, and to a forum, which is not. -/
theorem compileAll_closed_posts :
    let toResource : String → FieldSpec := fun resource ↦
      .attributes ⟨none, none, some resource, none, none, true, none, none, .null⟩
    let user : ResourceSchema := ⟨"User", ⟨none, [("name", .primitive "String")], []⟩, [], [], none⟩
    let post : ResourceSchema :=
      ⟨"Post", ⟨none, [("author", toResource "User"), ("forum", toResource "Forum")], []⟩, [], [], none⟩
    ∃ compiled, compileAll ⟨.full, ⟨[]⟩⟩ [user, post] [] = .ok compiled ∧
      compiled.document.Closed := by
  intro toResource user post
  have hnames : ∀ name ∈ ["User", "Post", "name", "author", "forum"], IsName name := by
    decide
  have huser : user.Named := by
    refine ⟨hnames _ (by decide), (fun _ h ↦ nomatch h), SchemaNode.named_of_leaves fun entry h ↦ ?_⟩
    obtain rfl := List.mem_singleton.mp h
    exact ⟨hnames _ (by decide), rfl, rfl⟩
  have hpost : post.Named := by
    refine ⟨hnames _ (by decide), (fun _ h ↦ nomatch h), SchemaNode.named_of_leaves ?_⟩
    rw [List.forall_mem_cons, List.forall_mem_singleton]
    exact ⟨⟨hnames _ (by decide), rfl, rfl⟩, ⟨hnames _ (by decide), rfl, rfl⟩⟩
  have hnamed : ∀ schema ∈ [user, post], schema.Named := by
    rw [List.forall_mem_cons, List.forall_mem_singleton]
    exact ⟨huser, hpost⟩
  have hfilled : (Text.trim "User").isEmpty = false ∧ (Text.trim "Post").isEmpty = false := by
    decide
  have hchecked : checkSchemas [user, post] = .ok () := by
    simp [checkSchemas, checkNames, ResourceSchema.isNamed, user, post, hfilled]
  obtain ⟨stages, hstages⟩ : ∃ stages, Compiler.stages ⟨.full, ⟨[]⟩⟩ [] [user, post] = .ok stages :=
    ⟨_, rfl⟩
  obtain ⟨compiled, hcompiled⟩ :
      ∃ compiled, compileAll ⟨.full, ⟨[]⟩⟩ [user, post] [] = .ok compiled := by
    unfold compileAll
    rw [hchecked, hstages]
    exact ⟨_, rfl⟩
  have hscalars : ScalarRegistry.Named ⟨[]⟩ := fun _ h ↦ nomatch h
  exact ⟨compiled, hcompiled, compileAll_closed _ _ compiled hnamed hscalars hcompiled⟩

end Compiler
end ResourceApi

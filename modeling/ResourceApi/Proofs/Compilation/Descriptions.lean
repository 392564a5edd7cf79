import ResourceApi.Proofs.Compilation.WellFormed
import ResourceApi.Proofs.Document.Legible
import ResourceApi.Proofs.Document.RoundTrip
import ResourceApi.Proofs.Graph.Spelling

/-!
# Descriptions in compiled documents

A field of a generated type carries the description of its declaration.  It is printed as a block string,
in which triple quotes are escaped but nothing else is: so the lexer finds its end where it is meant to be
if the text does not end in a backslash, and ends in quotes by threes at most.  If all descriptions of the
models are such texts, and all their names are names, the document that they are compiled to is read as it
is printed; otherwise one description can make all of it unreadable.
-/

namespace ResourceApi

/-- The field of a type of the given name is the identifier, or a declaration of the model with its
description. -/
def ResourceSchema.Describes (schema : ResourceSchema) (name : String) (field : FieldDefinition) :
    Prop :=
  field.name = "id" ∧ field.description = none ∨
    ∃ path typeName node spec, schema.NodeAt path typeName node ∧
      Synthesis.HoldsFieldsOf typeName name ∧ (field.name, spec) ∈ node.fields ∧
        field.description = spec.description?

/-! ## Types of a stage -/

/-- A field that can be written down is read as it is printed, once it is known where it points. -/
theorem Stage.legible_retargetField {known : List String} {field : FieldNode}
    (spells : Synthesis.Spells field) (reference : (retargetField known field).kind = .reference →
      IsName (retargetField known field).typeName) :
    (TypeDocument.ofField (retargetField known field)).Legible := by
  have htype : IsName (retargetField known field).typeName := by
    rcases retargetField_cases known field with ⟨-, hid⟩ | ⟨hsame, -⟩
    · rw [hid]
      decide
    · rw [hsame] at reference ⊢
      exact spells.type.elim reference id
  refine ⟨?_, ?_, nofun, nofun, ?_⟩
  · change IsName (retargetField known field).name
    rw [name_retargetField]
    exact spells.name
  · change IsDecorated (retargetField known field).decorated
    rw [decorated_retargetField known spells.decorated]
    exact htype.isDecorated _
  · change ∀ text ∈ (retargetField known field).description, _
    rw [description_retargetField]
    exact spells.description

namespace Compiler

variable {compiler : Compiler} {schemas : List ResourceSchema} {initial : TypeDocument}
  {stages : List Stage} {stage : Stage} {node : TypeNode}

/-- The fields of a type of a stage are described as its model declares them. -/
theorem describes_ofNode (h : compiler.stages initial schemas = .ok stages) (hstage : stage ∈ stages)
    (hnode : node ∈ stage.graph.definitions) (resource : String) :
    ∀ field ∈ (TypeDocument.ofNode resource node).fields, stage.schema.Describes node.name field := by
  intro field hfield
  obtain ⟨held, hheld, rfl⟩ := List.mem_map.mp hfield
  obtain ⟨entry, hentry, rfl⟩ := List.mem_map.mp hheld
  obtain ⟨level, name, hfound⟩ := TypeGraph.mem_definitions.mp hnode
  have hnamed := (traced_of_mem h hstage hfound).named
  obtain ⟨builder, before, known, -, -, -, hbuilt, -, rfl⟩ := exists_built h hstage hfound
  obtain ⟨written, hwritten, heq⟩ := TypeNode.mem_mapFields hentry
  obtain ⟨-, earlier, -, hwrites⟩ := hbuilt.fields _ hwritten
  obtain ⟨typeName, hholds, hdeclared⟩ := hwrites.declared
  rw [heq, hnamed]
  unfold ResourceSchema.Describes TypeDocument.ofField
  rw [Stage.name_retargetField, Stage.description_retargetField]
  refine hdeclared.imp id ?_
  rintro ⟨path, holder, spec, hpath, hmem, hdescription⟩
  exact ⟨path, typeName, holder, spec, hpath, hholds, hmem, hdescription⟩

section Stages

variable (h : compiler.stages initial schemas = .ok stages)
  (spelled : ∀ schema ∈ schemas, schema.Spelled)
include h spelled

theorem isName_of_mem_definitions (hstage : stage ∈ stages) (hnode : node ∈ stage.graph.definitions) :
    IsName node.name := by
  obtain ⟨level, name, hfound⟩ := TypeGraph.mem_definitions.mp hnode
  have htraced := traced_of_mem h hstage hfound
  rw [htraced.named]
  exact htraced.opened.isName_of_spelled (spelled _ (schema_mem h hstage))

variable (given : ∀ definition ∈ initial, IsName definition.name)
include given

theorem isName_of_mem_knownTypes {name : String} (hname : name ∈ Stage.knownTypes initial stages) :
    IsName name := by
  rcases List.mem_append.mp hname with hgenerated | hinitial
  · obtain ⟨stage, hstage, hmem⟩ := List.mem_flatMap.mp hgenerated
    obtain ⟨node, hnode, rfl⟩ := List.mem_map.mp hmem
    exact isName_of_mem_definitions h spelled hstage hnode
  · obtain ⟨definition, hdefinition, rfl, -⟩ := TypeDocument.mem_definedTypes.mp hinitial
    exact given definition hdefinition

/-- A type of a stage is read as it is printed. -/
theorem legible_ofNode (registered : compiler.scalars.Named) (hstage : stage ∈ stages)
    (hnode : node ∈ stage.graph.definitions) (resource : String) :
    (TypeDocument.ofNode resource node).Legible := by
  obtain ⟨level, name, hfound⟩ := TypeGraph.mem_definitions.mp hnode
  have hreference : ∀ entry ∈ node.fields, entry.2.kind = .reference → IsName entry.2.typeName :=
    fun entry hentry hkind ↦ isName_of_mem_knownTypes h spelled given
      (mem_knownTypes_of_reference h hstage hnode hentry hkind)
  obtain ⟨builder, before, known, hwalk, -, hget, -, hfilled, rfl⟩ := exists_built h hstage hfound
  have hspells := Synthesis.spellsType_of_walk hwalk hget registered
    (spelled _ (schema_mem h hstage)) fun name hname ↦ by
      rw [TypeDocument.has_existingFields] at hname
      obtain ⟨definition, hdefinition, rfl⟩ := List.mem_map.mp hname
      exact given definition hdefinition
  have hfields : (before.mapFields (Stage.retargetField known)).fields = [] ↔ before.fields = [] :=
    List.map_eq_nil_iff
  have hfits : (TypeDocument.ofNode resource (before.mapFields (Stage.retargetField known))).FitsKind :=
    TypeDocument.fitsKind_ofNode ((TypeNode.isEmpty_mapFields _ before).trans hfilled)
      (fun hheld ↦ hspells.fielded (mt hfields.mpr hheld))
      hspells.united hspells.enumerated resource
  refine ⟨hspells.name, nofun, fun _ ↦ rfl, fun field hfield ↦ ?_, hspells.members, hspells.values,
    hfits⟩
  obtain ⟨held, hheld, rfl⟩ := List.mem_map.mp hfield
  obtain ⟨entry, hentry, rfl⟩ := List.mem_map.mp hheld
  have hpoints := hreference entry hentry
  obtain ⟨written, hwritten, heq⟩ := TypeNode.mem_mapFields hentry
  rw [heq] at hpoints ⊢
  exact Stage.legible_retargetField (hspells.fields _ hwritten) hpoints

/-- What a stage brings is read as it is printed. -/
theorem legible_of_mem_document (registered : compiler.scalars.Named) (hstage : stage ∈ stages)
    {definition : Definition} (hdefinition : definition ∈ stage.document) : definition.Legible := by
  have hspelled := spelled _ (schema_mem h hstage)
  have hresource : IsWord stage.names.resource := hspelled.named.resource.isWord
  have hplural : IsWord stage.names.plural := hspelled.named.isWord_pluralName
  rw [Stage.document_eq, List.mem_append] at hdefinition
  rcases hdefinition with htype | hroot
  · rcases List.mem_append.mp htype with hmem | hmem
    · obtain ⟨node, hnode, rfl⟩ := List.mem_map.mp hmem
      exact legible_ofNode h spelled given registered hstage hnode _
    · obtain ⟨page, hpage, rfl⟩ := List.mem_map.mp hmem
      obtain ⟨segment, hname, hobject, -⟩ := OperationSchema.page_of_mem_pages hpage
      refine TypeDocument.legible_page ?_ ?_ _
      · rw [hname]
        exact isName_pageTypeName segment hplural
      · rw [hobject]
        exact isName_objectTypeName segment hresource
  · obtain ⟨kind, -, hextension⟩ := List.mem_flatMap.mp hroot
    refine TypeDocument.legible_rootExtension (fun signature hsignature ↦ ?_) hextension
    obtain ⟨operation, rfl, -⟩ :=
      OperationSchema.served_of_mem_signatures (OperationSchema.mem_signatures.mpr ⟨kind, hsignature⟩)
    exact OperationNames.legible_signature hresource hplural hspelled.renames operation

end Stages

/-! ## Compiled documents -/

/-- A field of a type with a generated name stands in the initial document, or is described as a model
declares it. -/
theorem describes_of_mem_fieldsOf {compiled : CompiledSchema}
    (h : compiler.compileAll schemas initial = .ok compiled) {kind : TypeKind} {name : String}
    (named : kind.Names name) {field : FieldDefinition}
    (hfield : field ∈ compiled.document.fieldsOf name) :
    field ∈ initial.fieldsOf name ∨ ∃ schema ∈ schemas, schema.Describes name field := by
  obtain ⟨stages, -, hstages, hdocument, -⟩ := compileAll_eq_ok h
  rw [hdocument, document, TypeDocument.fieldsOf_complete _ _ named.not_isShared,
    TypeDocument.fieldsOf_append, List.mem_append] at hfield
  refine hfield.imp_right fun hmem ↦ ?_
  obtain ⟨definition, hdefinition, rfl, hheld⟩ := TypeDocument.mem_fieldsOf.mp hmem
  obtain ⟨stage, hstage, hbrought⟩ := List.mem_flatMap.mp hdefinition
  obtain ⟨node, hnode, rfl⟩ := Stage.exists_of_names hbrought named
  exact ⟨_, schema_mem hstages hstage, describes_ofNode hstages hstage hnode _ field hheld⟩

/-- If the models and the initial document can be written down, what they are compiled to is read as it
is printed. -/
theorem legible_of_compileAll {compiled : CompiledSchema} (registered : compiler.scalars.Named)
    (spelled : ∀ schema ∈ schemas, schema.Spelled) (given : ∀ definition ∈ initial, definition.Legible)
    (h : compiler.compileAll schemas initial = .ok compiled) :
    ∀ definition ∈ compiled.document, definition.Legible := by
  obtain ⟨stages, -, hstages, hdocument, -⟩ := compileAll_eq_ok h
  rw [hdocument]
  refine TypeDocument.legible_complete registered (List.forall_mem_append.mpr ⟨given, ?_⟩)
  intro definition hdefinition
  obtain ⟨stage, hstage, hbrought⟩ := List.mem_flatMap.mp hdefinition
  exact legible_of_mem_document hstages spelled (fun _ hinitial ↦ (given _ hinitial).name) registered
    hstage hbrought

/-- The fields of the generated types carry the descriptions that the models declare.  The block string of
a description is closed at its last quotes exactly if the text does not run into them, and it holds the
value of the text, in which triple quotes have a backslash; a compiled document is read as it is printed
if all its descriptions are closed so. -/
theorem compileAll_descriptions (compiler : Compiler) (schemas : List ResourceSchema)
    (initial : TypeDocument) (compiled : CompiledSchema)
    (h : compiler.compileAll schemas initial = .ok compiled) :
    (∀ (kind : TypeKind) (name : String), kind.Names name →
        ∀ field ∈ compiled.document.fieldsOf name, field ∈ initial.fieldsOf name ∨
          ∃ schema ∈ schemas, schema.Describes name field) ∧
      (∀ (indent text : String) (rest : List Char),
        (TypeDocument.renderDescription indent (some text)).toList ++ rest =
            indent.toList ++ "\"\"\"".toList ++ TypeDocument.quoted text.toList ('\n' :: rest) ∧
          (Literal.Grammar.blockBody (TypeDocument.quoted text.toList ('\n' :: rest)) =
            some (TypeDocument.escapeTripleQuotes text.toList, '\n' :: rest) ↔
              TypeDocument.Closes text.toList)) ∧
      (∀ text : String, TypeDocument.unescapeTripleQuotes (TypeDocument.readText text).toList =
        Literal.Grammar.blockValue text.toList) ∧
      (compiler.scalars.Named → (∀ schema ∈ schemas, schema.Spelled) →
        (∀ definition ∈ initial, definition.Legible) → compiled.document ≠ [] →
          TypeDocument.parse compiled.sdl = .ok (compiled.document.map Definition.readBack)) := by
  refine ⟨fun kind name named field ↦ ?_, fun indent text rest ↦ ⟨?_, ?_⟩,
    TypeDocument.unescapeTripleQuotes_readText, fun registered spelled given nonempty ↦ ?_⟩
  · exact describes_of_mem_fieldsOf h named
  · exact TypeDocument.renderDescription_some indent text rest
  · exact TypeDocument.blockBody_quoted_iff text.toList ('\n' :: rest)
  · exact TypeDocument.parse_readBack nonempty (legible_of_compileAll registered spelled given h)

/-- A description within quotes: the lexer takes the first three of the four quotes that end it. -/
theorem compileAll_descriptions_quoted :
    let name : FieldAttributes :=
      ⟨some "String", none, none, none, none, false, none, some "called \"Ann\"", .null⟩
    let user : ResourceSchema := ⟨"User", ⟨none, [("name", .attributes name)], []⟩, [], [], none⟩
    let own : GenerationConfig := ⟨fun leaf ↦ leaf matches .object .own⟩
    ∃ compiled, compileAll ⟨own, .default⟩ [user] [] = .ok compiled ∧
      ∀ document, TypeDocument.parse compiled.sdl ≠ .ok document := by
  intro name user own
  obtain ⟨compiled, hcompiled, hrefused⟩ :
      ∃ compiled, compileAll ⟨own, .default⟩ [user] [] = .ok compiled ∧
        (!(TypeDocument.parse compiled.sdl).passes fun _ ↦ true) = true :=
    Except.exists_of_passes (by decide +kernel)
  refine ⟨compiled, hcompiled, fun document hread ↦ ?_⟩
  rw [hread] at hrefused
  cases hrefused

/-- A description with a triple quote and with indented lines, beside a type that is described as well. -/
theorem compileAll_descriptions_user :
    let text := "\"\"\"Ann\"\"\"\n    or her friends"
    let name : FieldAttributes :=
      ⟨some "String", none, none, none, none, false, none, some text, .null⟩
    let user : ResourceSchema := ⟨"User", ⟨none, [("name", .attributes name)], []⟩, [], [], none⟩
    let own : GenerationConfig := ⟨fun leaf ↦ leaf matches .object .own | .query _ .own .whole⟩
    let initial : TypeDocument :=
      [{ Definition.new "SelfUserObject" .object with
        description := some "A \"user\" of ours", fields := [.new "nickname" "String!"] }]
    let held : FieldDefinition := ⟨"name", "String", [], none, some text⟩
    let read : FieldDefinition :=
      ⟨"name", "String", [], none, some "\\\"\"\"Ann\\\"\"\"\nor her friends"⟩
    ∃ compiled, compileAll ⟨own, .default⟩ [user] initial = .ok compiled ∧
      held ∈ compiled.document.fieldsOf "SelfUserObject" ∧ user.Describes "SelfUserObject" held ∧
      TypeDocument.parse compiled.sdl = .ok (compiled.document.map Definition.readBack) ∧
      read ∈ TypeDocument.fieldsOf (compiled.document.map Definition.readBack) "SelfUserObject" := by
  intro text name user own initial held read
  obtain ⟨compiled, hcompiled, hchecked⟩ :
      ∃ compiled, compileAll ⟨own, .default⟩ [user] initial = .ok compiled ∧
        decide (compiled.document ≠ [] ∧ held ∈ compiled.document.fieldsOf "SelfUserObject" ∧
          held ∉ initial.fieldsOf "SelfUserObject" ∧
          read ∈ TypeDocument.fieldsOf (compiled.document.map Definition.readBack) "SelfUserObject") =
            true :=
    Except.exists_of_passes (by decide +kernel)
  obtain ⟨hnonempty, hheld, hnew, hread⟩ := of_decide_eq_true hchecked
  have hnamed : user.Named :=
    ⟨by decide, (fun _ h ↦ nomatch h), SchemaNode.named_of_leaves (by decide)⟩
  have hspelled : user.Spelled :=
    ResourceSchema.spelled_of_nodes 1 (by decide +kernel) hnamed (by decide) (by decide +kernel)
      (by decide +kernel)
  have hgiven : ∀ definition ∈ initial, definition.Legible := by
    refine List.forall_mem_singleton.mpr ⟨by decide, ?_, nofun, ?_, nofun, nofun, ?_⟩
    · exact fun text h ↦ Option.some.inj h ▸ by decide
    · have hstring : IsDecorated "String!" := ⟨"String", [false], by decide, by decide⟩
      exact List.forall_mem_singleton.mpr (FieldDefinition.legible_new (by decide) hstring)
    · exact ⟨List.cons_ne_nil _ _, by decide, rfl, rfl⟩
  obtain ⟨hdescribed, -, -, hparse⟩ := compileAll_descriptions _ _ _ compiled hcompiled
  obtain hinitial | ⟨schema, hschema, hdescribes⟩ :=
    hdescribed .object "SelfUserObject" (TypeKind.names_object .own "User") held hheld
  · exact absurd hinitial hnew
  · exact ⟨compiled, hcompiled, hheld, List.mem_singleton.mp hschema ▸ hdescribes,
      hparse ScalarRegistry.named_default (List.forall_mem_singleton.mpr hspelled) hgiven hnonempty,
      hread⟩

end Compiler
end ResourceApi

import ResourceApi.Proofs.Compilation.Names

/-!
# What is found under a name

In the document of a run a name is found to be a scalar or an enum unless it is of the form that other
definitions have.  A type of a stage is found under its own name, with all its fields, as long as the
names of nodes tell the nodes: no other type, page or root type has that name.
-/

namespace ResourceApi

/-! ## Names of leaves and of other definitions -/

/-- The names of the definitions that are neither scalars nor enums. -/
inductive IsComposite : String → Prop
  | type {kind : TypeKind} {name : String} (nonempty : kind ≠ .enumeration) (names : kind.Names name) :
      IsComposite name
  | page (segment : Segment) (plural : String) : IsComposite (pageTypeName segment plural)
  | root (kind : OperationKind) : IsComposite kind.rootType
  | pagination : IsComposite paginationInputType
  | nameAndId : IsComposite nameAndIdType

namespace IsComposite

variable {name : String}

/-- The last letters of the names of composite types, last one first. -/
def endings : List (List Char) :=
  [['t', 'c', 'e'], ['t', 'u', 'p'], ['e', 'c', 'a'], ['n', 'o', 'i'], ['e', 'g', 'a'], ['y', 'r', 'e'],
    ['d', 'I', 'd']]

theorem lastLetters_mem (h : IsComposite name) : TypeKind.lastLetters name ∈ endings := by
  cases h with
  | @type kind _ named names =>
    cases hending : kind.ending? with
    | none => cases kind <;> first | exact absurd rfl named | cases hending
    | some ending =>
      rw [TypeKind.lastLetters_of_names names hending]
      cases kind <;> cases hending <;> decide
  | page segment plural =>
    have hletters : TypeKind.lastLetters (pageTypeName segment plural) = ['e', 'g', 'a'] :=
      TypeKind.lastLetters_append _ "Page" (by decide)
    rw [hletters]
    decide
  | root kind => cases kind <;> decide
  | pagination => decide
  | nameAndId => decide

/-- Enums are not named like composite types. -/
theorem not_of_enumeration (h : TypeKind.enumeration.Names name) : ¬IsComposite name := by
  intro hcomposite
  have hlower : endings.all (·.any Char.isLower) = true := by decide
  obtain ⟨c, hc, hcase⟩ :=
    List.any_eq_true.mp (List.all_eq_true.mp hlower _ hcomposite.lastLetters_mem)
  have hmem : c ∈ name.toList := List.mem_reverse.mp (List.mem_of_mem_take hc)
  cases (h c hmem).symm.trans hcase

end IsComposite

/-- No registered scalar is named like a composite type. -/
def ScalarRegistry.Apart (scalars : ScalarRegistry) : Prop :=
  ∀ name ∈ scalars.names, ¬IsComposite name

theorem ScalarRegistry.Apart.not_isComposite {scalars : ScalarRegistry} {name : String}
    (h : scalars.Apart) (offered : scalars.Offers name) : ¬IsComposite name := by
  have hendings : ∀ scalar ∈ Scalar.standard ++ [Scalar.json, Scalar.nonNegativeInt, Scalar.dateTime],
      TypeKind.lastLetters scalar ∉ IsComposite.endings := by
    decide
  refine offered.of_forall (P := fun scalar ↦ ¬IsComposite scalar) (fun scalar hmem hcomposite ↦ ?_) h
  exact hendings scalar hmem hcomposite.lastLetters_mem

/-! ## Parts of a document -/

namespace TypeDocument

variable {scalars : ScalarRegistry} {node : TypeNode} {name : String}

/-- A type is defined with all its fields, each under its name. -/
theorem field?_ofNode (resource : String) (distinct : node.fields.keys.Nodup)
    (named : ∀ entry ∈ node.fields, entry.1 = entry.2.name) {field : FieldNode}
    (mem : field ∈ node.fields.values) :
    (ofNode resource node).field? field.name = some (ofField field) := by
  have hnames : (node.fields.values.map (·.name)).Nodup := by
    rwa [Entries.map_values_eq_keys named]
  unfold Definition.field?
  change (node.fields.values.map ofField).find? _ = _
  rw [List.find?_map]
  have hfound : (node.fields.values.find? ((fun held ↦ held.name == field.name) ∘ ofField)).isSome :=
    List.find?_isSome.mpr ⟨field, mem, beq_self_eq_true _⟩
  obtain ⟨found, hfound⟩ := Option.isSome_iff_exists.mp hfound
  have hname : found.name = field.name := by
    simpa [ofField, FieldDefinition.new] using List.find?_some hfound
  rw [hfound, List.inj_on_of_nodup_map hnames (List.mem_of_find?_eq_some hfound) mem hname,
    Option.map_some]

theorem field?_isSome_of_has (resource : String) (distinct : node.fields.keys.Nodup)
    (named : ∀ entry ∈ node.fields, entry.1 = entry.2.name)
    (has : node.fields.has name = true) : ((ofNode resource node).field? name).isSome = true := by
  obtain ⟨⟨key, field⟩, hentry, rfl⟩ := List.mem_map.mp (Entries.has_iff.mp has)
  have hname : key = field.name := named _ hentry
  rw [hname, field?_ofNode resource distinct named (List.mem_map_of_mem hentry)]
  rfl

/-- What completion adds is a scalar, or one of the types that all resources share. -/
theorem kind_of_supportFor? {definition : Definition}
    (h : supportFor? scalars name = some definition) :
    definition.kind = .scalar ∨ IsComposite definition.name := by
  unfold supportFor? at h
  split at h
  · cases h
    exact .inr .pagination
  · split at h
    · cases h
      exact .inr .nameAndId
    · split at h <;> cases h
      exact .inl rfl

end TypeDocument

/-! ## Definitions of a run -/

namespace Compiler

variable {compiler : Compiler} {schemas : List ResourceSchema} {stages : List Stage}
  {stage : Stage} {node : TypeNode} {definition : Definition} {name : String}

/-- The definitions that are named otherwise than composite types are scalars and enums. -/
theorem kind_of_mem_document (h : compiler.stages [] schemas = .ok stages)
    (mem : definition ∈ compiler.document [] stages) (leaf : ¬IsComposite definition.name) :
    definition.kind = .scalar ∨ definition.kind = .enumeration := by
  obtain ⟨before, hbefore, heq⟩ := TypeDocument.exists_of_mem_complete mem
  rw [← heq] at leaf ⊢
  change ¬IsComposite before.name at leaf
  change before.kind = .scalar ∨ before.kind = .enumeration
  rcases hbefore with hdocument | hsupport
  · obtain ⟨stage, hstage, hmem⟩ := List.mem_flatMap.mp hdocument
    rcases Stage.cases_of_mem_document hmem with ⟨node, hnode, rfl⟩ | ⟨segment, hpage⟩ | ⟨kind, hroot⟩
    · have hkind : node.kind = .enumeration := by
        by_contra hcomposite
        exact leaf (.type hcomposite ((modeled_stages h stage hstage).names_of_mem hnode))
      right
      change TypeDocument.kindOf node.kind = .enumeration
      rw [hkind]
      rfl
    · exact absurd (hpage ▸ .page segment _) leaf
    · exact absurd (hroot ▸ .root kind) leaf
  · rcases TypeDocument.mem_supportDefinitions.mp hsupport with hanswer | ⟨rfl, -⟩
    · obtain ⟨asked, -, -, -, hfound⟩ := TypeDocument.mem_answers.mp hanswer
      exact .inl ((TypeDocument.kind_of_supportFor? hfound).resolve_right leaf)
    · exact .inl rfl

/-- The objects, inputs, interfaces and unions of a run are told apart by their names. -/
theorem eq_of_name_eq (checked : checkSchemas schemas = .ok ())
    (h : compiler.stages [] schemas = .ok stages) (nodes : NodesApart schemas)
    (hstage : stage ∈ stages) {stage' : Stage} (hstage' : stage' ∈ stages)
    (hnode : node ∈ stage.graph.definitions) {node' : TypeNode}
    (hnode' : node' ∈ stage'.graph.definitions) (kind : node.kind ≠ .enumeration)
    (same : node.name = node'.name) : stage = stage' ∧ node = node' := by
  obtain ⟨level, hentry, hdescribed⟩ := (modeled_stages h stage hstage).exists_level hnode
  obtain ⟨level', hentry', hdescribed'⟩ := (modeled_stages h stage' hstage').exists_level hnode'
  obtain ⟨path, horigin⟩ := hdescribed.origin
  obtain ⟨path', horigin'⟩ := hdescribed'.origin
  rw [← same] at horigin' hentry'
  obtain ⟨hsame, -, rfl⟩ := horigin.unique nodes (fun henum ↦ absurd henum kind)
    (schema_mem h hstage) (schema_mem h hstage') horigin'
  obtain rfl := eq_of_resource_eq checked h hstage hstage' (congrArg ResourceSchema.resource hsame)
  have hdistinct := (modeled_stages h stage hstage).distinct level
  exact ⟨rfl, Option.some.inj ((Entries.get?_of_mem hdistinct hentry).symm.trans
    (Entries.get?_of_mem hdistinct hentry'))⟩

/-- A type of a stage that is no enum is what the document of the run has under its name. -/
theorem get?_document (checked : checkSchemas schemas = .ok ())
    (h : compiler.stages [] schemas = .ok stages) (nodes : NodesApart schemas)
    (hstage : stage ∈ stages) (hnode : node ∈ stage.graph.definitions)
    (kind : node.kind ≠ .enumeration) : TypeDocument.get? (compiler.document [] stages) node.name =
      some (TypeDocument.ofNode stage.graph.resource node) := by
  obtain ⟨level, -, hdescribed⟩ := (modeled_stages h stage hstage).exists_level hnode
  have hnames := (modeled_stages h stage hstage).names_of_mem hnode
  have hmem : TypeDocument.ofNode stage.graph.resource node ∈ stages.flatMap Stage.document :=
    List.mem_flatMap.mpr ⟨stage, hstage, Stage.mem_document hnode⟩
  refine TypeDocument.get?_eq_of_unique (TypeDocument.mem_complete hmem hdescribed.defined _)
    hdescribed.defined fun other hother hname hdefined ↦ ?_
  change other.name = node.name at hname
  obtain ⟨before, hbefore, heq⟩ := TypeDocument.exists_of_mem_complete hother
  have hbeforeName : before.name = node.name := by rw [← hname, ← heq]
  rcases hbefore with hdocument | hsupport
  · obtain ⟨stage', hstage', hbefore⟩ := List.mem_flatMap.mp hdocument
    rcases Stage.cases_of_mem_document hbefore with
      ⟨node', hnode', rfl⟩ | ⟨segment, hpage⟩ | ⟨root, hroot⟩
    · obtain ⟨rfl, rfl⟩ :=
        eq_of_name_eq checked h nodes hstage hstage' hnode hnode' kind hbeforeName.symm
      rw [← heq, hdefined, ← hdescribed.defined]
      rfl
    · rw [← hbeforeName, hpage] at hnames
      exact absurd hnames (not_names_pageTypeName _ _ _)
    · rw [← hbeforeName, hroot] at hnames
      exact absurd hnames (not_names_rootType _ _)
  · have hundefined := (TypeDocument.defined_supportDefinitions hsupport).2
    rw [hbeforeName] at hundefined
    exact absurd (TypeDocument.mem_definedTypes.mpr ⟨_, hmem, rfl, hdescribed.defined⟩) hundefined

end Compiler
end ResourceApi

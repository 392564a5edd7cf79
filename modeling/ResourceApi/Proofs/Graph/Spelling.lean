import ResourceApi.Proofs.Graph.Source
import ResourceApi.Proofs.Model.Spelling

/-!
# Types that can be written down

The types that the walk over a model opens, and the fields that it writes into them, are spelled as the
model and its scalars are; only a reference may name what the walk does not know.  A type gets fields,
members or values according to its kind, and a field the description of its declaration.
-/

namespace ResourceApi.Synthesis

variable {scalars : ScalarRegistry} {start position : Position} {builder next : GraphBuilder}
  {field : ClassifiedField} {options : FieldConfig} {level : Nat} {name : String}
  {schema : ResourceSchema} {config : GenerationConfig}

/-! ## Names -/

theorem Opens.isName_of_spelled {kind : TypeKind} {base : String}
    (h : Opens scalars (.root schema config) level name kind base) (spelled : schema.Spelled) :
    IsName name := by
  refine h.isName spelled.named.resource spelled.named.node fun hkind ↦ ?_
  subst hkind
  obtain ⟨path, horigin⟩ := h.origin
  obtain ⟨values, hvalues, -⟩ := horigin.of_enumeration
  exact (spelled.enums _ _ _ hvalues).1

/-- What can be pointed at has a valid name, as the types of the initial document have. -/
theorem Traced.isName_of_isAvailable (traced : Traced scalars (.root schema config) builder)
    (spelled : schema.Spelled) (given : ∀ name, builder.existing.has name = true → IsName name)
    (available : builder.isAvailable level name = true) : IsName name := by
  unfold GraphBuilder.isAvailable at available
  rcases Bool.or_eq_true_iff.mp available with hexisting | hheld
  · exact given name hexisting
  · cases hget : builder.get? level name with
    | none =>
      rw [hget] at hheld
      cases hheld
    | some node => exact (traced.types level name node hget).opened.isName_of_spelled spelled

/-! ## Fields -/

/-- The field can be written down as soon as it is known where it points. -/
structure Spells (field : FieldNode) : Prop where
  name : IsName field.name
  type : field.kind = .reference ∨ IsName field.typeName
  decorated : field.decorated = decorate field.typeName field.nullable
  description : ∀ text ∈ field.description, TypeDocument.Closes text.toList

theorem isName_of_leafLink {kind : LinkKind} {target : String}
    (h : leafLink field options = some (kind, target)) (registered : scalars.Named)
    (below : position.Below scalars (.root schema config)) (spelled : schema.Spelled)
    (declared : position.Declares scalars field options) : IsName target := by
  unfold leafLink at h
  split at h
  · rename_i hkind
    obtain ⟨spec, -, hclassify, -⟩ := declared
    cases h
    exact registered.isName (ClassifiedField.scalar_of_classify hclassify hkind)
  · rename_i values hkind
    split at h
    · obtain ⟨path, hvalues, -⟩ := below.exists_enum declared hkind
      cases h
      exact (spelled.enums _ _ _ hvalues).1
    · cases h
      decide
  · cases h
  · cases h

/-- A field that a declaration is written as can be written down. -/
theorem Links.spells {node : FieldNode} (h : Links level field options builder node)
    (registered : scalars.Named) (below : position.Below scalars (.root schema config))
    (spelled : schema.Spelled) (declared : position.Declares scalars field options)
    (available : ∀ level name, builder.isAvailable level name = true → IsName name) :
    Spells { node with description := field.description } := by
  obtain ⟨spec, hmem, hclassify, -⟩ := id declared
  obtain ⟨path, hpath, -⟩ := below.exists_path
  refine ⟨?_, ?_, h.decorated, ?_⟩
  · change IsName node.name
    rw [h.name]
    cases (below.isName spelled.named.resource spelled.named.node).2 with
    | intro fields => exact fields _ spec hmem
  · change node.kind = .reference ∨ IsName node.typeName
    cases h with
    | leaf link => exact .inr (isName_of_leafLink link registered below spelled declared)
    | reference => exact .inl rfl
    | identifier => exact .inr (show IsName "ID" by decide)
    | object found => exact .inr (available _ _ found)
    | nested found => exact .inr (available _ _ found)
  · change ∀ text ∈ field.description, _
    rw [ClassifiedField.description_of_classify hclassify]
    exact spelled.descriptions path _ _ hpath (field.name, spec) hmem

theorem spells_idField : Spells idField :=
  ⟨by decide, .inr (by decide), rfl, fun _ h ↦ nomatch h⟩

theorem Writes.spells {held : FieldNode}
    (h : Writes scalars (.root schema config) builder level name held) (registered : scalars.Named)
    (spelled : schema.Spelled)
    (available : ∀ level name, builder.isAvailable level name = true → IsName name) :
    Spells held := by
  cases h with
  | objectIdentifier => exact spells_idField
  | inputIdentifier => exact spells_idField
  | object below declared visible enumOpen found =>
    exact (links_of_objectField? found).spells registered below spelled declared available
  | input below declared visible enumOpen found =>
    exact (links_of_inputField? found).spells registered below spelled declared available
  | interface below declared enabled visible partly enumOpen found =>
    exact (links_of_interfaceField? found).spells registered below spelled declared available

/-- The type of the name holds the fields of the nodes that the type name belongs to. -/
def HoldsFieldsOf (typeName name : String) : Prop :=
  (∃ segment, name = objectTypeName segment typeName) ∨
    (∃ action, name = inputTypeName action typeName) ∨ name = interfaceTypeName typeName

theorem HoldsFieldsOf.apart {typeName : String} (h : HoldsFieldsOf typeName name) {kind : TypeKind}
    (names : kind.Names name) : kind ≠ .union ∧ kind ≠ .enumeration := by
  obtain ⟨segment, rfl⟩ | ⟨action, rfl⟩ | rfl := h
  · rw [names.unique (TypeKind.names_object segment typeName)]
    exact ⟨nofun, nofun⟩
  · rw [names.unique (TypeKind.names_input action typeName)]
    exact ⟨nofun, nofun⟩
  · rw [names.unique (TypeKind.names_interface typeName)]
    exact ⟨nofun, nofun⟩

/-- A field that is written is the identifier, or that of a declaration, whose description it carries. -/
theorem Writes.declared {held : FieldNode}
    (h : Writes scalars (.root schema config) builder level name held) :
    ∃ typeName, HoldsFieldsOf typeName name ∧ (held.name = "id" ∧ held.description = none ∨
      ∃ path node spec, schema.NodeAt path typeName node ∧ (held.name, spec) ∈ node.fields ∧
        held.description = spec.description?) := by
  have hdeclared : ∀ {position : Position} {field : ClassifiedField} {options : FieldConfig}
      {node : FieldNode}, position.Below scalars (.root schema config) →
        position.Declares scalars field options → node.name = field.name →
        ∃ path holder spec, schema.NodeAt path position.typeName holder ∧
          (node.name, spec) ∈ holder.fields ∧ field.description = spec.description? := by
    intro position field options node below declared hname
    obtain ⟨spec, hmem, hclassify, -⟩ := declared
    obtain ⟨path, hpath, -⟩ := below.exists_path
    exact ⟨path, position.node, spec, hpath, hname ▸ hmem,
      ClassifiedField.description_of_classify hclassify⟩
  cases h with
  | objectIdentifier => exact ⟨_, .inl ⟨_, rfl⟩, .inl ⟨rfl, rfl⟩⟩
  | inputIdentifier => exact ⟨_, .inr (.inl ⟨_, rfl⟩), .inl ⟨rfl, rfl⟩⟩
  | object below declared visible enumOpen found =>
    exact ⟨_, .inl ⟨_, rfl⟩, .inr (hdeclared below declared (links_of_objectField? found).name)⟩
  | input below declared visible enumOpen found =>
    exact ⟨_, .inr (.inl ⟨_, rfl⟩), .inr (hdeclared below declared (links_of_inputField? found).name)⟩
  | interface below declared enabled visible partly enumOpen found =>
    exact ⟨_, .inr (.inr rfl), .inr (hdeclared below declared (links_of_interfaceField? found).name)⟩

/-! ## Members and values -/

theorem Comes.isUnion {node : TypeNode} (h : Comes scalars start builder level name node)
    (before : ∀ node, builder.get? level name = some node → node.members ≠ [] →
      TypeKind.union.Names name) (filled : node.members ≠ []) : TypeKind.union.Names name := by
  cases h with
  | unchanged found => exact before _ found filled
  | opened absent opens => exact absurd rfl filled
  | labelled below found => exact before _ found filled
  | field found writes absent => exact before _ found filled
  | members below found available => exact TypeKind.names_union _
  | values below declared kind found => exact before _ found filled

/-- Only unions get members. -/
theorem Steps.isUnion (h : Steps scalars start builder next)
    (before : ∀ level name node, builder.get? level name = some node → node.members ≠ [] →
      TypeKind.union.Names name) :
    ∀ level name node, next.get? level name = some node → node.members ≠ [] →
      TypeKind.union.Names name := by
  induction h with
  | refl => exact before
  | tail _ hstep ih =>
    intro level name node hnode
    exact (hstep.comes hnode).isUnion (ih level name)

/-- Only enums get values. -/
theorem Sourced.isEnumeration {node : TypeNode} (h : Sourced scalars start level name node)
    (filled : node.values ≠ []) : TypeKind.enumeration.Names name := by
  obtain ⟨value, hvalue⟩ := List.exists_mem_of_ne_nil _ filled
  obtain ⟨position, field, options, values, -, -, ⟨spec, -, hclassify, -⟩, hkind, rfl, -⟩ :=
    h.values value hvalue
  rw [(ClassifiedField.enumeration_of_classify hclassify hkind).1]
  exact names_enumTypeName _ _

/-! ## Types -/

/-- The type can be written down as soon as it is known where its fields point, and has what its kind
asks for only. -/
structure SpellsType (node : TypeNode) : Prop where
  name : IsName node.name
  fields : ∀ entry ∈ node.fields, Spells entry.2
  members : ∀ member ∈ node.members, IsName member
  values : ∀ value ∈ node.values, Literal.isEnumName value = true
  fielded : node.fields ≠ [] → node.kind ≠ .union ∧ node.kind ≠ .enumeration
  united : node.members ≠ [] → node.kind = .union
  enumerated : node.values ≠ [] → node.kind = .enumeration

/-- What a walk over a model builds up can be written down, if the model and its scalars can, and the names
of the types beside which it is built. -/
theorem spellsType_of_walk {existing : Entries (List String)} {node : TypeNode}
    (h : (Position.root schema config).walk scalars (GraphBuilder.new schema.resource existing) =
      .ok builder) (found : builder.get? level name = some node) (registered : scalars.Named)
    (spelled : schema.Spelled) (given : ∀ name, existing.has name = true → IsName name) :
    SpellsType node := by
  have hsteps : Steps scalars (.root schema config) _ builder := Position.walk_steps .refl h
  have htraced := Steps.traced hsteps (traced_new ..)
  have hbuilt := htraced.types level name node found
  have hsourced := Steps.sourced hsteps (fun _ _ _ h ↦ nomatch h) level name node found
  have hunion := Steps.isUnion hsteps (fun _ _ _ h ↦ nomatch h) level name node found
  have hexisting : builder.existing = existing := (Steps.grows hsteps).existing
  have havailable : ∀ level name, builder.isAvailable level name = true → IsName name :=
    fun _ _ ↦ htraced.isName_of_isAvailable spelled (hexisting ▸ given)
  refine ⟨hbuilt.named ▸ hbuilt.opened.isName_of_spelled spelled, fun entry hentry ↦ ?_,
    fun member hmember ↦ havailable level member (hbuilt.members member hmember),
    fun value hvalue ↦ ?_, fun hfilled ↦ ?_, fun hfilled ↦ hbuilt.kind.unique (hunion hfilled),
    fun hfilled ↦ hbuilt.kind.unique (hsourced.isEnumeration hfilled)⟩
  · obtain ⟨-, before, hbefore, hwrites⟩ := hbuilt.fields entry hentry
    exact hwrites.spells registered spelled fun level name hearlier ↦
      havailable level name ((Steps.grows hbefore).isAvailable hearlier)
  · obtain ⟨position, field, options, values, below, -, declared, hkind, -, hmem⟩ :=
      hsourced.values value hvalue
    obtain ⟨path, hvalues, -⟩ := below.exists_enum declared hkind
    exact (spelled.enums _ _ _ hvalues).2 value hmem
  · obtain ⟨entry, hentry⟩ := List.exists_mem_of_ne_nil _ hfilled
    obtain ⟨-, before, -, hwrites⟩ := hbuilt.fields entry hentry
    obtain ⟨typeName, hholds, -⟩ := hwrites.declared
    exact hholds.apart hbuilt.kind

end ResourceApi.Synthesis

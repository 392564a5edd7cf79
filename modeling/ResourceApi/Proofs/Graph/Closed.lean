import ResourceApi.Proofs.Graph.Origin
import ResourceApi.Proofs.Model.Naming

/-!
# Closed graphs

Every field of a built-up graph points at something: a scalar that the registry offers, an enum of the
same level, or a type of the next one; only references may lead outside.  The walk checks that a nested
type is available before it points at it, and what is available stays so to the end, where exactly the
types that stayed empty are dropped.
-/

namespace ResourceApi.Synthesis

variable {scalars : ScalarRegistry} {start position : Position} {builder next : GraphBuilder}
  {field : ClassifiedField} {options : FieldConfig} {level : Nat} {name : String}
  {node : FieldNode}

/-- The target of the field is there, at the level where the kind of the field looks for it. -/
def LinkedAt (scalars : ScalarRegistry) (builder : GraphBuilder) (level : Nat) (node : FieldNode) :
    Prop :=
  match node.kind with
  | .scalar => scalars.Offers node.typeName
  | .enumeration => builder.isAvailable level node.typeName = true
  | .reference => True
  | .object => builder.isAvailable (level + 1) node.typeName = true

theorem LinkedAt.later (h : LinkedAt scalars builder level node) (grows : builder.Grows next) :
    LinkedAt scalars next level node := by
  unfold LinkedAt at h ⊢
  cases hkind : node.kind with
  | scalar => simpa only [hkind] using h
  | reference => trivial
  | enumeration =>
    simp only [hkind] at h
    exact grows.isAvailable h
  | object =>
    simp only [hkind] at h
    exact grows.isAvailable h

theorem offers_string : scalars.Offers "String" := .inl (by decide)

theorem offers_id : scalars.Offers "ID" := .inl (by decide)

/-! ## Fields are written with their targets -/

/-- An enum that is there with the values of its field can be pointed at. -/
theorem EnumOpen.isAvailable (h : EnumOpen level field options builder)
    (built : Built scalars start builder) {values : List String}
    (kind : field.kind = .enumeration values) (filled : values ≠ [])
    (names : TypeKind.enumeration.Names field.target)
    (enabled : options.config.enabled .enumeration = true) :
    builder.isAvailable level field.target = true := by
  obtain ⟨holder, hholder, hvalues⟩ := h values kind enabled
  have hkind : holder.kind = .enumeration :=
    (built.types level field.target holder hholder).kind.unique names
  have hne : holder.values ≠ [] := by
    intro hnil
    rw [hnil] at hvalues
    exact filled (List.subset_nil.mp hvalues)
  have hempty : holder.isEmpty = false := by
    unfold TypeNode.isEmpty
    rw [hkind]
    simpa using hne
  unfold GraphBuilder.isAvailable
  rw [hholder]
  simp [hempty]

theorem linkedAt_of_leafLink {kind : LinkKind} {target : String}
    (declared : position.Declares scalars field options)
    (enumOpen : EnumOpen level field options builder) (built : Built scalars start builder)
    (h : leafLink field options = some (kind, target)) (nullable : List Bool) :
    LinkedAt scalars builder level (.leaf field.name kind target nullable) := by
  obtain ⟨spec, -, hclassify, -⟩ := declared
  unfold leafLink at h
  split at h
  · rename_i hkind
    cases h
    exact ClassifiedField.scalar_of_classify hclassify hkind
  · rename_i values hkind
    obtain ⟨htarget, hfilled⟩ := ClassifiedField.enumeration_of_classify hclassify hkind
    split at h
    · rename_i henabled
      cases h
      have hnames : TypeKind.enumeration.Names field.target := htarget ▸ names_enumTypeName _ _
      exact enumOpen.isAvailable built hkind hfilled hnames henabled
    · cases h
      exact offers_string
  · cases h
  · cases h

theorem Links.linkedAt (h : Links level field options builder node)
    (declared : position.Declares scalars field options)
    (enumOpen : EnumOpen level field options builder) (built : Built scalars start builder) :
    LinkedAt scalars builder level node := by
  cases h with
  | leaf link nullable => exact linkedAt_of_leafLink declared enumOpen built link nullable
  | reference => trivial
  | identifier => exact offers_id
  | object available => exact available
  | nested available => exact available

theorem Writes.linkedAt (h : Writes scalars start builder level name node)
    (built : Built scalars start builder) : LinkedAt scalars builder level node := by
  cases h with
  | objectIdentifier => exact offers_id
  | inputIdentifier => exact offers_id
  | object below declared visible enumOpen found =>
    exact (links_of_objectField? found).linkedAt declared enumOpen built
  | input below declared visible enumOpen found =>
    exact (links_of_inputField? found).linkedAt declared enumOpen built
  | interface below declared enabled visible partly enumOpen found =>
    exact (links_of_interfaceField? found).linkedAt declared enumOpen built

/-- The fields of all types have their targets. -/
def AllLinked (scalars : ScalarRegistry) (builder : GraphBuilder) : Prop :=
  ∀ level name holder, builder.get? level name = some holder →
    ∀ entry ∈ holder.fields, LinkedAt scalars builder level entry.2

theorem Comes.linked {holder : TypeNode} (h : Comes scalars start builder level name holder)
    (built : Built scalars start builder) (linked : AllLinked scalars builder) :
    ∀ entry ∈ holder.fields, LinkedAt scalars builder level entry.2 := by
  cases h with
  | unchanged found => exact linked _ _ _ found
  | opened absent opens => exact fun _ h ↦ nomatch h
  | labelled below found => exact fun entry hentry ↦ linked _ _ _ found entry hentry
  | field found writes absent =>
    intro entry hentry
    rcases List.mem_append.mp hentry with hold | hnew
    · exact linked _ _ _ found entry hold
    · obtain rfl := List.mem_singleton.mp hnew
      exact writes.linkedAt built
  | members below found available => exact fun entry hentry ↦ linked _ _ _ found entry hentry
  | values below declared kind found => exact fun entry hentry ↦ linked _ _ _ found entry hentry

theorem Steps.allLinked (h : Steps scalars start builder next) (built : Built scalars start builder)
    (linked : AllLinked scalars builder) : AllLinked scalars next := by
  induction h with
  | refl => exact linked
  | @tail middle last hsteps hstep ih =>
    intro level name holder hholder entry hentry
    have hlinked := (hstep.comes hholder).linked (Steps.built hsteps built) ih
    exact (hlinked entry hentry).later hstep.grows

/-! ## Names -/

/-- Below a start with valid names all positions have valid names. -/
theorem Position.Below.isName (below : position.Below scalars start) (hstart : IsName start.typeName)
    (named : start.node.Named) : IsName position.typeName ∧ position.node.Named := by
  induction below with
  | refl => exact ⟨hstart, named⟩
  | tail _ hchild ih =>
    obtain ⟨⟨spec, hmem, hclassify, -⟩, hkind, -⟩ := hchild
    obtain ⟨hname, hnamed⟩ := ih
    obtain ⟨hnested, htarget⟩ := ClassifiedField.object_of_classify hclassify hkind
    cases hnamed with
    | intro fields aliases nested =>
      refine ⟨?_, nested _ spec _ hmem hnested⟩
      change IsName (ClassifiedField.target _)
      rw [htarget]
      cases halias : spec.alias? with
      | none => exact isName_nestedTypeName hname (fields _ spec hmem).isWord
      | some given => exact isName_nestedTypeName hname (aliases _ spec given hmem halias).isWord

/-- The types that are opened below a start with valid names have valid names, if the enums have. -/
theorem Opens.isName {base : String} {kind : TypeKind} (h : Opens scalars start level name kind base)
    (hstart : IsName start.typeName) (named : start.node.Named)
    (enums : kind = .enumeration → IsName name) : IsName name := by
  cases h with
  | object below => exact isName_objectTypeName _ (below.isName hstart named).1.isWord
  | input below => exact isName_inputTypeName _ (below.isName hstart named).1.isWord
  | interface below => exact isName_interfaceTypeName (below.isName hstart named).1
  | union below => exact isName_unionTypeName (below.isName hstart named).1
  | enumeration => exact enums rfl

theorem Opens.isWord {base : String} {kind : TypeKind}
    (h : Opens scalars start level name kind base) (hstart : IsName start.typeName)
    (named : start.node.Named) : IsWord name := by
  by_cases hkind : kind = .enumeration
  · subst hkind
    cases h with
    | enumeration below declared kind enabled =>
      obtain ⟨spec, hmem, hclassify, -⟩ := declared
      obtain ⟨hname, hnamed⟩ := below.isName hstart named
      rw [(ClassifiedField.enumeration_of_classify hclassify kind).1]
      cases hnamed with
      | intro fields aliases nested =>
        exact isWord_enumTypeName hname.isWord (fields _ spec hmem).isWord
  · exact (h.isName hstart named fun heq ↦ absurd heq hkind).isWord

end ResourceApi.Synthesis

/-! ## Finished graphs -/

namespace ResourceApi

/-- A graph whose types are defined under their own names, which are words, and whose fields and union
members point at types of the graph or at scalars, references apart. -/
structure TypeGraph.Linked (scalars : ScalarRegistry) (graph : TypeGraph) : Prop where
  named : ∀ level : Nat, ∀ entry ∈ graph.levels[level]?.getD [], entry.2.name = entry.1
  words : ∀ node ∈ graph.definitions, IsWord node.name
  defined : ∀ node ∈ graph.definitions, node.extending = false
  fields : ∀ node ∈ graph.definitions, ∀ entry ∈ node.fields, entry.2.kind = .reference ∨
    scalars.Offers entry.2.typeName ∨
      ∃ other ∈ graph.definitions, other.name = entry.2.typeName
  decorated : ∀ node ∈ graph.definitions, ∀ entry ∈ node.fields,
    entry.2.decorated = decorate entry.2.typeName entry.2.nullable
  members : ∀ node ∈ graph.definitions, ∀ member ∈ node.members,
    ∃ other ∈ graph.definitions, other.name = member

namespace Synthesis

variable {scalars : ScalarRegistry} {start : Position} {builder : GraphBuilder} {level : Nat}
  {name : String}

theorem Built.exists_definition (built : Built scalars start builder)
    (available : builder.isAvailable level name = true) :
    ∃ other ∈ builder.finish.definitions, other.name = name := by
  obtain ⟨node, hnode⟩ := built.exists_of_isAvailable available
  have hbuilt := built.types level name node (built.typeAt?_finish.mp hnode).1
  exact ⟨node, TypeGraph.mem_definitions.mpr ⟨level, name, Entries.mem_of_get? hnode⟩, hbuilt.named⟩

theorem Built.linked_finish (built : Built scalars start builder)
    (linked : AllLinked scalars builder) (hstart : IsName start.typeName)
    (named : start.node.Named) : builder.finish.Linked scalars where
  named level entry hentry :=
    (built.types _ _ _ (built.get?_of_mem_finish hentry)).named
  words node hnode := by
    obtain ⟨level, name, hentry⟩ := TypeGraph.mem_definitions.mp hnode
    have hbuilt := built.types _ _ _ (built.get?_of_mem_finish hentry)
    rw [hbuilt.named]
    exact hbuilt.opened.isWord hstart named
  defined node hnode := by
    obtain ⟨level, name, hentry⟩ := TypeGraph.mem_definitions.mp hnode
    exact built.defined (built.get?_of_mem_finish hentry)
  fields node hnode entry hfield := by
    obtain ⟨level, name, hentry⟩ := TypeGraph.mem_definitions.mp hnode
    have hlinked := linked _ _ _ (built.get?_of_mem_finish hentry) entry hfield
    unfold LinkedAt at hlinked
    cases hkind : entry.2.kind with
    | scalar =>
      simp only [hkind] at hlinked
      exact .inr (.inl hlinked)
    | reference => exact .inl rfl
    | enumeration =>
      simp only [hkind] at hlinked
      exact .inr (.inr (built.exists_definition hlinked))
    | object =>
      simp only [hkind] at hlinked
      exact .inr (.inr (built.exists_definition hlinked))
  decorated node hnode entry hfield := by
    obtain ⟨level, name, hentry⟩ := TypeGraph.mem_definitions.mp hnode
    have hbuilt := built.types _ _ _ (built.get?_of_mem_finish hentry)
    obtain ⟨-, before, -, hwrites⟩ := hbuilt.fields entry hfield
    exact hwrites.decorated
  members node hnode member hmember := by
    obtain ⟨level, name, hentry⟩ := TypeGraph.mem_definitions.mp hnode
    have hbuilt := built.types _ _ _ (built.get?_of_mem_finish hentry)
    exact built.exists_definition (hbuilt.members member hmember)

/-- The graph of a resource with valid names is closed. -/
theorem ofSchema_linked {schema : ResourceSchema} {config : GenerationConfig} {graph : TypeGraph}
    (named : schema.Named) (h : TypeGraph.ofSchema scalars schema config [] = .ok graph) :
    graph.Linked scalars := by
  obtain ⟨builder, hwalk, hbuilt, rfl⟩ := ofSchema_built h
  have hsteps : Steps scalars (.root schema config) _ builder := Position.walk_steps .refl hwalk
  have hlinked := Steps.allLinked hsteps (built_new ..) (fun _ _ _ h ↦ nomatch h)
  exact hbuilt.linked_finish hlinked named.resource named.node

end Synthesis
end ResourceApi

import ResourceApi.Proofs.Model.Nesting
import ResourceApi.Proofs.Text.Word
import ResourceApi.Signature

/-!
# Models with valid names

A model whose names are names of the schema language: those of its resource and its plural, of its
fields at any depth, and of the nested types that are named explicitly.  All type names that are made
from such names are words.
-/

namespace ResourceApi

/-- The text is a name of the schema language. -/
def IsName (text : String) : Prop := Name.isValid text.toList = true

instance (text : String) : Decidable (IsName text) :=
  inferInstanceAs (Decidable (Name.isValid text.toList = true))

theorem IsName.isWord {text : String} (h : IsName text) : IsWord text := isWord_of_isValid h

theorem IsName.append {front back : String} (hfront : IsName front) (hback : IsWord back) :
    IsName (front ++ back) := by
  unfold IsName at hfront ⊢
  rw [String.toList_append]
  cases hlist : front.toList with
  | nil =>
    rw [hlist] at hfront
    cases hfront
  | cons first more =>
    rw [hlist] at hfront
    unfold Name.isValid at hfront ⊢
    rw [List.cons_append]
    simp only [Bool.and_eq_true, List.all_append] at hfront ⊢
    exact ⟨hfront.1, hfront.2, List.all_eq_true.mpr hback⟩

/-- All fields and nested types of the node have valid names, at every depth. -/
inductive SchemaNode.Named : SchemaNode → Prop
  | intro {node : SchemaNode}
      (fields : ∀ name spec, (name, spec) ∈ node.fields → IsName name)
      (aliases : ∀ name spec given, (name, spec) ∈ node.fields → spec.alias? = some given →
        IsName given)
      (nested : ∀ name spec child, (name, spec) ∈ node.fields → spec.nested? = some child →
        SchemaNode.Named child) : SchemaNode.Named node

/-- It is enough to look at every field with its name, its alias and its nested node. -/
theorem SchemaNode.named_of_forall {node : SchemaNode} (h : ∀ entry ∈ node.fields, IsName entry.1 ∧
      (∀ given, entry.2.alias? = some given → IsName given) ∧
      ∀ child, entry.2.nested? = some child → SchemaNode.Named child) : node.Named :=
  .intro (fun _ _ hmem ↦ (h _ hmem).1) (fun _ _ given hmem ↦ (h _ hmem).2.1 given)
    (fun _ _ child hmem ↦ (h _ hmem).2.2 child)

theorem SchemaNode.named_of_leaves {node : SchemaNode} (h : ∀ entry ∈ node.fields,
      IsName entry.1 ∧ entry.2.alias? = none ∧ entry.2.nested? = none) : node.Named := by
  refine SchemaNode.named_of_forall fun entry hmem ↦ ?_
  obtain ⟨hname, halias, hnested⟩ := h entry hmem
  rw [halias, hnested]
  exact ⟨hname, (fun _ h ↦ nomatch h), (fun _ h ↦ nomatch h)⟩

/-- The names that a resource brings are valid. -/
structure ResourceSchema.Named (schema : ResourceSchema) : Prop where
  resource : IsName schema.resource
  plural : ∀ plural, schema.plural = some plural → IsName plural
  node : schema.node.Named

theorem ResourceSchema.Named.isWord_pluralName {schema : ResourceSchema} (h : schema.Named) :
    IsWord schema.pluralName := by
  unfold pluralName
  cases hplural : schema.plural with
  | none =>
    rw [Option.getD_none]
    exact Text.isWord_pluralize h.resource.isWord
  | some plural =>
    rw [Option.getD_some]
    exact (h.plural plural hplural).isWord

/-- The registered scalars have valid names. -/
def ScalarRegistry.Named (scalars : ScalarRegistry) : Prop := ∀ name ∈ scalars.names, IsName name

theorem ScalarRegistry.named_default : ScalarRegistry.default.Named := by
  unfold Named
  decide

/-- What holds of the built-in and of the registered scalars holds of all that are offered. -/
theorem ScalarRegistry.Offers.of_forall {scalars : ScalarRegistry} {name : String}
    {P : String → Prop} (offered : scalars.Offers name)
    (builtin : ∀ scalar ∈ Scalar.standard ++ [Scalar.json, Scalar.nonNegativeInt, Scalar.dateTime],
      P scalar) (registered : ∀ scalar ∈ scalars.names, P scalar) : P name := by
  rcases offered with hbuiltin | hdateTime | hhas
  · have hmem : name ∈ Scalar.standard ∨ name = Scalar.json ∨ name = Scalar.nonNegativeInt := by
      simpa [Scalar.isBuiltin, Scalar.isStandard, or_assoc] using hbuiltin
    refine builtin name (List.mem_append.mpr (hmem.imp_right fun hshared ↦ ?_))
    rcases hshared with rfl | rfl
    · exact List.mem_cons_self
    · exact List.mem_cons_of_mem _ List.mem_cons_self
  · subst hdateTime
    exact builtin _ (by decide)
  · exact registered name (Entries.has_iff.mp hhas)

theorem ScalarRegistry.Named.isName {scalars : ScalarRegistry} {name : String} (h : scalars.Named)
    (offered : scalars.Offers name) : IsName name :=
  offered.of_forall (by decide) h

theorem ScalarRegistry.Named.isWord {scalars : ScalarRegistry} {name : String} (h : scalars.Named)
    (offered : scalars.Offers name) : IsWord name :=
  (h.isName offered).isWord

/-! ## Names of generated types -/

section Names

variable {base name : String}

theorem isName_segment (segment : Segment) : IsName segment.label := by
  cases segment <;> decide

theorem isName_action (action : InputAction) : IsName action.label := by
  cases action <;> decide

theorem isName_objectTypeName (segment : Segment) (h : IsWord base) :
    IsName (objectTypeName segment base) :=
  ((isName_segment segment).append h).append (by decide)

theorem isName_inputTypeName (action : InputAction) (h : IsWord base) :
    IsName (inputTypeName action base) :=
  ((isName_action action).append h).append (by decide)

theorem isName_pageTypeName (segment : Segment) (h : IsWord base) :
    IsName (pageTypeName segment base) :=
  ((isName_segment segment).append h).append (by decide)

theorem isName_interfaceTypeName (h : IsName base) : IsName (interfaceTypeName base) :=
  h.append (by decide)

theorem isName_unionTypeName (h : IsName base) : IsName (unionTypeName base) :=
  h.append (by decide)

theorem isName_nestedTypeName (h : IsName base) (hname : IsWord name) :
    IsName (ClassifiedField.nestedTypeName base name) :=
  h.append (Text.isWord_upperCamelCase hname)

theorem isWord_enumTypeName (h : IsWord base) (hname : IsWord name) :
    IsWord (ClassifiedField.enumTypeName base name) :=
  Text.isWord_upperSnakeCase ((h.append (by decide)).append hname)

end Names
end ResourceApi

import ResourceApi.Proofs.Document.Description
import ResourceApi.Proofs.Literal.RoundTrip
import ResourceApi.Proofs.Model.Naming
import ResourceApi.Proofs.Model.Path

/-!
# Models that can be written down

A model becomes a text of the schema language if its names are names of that language, also those of its
enums and the replacements of its operations, if its enum values are values there, and if the descriptions
of its fields close the block strings they are written as.
-/

namespace ResourceApi

/-! ## Descriptions -/

/-- The description of a declared field. -/
def FieldSpec.description? : FieldSpec → Option String
  | .list [inner] => inner.description?
  | .attributes table => table.description
  | _ => none

theorem ClassifiedField.description_of_classify {parent name : String} {scalars : ScalarRegistry}
    {spec : FieldSpec} {field : ClassifiedField}
    (h : classify parent name scalars spec = .ok field) : field.description = spec.description? := by
  unfold classify at h
  generalize 0 = depth at h
  induction depth, spec using classifyAt.induct with
  | case1 depth inner ih => exact ih (by simpa only [classifyAt] using h)
  | case2 depth items hitems =>
    rw [classifyAt.eq_2 _ _ _ _ _ hitems] at h
    cases h
  | case3 depth primitive =>
    unfold classifyAt at h
    obtain ⟨_, -, hok⟩ := Except.bind_eq_ok_iff.mp h
    cases hok
    rfl
  | case4 depth table =>
    unfold classifyAt at h
    obtain ⟨⟨kind, target⟩, -, hok⟩ := Except.bind_eq_ok_iff.mp h
    cases hok
    rfl

/-! ## Models -/

/-- All texts of the model can be written in the schema language. -/
structure ResourceSchema.Spelled (schema : ResourceSchema) : Prop where
  named : schema.Named
  renames : ∀ entry ∈ schema.operationNames, IsName entry.2
  enums : ∀ path typeName values, schema.EnumAt path typeName values →
    IsName typeName ∧ ∀ value ∈ values, Literal.isEnumName value = true
  descriptions : ∀ path typeName node, schema.NodeAt path typeName node →
    ∀ entry ∈ node.fields, ∀ text ∈ entry.2.description?, TypeDocument.Closes text.toList

/-- It is enough to look at the nodes of a model of bounded depth. -/
theorem ResourceSchema.spelled_of_nodes {schema : ResourceSchema} (depth : Nat)
    (shallow : schema.level depth = []) (named : schema.Named)
    (renames : ∀ entry ∈ schema.operationNames, IsName entry.2)
    (enums : ∀ placed ∈ schema.nodesTo depth, ∀ field ∈ placed.node.fields,
      ∀ values ∈ field.2.values?, IsName (ClassifiedField.enumTypeName placed.typeName field.1) ∧
        ∀ value ∈ values, Literal.isEnumName value = true)
    (descriptions : ∀ placed ∈ schema.nodesTo depth, ∀ field ∈ placed.node.fields,
      ∀ text ∈ field.2.description?, TypeDocument.Closes text.toList) : schema.Spelled where
  named := named
  renames := renames
  enums path typeName values henum := by
    cases henum with
    | intro holder field given =>
      exact enums _ (holder.mem_nodesTo shallow) _ (List.mem_of_getElem? field) values given
  descriptions path typeName node hnode := descriptions _ (hnode.mem_nodesTo shallow)

end ResourceApi

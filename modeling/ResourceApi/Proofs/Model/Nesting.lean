import ResourceApi.Model.Classify
import ResourceApi.Proofs.Except

/-!
# Nested nodes

A declaration leads to a nested node through any number of lists of one element.  A node is larger than
the nodes nested in it, so what holds of a node as soon as it holds of those holds of every node.
`Classifies` says once what a classification can give: the kind of a nested object exactly to the
declarations that lead to a node, and to every other kind a target that fits it.
-/

namespace ResourceApi

/-- The nested node of a declaration that has one. -/
def FieldSpec.nested? : FieldSpec → Option SchemaNode
  | .list [inner] => inner.nested?
  | .attributes table => table.schema
  | _ => none

/-- The name that a declaration gives its nested type, if it gives one. -/
def FieldSpec.alias? : FieldSpec → Option String
  | .list [inner] => inner.alias?
  | .attributes table => table.typeAlias
  | _ => none

theorem sizeOf_nested {spec : FieldSpec} {child : SchemaNode} (h : spec.nested? = some child) :
    sizeOf child < sizeOf spec := by
  induction spec using FieldSpec.nested?.induct with
  | case1 inner ih =>
    have hinner := ih (by simpa only [FieldSpec.nested?] using h)
    simp only [FieldSpec.list.sizeOf_spec, List.cons.sizeOf_spec]
    omega
  | case2 attributes =>
    obtain ⟨_, _, _, _, schema, _, _, _, _⟩ := attributes
    simp only [FieldSpec.nested?] at h
    subst h
    simp only [FieldSpec.attributes.sizeOf_spec, FieldAttributes.mk.sizeOf_spec,
      Option.some.sizeOf_spec]
    omega
  | case3 spec hlist hattributes =>
    unfold FieldSpec.nested? at h
    split at h
    · exact absurd rfl (hlist _)
    · exact absurd rfl (hattributes _)
    · cases h

/-- Induction on nodes, through the declarations of their fields. -/
theorem SchemaNode.induction {motive : SchemaNode → Prop}
    (step : ∀ node : SchemaNode, (∀ name spec child, (name, spec) ∈ node.fields →
      spec.nested? = some child → motive child) → motive node)
    (node : SchemaNode) : motive node := by
  refine step node fun name spec child hmem hnested ↦ ?_
  have hspec := List.sizeOf_lt_of_mem hmem
  have hchild := sizeOf_nested hnested
  have hless : sizeOf child < sizeOf node := by
    obtain ⟨generate, fields, fragments⟩ := node
    simp only [SchemaNode.mk.sizeOf_spec, Prod.mk.sizeOf_spec] at hspec ⊢
    omega
  exact SchemaNode.induction step child
termination_by sizeOf node

/-- The name is a scalar of the language, one of the shared scalars, or registered. -/
def ScalarRegistry.Offers (scalars : ScalarRegistry) (name : String) : Prop :=
  Scalar.isBuiltin name = true ∨ name = Scalar.dateTime ∨ scalars.has name = true

namespace ClassifiedField

variable {parent name : String} {scalars : ScalarRegistry} {spec : FieldSpec}
  {field : ClassifiedField} {kind : FieldKind} {target : String}

/-- The kinds that a declaration can have, each with the type it is about. -/
inductive Classifies (parent name : String) (scalars : ScalarRegistry) (spec : FieldSpec) :
    FieldKind → String → Prop
  | object {node : SchemaNode} (nested : spec.nested? = some node) :
      Classifies parent name scalars spec (.object node)
        (nestedTypeName parent (spec.alias?.getD name))
  | enumeration {values : List String} (nested : spec.nested? = none) (filled : values ≠ []) :
      Classifies parent name scalars spec (.enumeration values) (enumTypeName parent name)
  | reference {resource : String} (nested : spec.nested? = none) :
      Classifies parent name scalars spec .reference resource
  | scalar {target : String} (nested : spec.nested? = none) (offered : scalars.Offers target) :
      Classifies parent name scalars spec .scalar target

theorem offers_of_ofPrimitive? {primitive : String} (h : Scalar.ofPrimitive? primitive = some target) :
    scalars.Offers target := by
  unfold Scalar.ofPrimitive? at h
  split at h <;> cases h <;> first | exact .inl (by decide) | exact .inr (.inl rfl)

theorem offers_of_primitiveScalar {primitive : String}
    (h : primitiveScalar parent name primitive scalars = .ok target) : scalars.Offers target := by
  unfold primitiveScalar at h
  split at h
  · rename_i scalar hscalar
    cases h
    exact offers_of_ofPrimitive? hscalar
  · split at h
    · rename_i hhas
      cases h
      exact .inr (.inr hhas)
    · cases h

theorem offers_of_explicitScalar {scalar : String}
    (h : explicitScalar parent name scalar scalars = .ok target) : scalars.Offers target := by
  unfold explicitScalar at h
  split at h
  · rename_i found hfound
    cases h
    exact offers_of_ofPrimitive? hfound
  · split at h
    · rename_i hknown
      cases h
      rcases Bool.or_eq_true_iff.mp hknown with hbuiltin | hhas
      · exact .inl hbuiltin
      · exact .inr (.inr hhas)
    · cases h

theorem classifies_of_kindOf {table : FieldAttributes}
    (h : kindOf parent name scalars table = .ok (kind, target)) :
    Classifies parent name scalars (.attributes table) kind target := by
  unfold kindOf at h
  cases hschema : table.schema with
  | some node =>
    simp only [hschema] at h
    cases h
    exact .object hschema
  | none =>
    simp only [hschema] at h
    split at h
    · split at h
      · cases h
      · rename_i values _ hvalues
        cases h
        exact .enumeration hschema (by simpa using hvalues)
    · split at h
      · split at h
        · cases h
        · cases h
          exact .reference hschema
      · split at h
        · obtain ⟨scalar, hscalar, hok⟩ := Except.bind_eq_ok_iff.mp h
          cases hok
          exact .scalar hschema (offers_of_explicitScalar hscalar)
        · split at h
          · obtain ⟨scalar, hscalar, hok⟩ := Except.bind_eq_ok_iff.mp h
            cases hok
            exact .scalar hschema (offers_of_primitiveScalar hscalar)
          · cases h

theorem Classifies.list (h : Classifies parent name scalars spec kind target) :
    Classifies parent name scalars (.list [spec]) kind target := by
  cases h with
  | object nested => exact .object nested
  | enumeration nested filled => exact .enumeration nested filled
  | reference nested => exact .reference nested
  | scalar nested offered => exact .scalar nested offered

theorem classifies_of_classifyAt {depth : Nat}
    (h : classifyAt parent name scalars depth spec = .ok field) :
    field.name = name ∧ Classifies parent name scalars spec field.kind field.target := by
  induction depth, spec using classifyAt.induct with
  | case1 depth inner ih =>
    obtain ⟨hname, hinner⟩ := ih (by simpa only [classifyAt] using h)
    exact ⟨hname, hinner.list⟩
  | case2 depth items hitems =>
    rw [classifyAt.eq_2 _ _ _ _ _ hitems] at h
    cases h
  | case3 depth primitive =>
    unfold classifyAt at h
    obtain ⟨scalar, hscalar, hok⟩ := Except.bind_eq_ok_iff.mp h
    cases hok
    exact ⟨rfl, .scalar rfl (offers_of_primitiveScalar hscalar)⟩
  | case4 depth table =>
    unfold classifyAt at h
    obtain ⟨⟨kind, target⟩, hkind, hok⟩ := Except.bind_eq_ok_iff.mp h
    cases hok
    exact ⟨rfl, classifies_of_kindOf hkind⟩

theorem classifies_of_classify (h : classify parent name scalars spec = .ok field) :
    Classifies parent name scalars spec field.kind field.target :=
  (classifies_of_classifyAt h).2

theorem name_of_classify (h : classify parent name scalars spec = .ok field) : field.name = name :=
  (classifies_of_classifyAt h).1

/-- A field is a nested object exactly if its declaration leads to a node. -/
theorem kind_eq_object_iff (h : classify parent name scalars spec = .ok field) (child : SchemaNode) :
    field.kind = .object child ↔ spec.nested? = some child := by
  have hclassifies := classifies_of_classify h
  generalize field.kind = kind, field.target = target at hclassifies ⊢
  cases hclassifies <;> simp_all

/-- A nested type is named after its parent and its alias, or else its field. -/
theorem object_of_classify {child : SchemaNode} (h : classify parent name scalars spec = .ok field)
    (hkind : field.kind = .object child) :
    spec.nested? = some child ∧ field.target = nestedTypeName parent (spec.alias?.getD name) := by
  have hclassifies := classifies_of_classify h
  rw [hkind] at hclassifies
  generalize field.target = target at hclassifies ⊢
  cases hclassifies with
  | object nested => exact ⟨nested, rfl⟩

theorem scalar_of_classify (h : classify parent name scalars spec = .ok field)
    (hkind : field.kind = .scalar) : scalars.Offers field.target := by
  have hclassifies := classifies_of_classify h
  rw [hkind] at hclassifies
  generalize field.target = target at hclassifies ⊢
  cases hclassifies with
  | scalar nested offered => exact offered

/-- An enum is named after its field, and has values. -/
theorem enumeration_of_classify {values : List String}
    (h : classify parent name scalars spec = .ok field) (hkind : field.kind = .enumeration values) :
    field.target = enumTypeName parent name ∧ values ≠ [] := by
  have hclassifies := classifies_of_classify h
  rw [hkind] at hclassifies
  generalize field.target = target at hclassifies ⊢
  cases hclassifies with
  | enumeration nested filled => exact ⟨rfl, filled⟩

end ClassifiedField
end ResourceApi

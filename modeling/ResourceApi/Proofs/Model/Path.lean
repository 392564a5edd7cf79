import Mathlib.Data.List.Basic
import ResourceApi.Proofs.Model.Nesting

/-!
# Paths through a model

A node of a model is told apart from all others by its path: the positions of the declarations that lead
to it, the innermost first.  The path tells the name of the type that is generated for the node; the
converse is not true of every model, as names are put together from the names along the path.
-/

namespace ResourceApi

/-! ## What a declaration says -/

/-- The values of a declared enum. -/
def FieldSpec.values? : FieldSpec → Option (List String)
  | .list [inner] => inner.values?
  | .attributes table => if table.schema.isSome then none else table.values
  | _ => none

/-- The resource that a declared reference leads to. -/
def FieldSpec.reference? : FieldSpec → Option String
  | .list [inner] => inner.reference?
  | .attributes table => if table.schema.isSome || table.values.isSome then none else table.reference
  | _ => none

/-- The name that the type of a nested node adds to that of the node around it. -/
def FieldSpec.localName (name : String) (spec : FieldSpec) : String :=
  Text.upperCamelCase (spec.alias?.getD name)

namespace ClassifiedField

variable {parent name : String} {scalars : ScalarRegistry} {spec : FieldSpec}
  {field : ClassifiedField} {kind : FieldKind} {target : String}

/-- The kind of an enum or a reference is what the declaration says. -/
def Declared (spec : FieldSpec) (kind : FieldKind) (target : String) : Prop :=
  match kind with
  | .enumeration values => spec.values? = some values
  | .reference => spec.reference? = some target
  | .scalar | .object _ => True

theorem declared_of_kindOf {table : FieldAttributes}
    (h : kindOf parent name scalars table = .ok (kind, target)) :
    Declared (.attributes table) kind target := by
  unfold kindOf at h
  cases hschema : table.schema with
  | some node =>
    simp only [hschema] at h
    cases h
    trivial
  | none =>
    simp only [hschema] at h
    cases hvalues : table.values with
    | some values =>
      simp only [hvalues] at h
      split at h
      · cases h
      · cases h
        simp [Declared, FieldSpec.values?, hschema, hvalues]
    | none =>
      simp only [hvalues] at h
      cases hreference : table.reference with
      | some resource =>
        simp only [hreference] at h
        split at h
        · cases h
        · cases h
          simp [Declared, FieldSpec.reference?, hschema, hvalues, hreference]
      | none =>
        simp only [hreference] at h
        split at h
        · obtain ⟨_, -, hok⟩ := Except.bind_eq_ok_iff.mp h
          cases hok
          trivial
        · split at h
          · obtain ⟨_, -, hok⟩ := Except.bind_eq_ok_iff.mp h
            cases hok
            trivial
          · cases h

theorem declared_of_classifyAt {depth : Nat}
    (h : classifyAt parent name scalars depth spec = .ok field) :
    Declared spec field.kind field.target := by
  induction depth, spec using classifyAt.induct with
  | case1 depth inner ih =>
    have hinner := ih (by simpa only [classifyAt] using h)
    unfold Declared at hinner ⊢
    cases hkind : field.kind with
    | enumeration values => simpa only [hkind, FieldSpec.values?] using hinner
    | reference => simpa only [hkind, FieldSpec.reference?] using hinner
    | scalar => trivial
    | object child => trivial
  | case2 depth items hitems =>
    rw [classifyAt.eq_2 _ _ _ _ _ hitems] at h
    cases h
  | case3 depth primitive =>
    unfold classifyAt at h
    obtain ⟨_, -, hok⟩ := Except.bind_eq_ok_iff.mp h
    cases hok
    trivial
  | case4 depth table =>
    unfold classifyAt at h
    obtain ⟨⟨kind, target⟩, hkind, hok⟩ := Except.bind_eq_ok_iff.mp h
    cases hok
    exact declared_of_kindOf hkind

theorem values_of_classify {values : List String}
    (h : classify parent name scalars spec = .ok field) (hkind : field.kind = .enumeration values) :
    spec.values? = some values := by
  have hdeclared := declared_of_classifyAt h
  rwa [hkind] at hdeclared

theorem reference_of_classify (h : classify parent name scalars spec = .ok field)
    (hkind : field.kind = .reference) : spec.reference? = some field.target := by
  have hdeclared := declared_of_classifyAt h
  rwa [hkind] at hdeclared

end ClassifiedField

/-! ## Paths -/

namespace ResourceSchema

variable {schema : ResourceSchema} {path : List Nat} {typeName typeName' : String}
  {node node' : SchemaNode} {values values' : List String}

/-- The node at a path, with the name of its type. -/
inductive NodeAt (schema : ResourceSchema) : List Nat → String → SchemaNode → Prop
  | root : NodeAt schema [] schema.resource schema.node
  | nested {path : List Nat} {typeName name : String} {node child : SchemaNode} {index : Nat}
      {spec : FieldSpec} (parent : NodeAt schema path typeName node)
      (field : node.fields[index]? = some (name, spec)) (nested : spec.nested? = some child) :
      NodeAt schema (index :: path) (typeName ++ spec.localName name) child

/-- The values of the enum that is declared at a path, with the name of its type. -/
inductive EnumAt (schema : ResourceSchema) : List Nat → String → List String → Prop
  | intro {path : List Nat} {typeName name : String} {node : SchemaNode} {index : Nat}
      {spec : FieldSpec} {values : List String} (holder : NodeAt schema path typeName node)
      (field : node.fields[index]? = some (name, spec)) (given : spec.values? = some values) :
      EnumAt schema (index :: path) (ClassifiedField.enumTypeName typeName name) values

/-- An enum is a field of a node, so its path is not empty. -/
theorem EnumAt.exists_level (h : schema.EnumAt path typeName values) :
    ∃ level, path.length = level + 1 := by
  cases h with
  | intro holder field given => exact ⟨_, rfl⟩

/-- A path leads to one node. -/
theorem NodeAt.unique (h : schema.NodeAt path typeName node)
    (h' : schema.NodeAt path typeName' node') : typeName = typeName' ∧ node = node' := by
  induction h generalizing typeName' node' with
  | root =>
    cases h'
    exact ⟨rfl, rfl⟩
  | nested parent field nested ih =>
    cases h' with
    | nested parent' field' nested' =>
      obtain ⟨rfl, rfl⟩ := ih parent'
      obtain ⟨rfl, rfl⟩ := Prod.mk.inj (Option.some.inj (field.symm.trans field'))
      exact ⟨rfl, Option.some.inj (nested.symm.trans nested')⟩

theorem EnumAt.unique (h : schema.EnumAt path typeName values)
    (h' : schema.EnumAt path typeName' values') : typeName = typeName' ∧ values = values' := by
  cases h with
  | intro holder field given =>
    cases h' with
    | intro holder' field' given' =>
      obtain ⟨rfl, rfl⟩ := holder.unique holder'
      obtain ⟨rfl, rfl⟩ := Prod.mk.inj (Option.some.inj (field.symm.trans field'))
      exact ⟨rfl, Option.some.inj (given.symm.trans given')⟩

end ResourceSchema

/-! ## Nodes by level -/

/-- A node of a model with its path and the name of its type. -/
structure PlacedNode where
  path : List Nat
  typeName : String
  node : SchemaNode

namespace PlacedNode

/-- The nodes nested in the fields of a node. -/
def children (placed : PlacedNode) : List PlacedNode :=
  placed.node.fields.zipIdx.filterMap fun ((name, spec), index) ↦ spec.nested?.map fun child ↦
    ⟨index :: placed.path, placed.typeName ++ spec.localName name, child⟩

/-- The paths and the names of the enums of a node. -/
def enums (placed : PlacedNode) : List (List Nat × String) :=
  placed.node.fields.zipIdx.filterMap fun ((name, spec), index) ↦ spec.values?.map fun _ ↦
    (index :: placed.path, ClassifiedField.enumTypeName placed.typeName name)

end PlacedNode

namespace ResourceSchema

variable {schema : ResourceSchema} {path : List Nat} {typeName : String} {node : SchemaNode}
  {values : List String} {depth : Nat}

/-- The nodes whose paths have the given length. -/
def level (schema : ResourceSchema) : Nat → List PlacedNode
  | 0 => [⟨[], schema.resource, schema.node⟩]
  | n + 1 => (schema.level n).flatMap PlacedNode.children

/-- The nodes whose paths are shorter than the given length. -/
def nodesTo (schema : ResourceSchema) (depth : Nat) : List PlacedNode :=
  (List.range depth).flatMap schema.level

theorem NodeAt.mem_level (h : schema.NodeAt path typeName node) :
    ⟨path, typeName, node⟩ ∈ schema.level path.length := by
  induction h with
  | root => exact List.mem_singleton_self _
  | nested parent field nested ih =>
    have hplace := List.mk_mem_zipIdx_iff_getElem?.mpr field
    refine List.mem_flatMap.mpr ⟨_, ih, List.mem_filterMap.mpr ⟨_, hplace, ?_⟩⟩
    dsimp only
    rw [nested, Option.map_some]

theorem level_eq_nil_of_le (h : schema.level depth = []) {deeper : Nat} (hle : depth ≤ deeper) :
    schema.level deeper = [] := by
  induction hle with
  | refl => exact h
  | step _ ih => rw [level, ih, List.flatMap_nil]

/-- A model without nodes at some level has only those above it. -/
theorem NodeAt.mem_nodesTo (h : schema.NodeAt path typeName node)
    (shallow : schema.level depth = []) : ⟨path, typeName, node⟩ ∈ schema.nodesTo depth := by
  have hlevel := h.mem_level
  refine List.mem_flatMap.mpr ⟨path.length, List.mem_range.mpr ?_, hlevel⟩
  by_contra hdeep
  rw [level_eq_nil_of_le shallow (Nat.le_of_not_lt hdeep)] at hlevel
  cases hlevel

theorem EnumAt.exists_mem_enums (h : schema.EnumAt path typeName values)
    (shallow : schema.level depth = []) :
    ∃ placed ∈ schema.nodesTo depth, (path, typeName) ∈ placed.enums := by
  cases h with
  | intro holder field given =>
    have hplace := List.mk_mem_zipIdx_iff_getElem?.mpr field
    refine ⟨_, holder.mem_nodesTo shallow, List.mem_filterMap.mpr ⟨_, hplace, ?_⟩⟩
    dsimp only
    rw [given, Option.map_some]

end ResourceSchema
end ResourceApi

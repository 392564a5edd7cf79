import ResourceApi.Document
import ResourceApi.Proofs.Entries

/-!
# The fields of a type

A document may define the fields of a type in several places, a definition and any number of extensions.
All of them together are the fields of the type; they are what generation finds of an initial document.
-/

namespace ResourceApi.TypeDocument

variable {document : TypeDocument} {definition : Definition} {name root : String}
  {field : FieldDefinition}

/-- The fields of a type, over its definition and all its extensions. -/
def fieldsOf (document : TypeDocument) (name : String) : List FieldDefinition :=
  (document.allNamed name).flatMap (·.fields)

/-- The names of the fields of a type, over its definition and all its extensions. -/
def typeFields (document : TypeDocument) (name : String) : List String :=
  (document.fieldsOf name).map (·.name)

theorem mem_fieldsOf : field ∈ document.fieldsOf name ↔
    ∃ definition ∈ document, definition.name = name ∧ field ∈ definition.fields := by
  unfold fieldsOf allNamed
  simp [and_assoc]

theorem mem_typeFields {fieldName : String} : fieldName ∈ document.typeFields name ↔
    ∃ definition ∈ document, definition.name = name ∧ fieldName ∈ definition.fields.map (·.name) := by
  unfold typeFields
  simp only [List.mem_map, mem_fieldsOf]
  constructor
  · rintro ⟨field, ⟨definition, hmem, hname, hfield⟩, hfieldName⟩
    exact ⟨definition, hmem, hname, field, hfield, hfieldName⟩
  · rintro ⟨definition, hmem, hname, field, hfield, hfieldName⟩
    exact ⟨field, ⟨definition, hmem, hname, hfield⟩, hfieldName⟩

theorem fieldsOf_append (document more : TypeDocument) (name : String) :
    fieldsOf (document ++ more) name = document.fieldsOf name ++ fieldsOf more name := by
  unfold fieldsOf allNamed
  rw [List.filter_append, List.flatMap_append]

theorem fieldsOf_flatMap {α : Type} (f : α → TypeDocument) (parts : List α) (name : String) :
    fieldsOf (parts.flatMap f) name = parts.flatMap fun part ↦ (f part).fieldsOf name := by
  unfold fieldsOf allNamed
  rw [List.filter_flatMap, List.flatMap_assoc]

theorem fieldsOf_cons (definition : Definition) (document : TypeDocument) (name : String) :
    fieldsOf (definition :: document) name =
      (if definition.name == name then definition.fields else []) ++ document.fieldsOf name := by
  unfold fieldsOf allNamed
  by_cases hname : definition.name = name <;> simp [hname]

theorem fieldsOf_promoteFirst (root name : String) (document : TypeDocument) :
    fieldsOf (promoteFirst root document) name = document.fieldsOf name := by
  induction document with
  | nil => rfl
  | cons first rest ih =>
    unfold promoteFirst
    split
    · rw [fieldsOf_cons, fieldsOf_cons]
    · rw [fieldsOf_cons, fieldsOf_cons, ih]

/-- A type has no fields if none of its definitions and extensions has. -/
theorem fieldsOf_eq_nil
    (h : ∀ definition ∈ document, definition.name = name → definition.fields = []) :
    document.fieldsOf name = [] := by
  unfold fieldsOf allNamed
  rw [List.flatMap_eq_nil_iff]
  intro definition hdefinition
  obtain ⟨hmem, hname⟩ := List.mem_filter.mp hdefinition
  exact h definition hmem (beq_iff_eq.mp hname)

theorem typeFields_cons (definition : Definition) (document : TypeDocument) (name : String) :
    typeFields (definition :: document) name =
      (if definition.name == name then definition.fields.map (·.name) else []) ++
        document.typeFields name := by
  unfold typeFields
  rw [fieldsOf_cons, List.map_append]
  split <;> rfl

/-! ## The fields of an initial document -/

/-- Generation finds all fields that a document gives to a type. -/
theorem getD_existingFields (document : TypeDocument) (name : String) :
    (document.existingFields.get? name).getD [] = document.typeFields name := by
  have hfold : ∀ existing : Entries (List String),
      ((document.foldl (fun existing definition ↦
        let before := (existing.get? definition.name).getD []
        Entries.put definition.name (before ++ definition.fields.map (·.name)) existing)
          existing).get? name).getD [] = (existing.get? name).getD [] ++ document.typeFields name := by
    induction document with
    | nil =>
      intro existing
      exact (List.append_nil _).symm
    | cons definition rest ih =>
      intro existing
      rw [List.foldl_cons, ih, typeFields_cons, ← List.append_assoc]
      congr 1
      by_cases hname : definition.name = name
      · simp [hname, Entries.get?_put_self]
      · simp [hname, Entries.get?_put_of_ne _ _ (Ne.symm hname)]
  exact hfold []

/-- Generation extends a type exactly if the document has a definition or an extension of it. -/
theorem has_existingFields :
    document.existingFields.has name = true ↔ name ∈ document.map (·.name) := by
  have hfold : ∀ existing : Entries (List String),
      name ∈ (document.foldl (fun existing definition ↦
        let before := (existing.get? definition.name).getD []
        Entries.put definition.name (before ++ definition.fields.map (·.name)) existing)
          existing).keys ↔ name ∈ existing.keys ∨ name ∈ document.map (·.name) := by
    induction document with
    | nil => simp
    | cons definition rest ih =>
      intro existing
      rw [List.foldl_cons, ih, Entries.mem_keys_put, List.map_cons, List.mem_cons]
      tauto
  rw [Entries.has_iff]
  exact (hfold []).trans (or_iff_right List.not_mem_nil)

end ResourceApi.TypeDocument

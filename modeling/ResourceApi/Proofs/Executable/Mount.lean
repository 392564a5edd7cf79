import ResourceApi.Executable.Mount
import ResourceApi.Proofs.Entries
import ResourceApi.Proofs.Except

/-!
# Mounted schemas

A type of a mounted schema is a standard one, or it is the shape of a definition of the document.  So the
fields of a root type have resolvers of their own, and none of them takes its value off a parent.  And no
definition that is mounted whole has two fields of one name, as the builder gives up on those.
-/

namespace ResourceApi

/-- The value of the field is taken off the parent: a member of it, or the records that a member names. -/
def FieldSource.readsParent : FieldSource → Bool
  | .reference _ | .member => true
  | _ => false

namespace ExecutableSchema

variable {document : TypeDocument} {resolvers : ResolverTable} {scalars : ScalarRegistry}
  {schema : ExecutableSchema} {hasMutation : Bool} {name : String} {shape : TypeShape}

/-- A field that is read into a type comes from a definition. -/
theorem mem_addFields {α β : Type} {read : α → Except CompileError (String × β)}
    {built entries : Entries β} {definitions : List α} {entry : String × β}
    (h : addFields read built definitions = .ok entries) (hmem : entry ∈ entries) :
    entry ∈ built ∨ ∃ definition ∈ definitions, read definition = .ok entry := by
  induction definitions generalizing built with
  | nil =>
    cases h
    exact .inl hmem
  | cons definition rest ih =>
    unfold addFields at h
    obtain ⟨added, hread, h⟩ := Except.bind_eq_ok_iff.mp h
    split at h
    · cases h
    · rcases ih h with hbefore | ⟨later, hlater, hentry⟩
      · rcases List.mem_append.mp hbefore with hbuilt | hadded
        · exact .inl hbuilt
        · obtain rfl := List.mem_singleton.mp hadded
          exact .inr ⟨definition, List.mem_cons_self, hread⟩
      · exact .inr ⟨later, List.mem_cons_of_mem _ hlater, hentry⟩

/-- Fields are read under their own names, and each name only once. -/
theorem keys_addFields {α β : Type} {read : α → Except CompileError (String × β)} {nameOf : α → String}
    (named : ∀ definition entry, read definition = .ok entry → entry.1 = nameOf definition)
    {built entries : Entries β} {definitions : List α} (distinct : built.keys.Nodup)
    (h : addFields read built definitions = .ok entries) :
    entries.keys = built.keys ++ definitions.map nameOf ∧ entries.keys.Nodup := by
  induction definitions generalizing built with
  | nil =>
    cases h
    exact ⟨(List.append_nil _).symm, distinct⟩
  | cons definition rest ih =>
    unfold addFields at h
    obtain ⟨added, hread, h⟩ := Except.bind_eq_ok_iff.mp h
    split at h
    · cases h
    · rename_i hfresh
      have hkeys : Entries.keys (built ++ [added]) = built.keys ++ [nameOf definition] := by
        rw [Entries.keys_append, ← named definition added hread]
        rfl
      have hgrown : (Entries.keys (built ++ [added])).Nodup := by
        rw [hkeys, ← named definition added hread]
        simpa using List.Nodup.concat (mt Entries.has_iff.mpr hfresh) distinct
      obtain ⟨heq, hnodup⟩ := ih hgrown h
      exact ⟨by rw [heq, hkeys, List.append_assoc]; rfl, hnodup⟩

theorem exists_of_mem_typesOf {definitions : List Definition} {types : Entries TypeShape}
    (h : typesOf resolvers scalars hasMutation definitions = .ok types) (hmem : (name, shape) ∈ types) :
    ∃ definition, definition.name = name ∧
      shapeOf resolvers scalars hasMutation definition = .ok (some shape) := by
  induction definitions generalizing types with
  | nil =>
    cases h
    cases hmem
  | cons definition rest ih =>
    obtain ⟨first, hfirst, h⟩ := Except.bind_eq_ok_iff.mp h
    obtain ⟨others, hothers, h⟩ := Except.bind_eq_ok_iff.mp h
    cases h
    rcases List.mem_append.mp hmem with hmem | hmem
    · cases first with
      | none => cases hmem
      | some found =>
        cases List.mem_singleton.mp hmem
        exact ⟨definition, rfl, hfirst⟩
    · exact ih hothers hmem

theorem exists_shapeOf_of_typesOf {definitions : List Definition} {types : Entries TypeShape}
    (h : typesOf resolvers scalars hasMutation definitions = .ok types) :
    ∀ definition ∈ definitions, ∃ shape?,
      shapeOf resolvers scalars hasMutation definition = .ok shape? := by
  induction definitions generalizing types with
  | nil => exact fun _ h ↦ nomatch h
  | cons definition rest ih =>
    obtain ⟨first, hfirst, h⟩ := Except.bind_eq_ok_iff.mp h
    obtain ⟨others, hothers, h⟩ := Except.bind_eq_ok_iff.mp h
    exact List.forall_mem_cons.mpr ⟨⟨first, hfirst⟩, ih hothers⟩

/-- A type of a mounted schema is a standard scalar or comes from a definition. -/
theorem exists_of_mount (mounted : mount document resolvers scalars = .ok schema)
    (h : schema.type? name = some shape) :
    shape = .standard ∨ ∃ hasMutation definition, definition.name = name ∧
      shapeOf resolvers scalars hasMutation definition = .ok (some shape) := by
  obtain ⟨types, htypes, h'⟩ := Except.bind_eq_ok_iff.mp mounted
  dsimp only at h'
  split at h'
  · cases h'
    rcases List.mem_append.mp (Entries.mem_of_get? h) with hmem | hmem
    · obtain ⟨standard, -, heq⟩ := List.mem_map.mp hmem
      cases heq
      exact .inl rfl
    · obtain ⟨definition, hdefinition⟩ := exists_of_mem_typesOf htypes (List.mem_filter.mp hmem).1
      exact .inr ⟨_, definition, hdefinition⟩
  · cases h'

/-- A field of a root type does not take its value off a parent. -/
theorem readsParent_of_rootShape {kind : OperationKind} {definitions : List FieldDefinition}
    {fields : Entries ExecutableField} (h : rootShape resolvers kind definitions = .ok (.object fields)) :
    ∀ entry ∈ fields, entry.2.source.readsParent = false := by
  unfold rootShape at h
  dsimp only at h
  split at h
  · cases h
    exact List.forall_mem_singleton.mpr rfl
  · obtain ⟨found, hfields, h⟩ := Except.bind_eq_ok_iff.mp h
    cases h
    intro entry hmem
    obtain hbuilt | ⟨⟨source, definition⟩, hserved, hentry⟩ := mem_addFields hfields hmem
    · cases hbuilt
    obtain ⟨served, -, hsource⟩ := List.mem_filterMap.mp hserved
    obtain ⟨found, hfound, heq⟩ := Option.map_eq_some_iff.mp hsource
    cases heq
    have hread : source.readsParent = false := by
      unfold rootSource? at hfound
      cases kind with
      | query =>
        obtain ⟨resolver, -, rfl⟩ := Option.map_eq_some_iff.mp hfound
        rfl
      | mutation =>
        obtain ⟨resolver, -, rfl⟩ := Option.map_eq_some_iff.mp hfound
        rfl
    obtain ⟨type, -, hentry⟩ := Except.bind_eq_ok_iff.mp hentry
    obtain ⟨arguments, -, hentry⟩ := Except.bind_eq_ok_iff.mp hentry
    cases hentry
    exact hread

theorem readsParent_of_shapeOf {definition : Definition} {fields : Entries ExecutableField}
    (hroot : definition.name = queryRoot ∨ definition.name = mutationRoot)
    (h : shapeOf resolvers scalars hasMutation definition = .ok (some (.object fields))) :
    ∀ entry ∈ fields, entry.2.source.readsParent = false := by
  have ofRoot {kind : OperationKind}
      (h : (do return some (← rootShape resolvers kind definition.fields)) =
        (.ok (some (.object fields)) : Except CompileError (Option TypeShape))) :
      ∀ entry ∈ fields, entry.2.source.readsParent = false := by
    obtain ⟨root, hshape, h⟩ := Except.bind_eq_ok_iff.mp h
    cases h
    exact readsParent_of_rootShape hshape
  unfold shapeOf at h
  split at h
  -- An object type: a root, or any other.
  case h_6 =>
    split at h
    · exact ofRoot h
    · split at h
      · split at h
        · exact ofRoot h
        · cases h
      · rename_i hquery hmutation
        rw [beq_iff_eq] at hquery hmutation
        exact absurd hroot (not_or.mpr ⟨hquery, hmutation⟩)
  -- An input type.
  case h_5 =>
    obtain ⟨inputs, -, h⟩ := Except.bind_eq_ok_iff.mp h
    cases h
  all_goals cases h

/-- A field of a root type of a mounted schema does not take its value off a parent. -/
theorem readsParent_of_mount (mounted : mount document resolvers scalars = .ok schema) {root : String}
    (hroot : root = queryRoot ∨ root = mutationRoot) {field : ExecutableField}
    (h : schema.field? root name = some field) : field.source.readsParent = false := by
  obtain ⟨shape, hshape, hfield⟩ := Option.bind_eq_some_iff.mp h
  obtain rfl | ⟨hasMutation, definition, rfl, hdefinition⟩ := exists_of_mount mounted hshape
  · cases hfield
  · cases shape with
    | object fields => exact readsParent_of_shapeOf hroot hdefinition _ (Entries.mem_of_get? hfield)
    | _ => cases hfield

/-! ## Repeated fields -/

/-- A definition of an input, or of an object other than the roots, is mounted with all its fields. -/
def IsMountedWhole (definition : Definition) : Prop :=
  definition.kind = .inputObject ∨
    definition.kind = .object ∧ definition.name ≠ queryRoot ∧ definition.name ≠ mutationRoot

theorem nodup_of_addFields {α : Type}
    {read : FieldDefinition → Except CompileError (String × α)} {fields : List FieldDefinition}
    {entries : Entries α}
    (named : ∀ definition entry, read definition = .ok entry → entry.1 = definition.name)
    (h : addFields read [] fields = .ok entries) : (fields.map (·.name)).Nodup := by
  have hnil : (Entries.keys ([] : Entries α)).Nodup := List.nodup_nil
  obtain ⟨hkeys, hnodup⟩ := keys_addFields named hnil h
  rwa [hkeys] at hnodup

theorem nodup_of_shapeOf {definition : Definition} {shape? : Option TypeShape}
    (whole : IsMountedWhole definition)
    (h : shapeOf resolvers scalars hasMutation definition = .ok shape?) :
    (definition.fields.map (·.name)).Nodup := by
  unfold shapeOf at h
  rcases whole with hkind | ⟨hkind, hquery, hmutation⟩
  · simp only [hkind] at h
    obtain ⟨inputs, hinputs, -⟩ := Except.bind_eq_ok_iff.mp h
    refine nodup_of_addFields (fun field entry hread ↦ ?_) hinputs
    obtain ⟨type, -, hentry⟩ := Except.bind_eq_ok_iff.mp hread
    cases hentry
    rfl
  · simp only [hkind, beq_iff_eq, hquery, hmutation, if_false] at h
    obtain ⟨shape, hshape, -⟩ := Except.bind_eq_ok_iff.mp h
    obtain ⟨fields, hfields, -⟩ := Except.bind_eq_ok_iff.mp hshape
    refine nodup_of_addFields (fun definition entry hread ↦ ?_) hfields
    obtain ⟨type, -, hread⟩ := Except.bind_eq_ok_iff.mp hread
    obtain ⟨arguments, -, hentry⟩ := Except.bind_eq_ok_iff.mp hread
    cases hentry
    rfl

/-- A document is not mounted if merging leaves two fields of one name in a type that is mounted whole. -/
theorem nodup_of_mount (mounted : mount document resolvers scalars = .ok schema)
    {definition : Definition} (hmem : definition ∈ document.merge)
    (whole : IsMountedWhole definition) : (definition.fields.map (·.name)).Nodup := by
  obtain ⟨types, htypes, -⟩ := Except.bind_eq_ok_iff.mp mounted
  have hmountable : definition ∈ mountable document := by
    unfold mountable
    dsimp only
    split
    · exact hmem
    · exact List.mem_append_left _ hmem
  obtain ⟨shape, hshape⟩ := exists_shapeOf_of_typesOf htypes definition hmountable
  exact nodup_of_shapeOf whole hshape

end ExecutableSchema

end ResourceApi

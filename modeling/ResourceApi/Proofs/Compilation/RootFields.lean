import ResourceApi.Proofs.Compilation.Names
import ResourceApi.Proofs.Compilation.Resolvers
import ResourceApi.Proofs.Document.Merge

/-!
# Root fields and their resolvers

A root field of the merged document is the first of its name over all resources, and it is resolved by the
first resource that has its name.  Within a resource, though, the document keeps the first of several
operations with one name and the resolvers keep the last.  So every root field runs its own operation
when no resource gives one name to two operations of a kind; operations of different resources may share
a name.
-/

namespace ResourceApi

/-- If no two elements have the same key, then the last one with a key is the first one. -/
theorem getLast?_filter_of_nodup {α β : Type} [DecidableEq β] {f : α → β} {xs : List α}
    (distinct : (xs.map f).Nodup) (key : β) :
    (xs.filter fun x ↦ f x = key).getLast? = xs.find? fun x ↦ f x = key := by
  induction xs with
  | nil => rfl
  | cons x rest ih =>
    obtain ⟨hfresh, hrest⟩ := List.nodup_cons.mp distinct
    by_cases hx : f x = key
    · have hnone : (rest.filter fun x ↦ f x = key) = [] := by
        rw [List.filter_eq_nil_iff]
        intro y hy hkey
        exact hfresh (List.mem_map.mpr ⟨y, hy, (of_decide_eq_true hkey).trans hx.symm⟩)
      simp [hx, hnone]
    · simp [hx, ih hrest]

/-- Two searches that have results at the same elements end at the same one. -/
theorem exists_of_findSome? {α β γ δ : Type} {search : α → Option γ} {f : α → Option β}
    {g : α → β → γ} {xs : List α} (same : ∀ x ∈ xs, search x = (f x).map (g x)) {c : γ}
    (h : xs.findSome? search = some c) (g' : α → β → δ) :
    ∃ x ∈ xs, ∃ b, f x = some b ∧ g x b = c ∧
      (xs.findSome? fun x ↦ (f x).map (g' x)) = some (g' x b) := by
  induction xs with
  | nil => cases h
  | cons x rest ih =>
    obtain ⟨hx, hrest⟩ := List.forall_mem_cons.mp same
    rw [List.findSome?_cons, hx] at h
    rw [List.findSome?_cons]
    cases hfound : f x with
    | none =>
      rw [hfound] at h
      obtain ⟨y, hy, b, hb, hg, hafter⟩ := ih hrest h
      exact ⟨y, List.mem_cons_of_mem _ hy, b, hb, hg, hafter⟩
    | some b =>
      rw [hfound] at h
      exact ⟨x, List.mem_cons_self, b, hfound, Option.some.inj h, rfl⟩

/-- No definition or extension of a root type has two fields of one name. -/
def TypeDocument.RootsDistinct (document : TypeDocument) : Prop :=
  ∀ definition ∈ document, ∀ kind : OperationKind, definition.name = kind.rootType →
    (definition.fields.map (·.name)).Nodup

instance (document : TypeDocument) : Decidable document.RootsDistinct :=
  decidable_of_iff (∀ definition ∈ document, ∀ kind ∈ [OperationKind.query, .mutation],
      definition.name = kind.rootType → (definition.fields.map (·.name)).Nodup)
    ⟨fun h definition hmem kind ↦ h definition hmem kind (by cases kind <;> decide),
      fun h definition hmem kind _ ↦ h definition hmem kind⟩

namespace Compiler

variable {compiler : Compiler} {schemas : List ResourceSchema} {compiled : CompiledSchema}
  {stages : List Stage} {stage : Stage}

/-- The root fields of a run are the operations of its stages, in their order. -/
theorem Ran.fieldsOf_rootType (ran : compiler.Ran schemas [] compiled stages)
    (kind : OperationKind) : compiled.document.fieldsOf kind.rootType = stages.flatMap fun stage ↦
      (stage.served kind).map (TypeDocument.ofSignature ∘ stage.names.signature) := by
  rw [ran.document, fieldsOf_document _ _ (TypeDocument.not_isShared_rootType kind),
    show TypeDocument.fieldsOf [] kind.rootType = [] from rfl, List.nil_append]
  refine List.flatMap_congr fun stage hstage ↦ ?_
  rw [(modeled_stages ran.staged stage hstage).fieldsOf_document, stage.ofKind_operations,
    List.map_map]

/-- No two operations of a kind that a stage serves share a field name. -/
theorem Ran.nodup_fieldNames {initial : TypeDocument}
    (ran : compiler.Ran schemas initial compiled stages)
    (distinct : compiled.document.RootsDistinct) (hstage : stage ∈ stages) (kind : OperationKind) :
    ((stage.served kind).map stage.fieldName).Nodup := by
  by_cases hserved : stage.served kind = []
  · rw [hserved]
    exact List.nodup_nil
  · obtain ⟨definition, hmem, hname, -, hfields⟩ := ran.exists_rootExtension hstage hserved
    have hnodup := distinct definition hmem kind hname
    rwa [hfields, List.map_map] at hnodup

/-- Every root field of the merged document runs its own operation: there are a resource and an
operation whose signature is the field, with its arguments and its type, and these are what the field is
resolved with.  The condition is on the single extensions of the root types, so it is about names within
one resource only. -/
theorem compileAll_root_fields (compiler : Compiler) (schemas : List ResourceSchema)
    (compiled : CompiledSchema) (h : compiler.compileAll schemas [] = .ok compiled)
    (distinct : compiled.document.RootsDistinct) (kind : OperationKind) (definition : Definition)
    (hdefinition : definition ∈ compiled.document.merge) (hroot : definition.name = kind.rootType)
    (field : FieldDefinition) (hfield : field ∈ definition.fields) :
    ∃ schema ∈ schemas, ∃ operation : Operation, operation.kind = kind ∧
      field = TypeDocument.ofSignature (schema.names.signature operation) ∧
      compiled.resolvers.served? kind field.name = some (schema.resource, operation) := by
  obtain ⟨stages, ran⟩ := exists_ran h
  have hmerged := TypeDocument.mergedAt_merge fun definition hmem hname ↦
    distinct definition hmem kind hname
  have hfirst := (hmerged.fields definition hdefinition hroot field).mp hfield
  rw [ran.fieldsOf_rootType, List.find?_flatMap] at hfirst
  -- within each stage the first operation of the name, which the document has, is the last one, which
  -- the resolvers have
  have hlast : ∀ stage ∈ stages, ((stage.served kind).map
      (TypeDocument.ofSignature ∘ stage.names.signature)).find? (·.name == field.name) =
        ((stage.served kind).filter fun operation ↦
          stage.fieldName operation = field.name).getLast?.map
            (TypeDocument.ofSignature ∘ stage.names.signature) := by
    intro stage hstage
    rw [getLast?_filter_of_nodup (ran.nodup_fieldNames distinct hstage kind), List.find?_map]
    rfl
  obtain ⟨stage, hstage, operation, hoperation, hfield, hserved⟩ :=
    exists_of_findSome? hlast hfirst fun stage operation ↦ (stage.schema.resource, operation)
  have hmem := List.mem_filter.mp (List.mem_of_getLast? hoperation)
  refine ⟨stage.schema, ran.schema_mem hstage, operation, Operation.kind_of_mem_served hmem.1,
    hfield.symm, ?_⟩
  rw [ran.served?_resolvers]
  exact hserved

/-- A resource gives one name to creation and to update.  The root field takes the data of a creation,
but what runs for it is the update. -/
theorem compileAll_root_fields_renamed :
    let user : ResourceSchema := ⟨"User", ⟨none, [("name", .primitive "String")], []⟩,
      [("createUser", "save"), ("updateUser", "save")], [], none⟩
    ∃ compiled definition field, compileAll ⟨.full, ⟨[]⟩⟩ [user] [] = .ok compiled ∧
      definition ∈ compiled.document.merge ∧ definition.name = OperationKind.mutation.rootType ∧
      field ∈ definition.fields ∧
      ∀ schema ∈ [user], ∀ operation : Operation,
        field = TypeDocument.ofSignature (schema.names.signature operation) →
          compiled.resolvers.served? .mutation field.name ≠ some (schema.resource, operation) := by
  intro user
  obtain ⟨compiled, hcompiled, hchecks⟩ :
      ∃ compiled, compileAll ⟨.full, ⟨[]⟩⟩ [user] [] = .ok compiled ∧
        ((compiled.document.merge.any fun definition ↦
          definition.name == OperationKind.mutation.rootType && definition.fields.contains
            (TypeDocument.ofSignature (user.names.signature (.mutation .create .single)))) &&
          compiled.resolvers.served? .mutation "save" ==
            some ("User", .mutation .update .single)) = true :=
    Except.exists_of_passes (by decide +kernel)
  simp only [Bool.and_eq_true, List.any_eq_true, beq_iff_eq, List.contains_iff_mem] at hchecks
  obtain ⟨⟨definition, hdefinition, hname, hfield⟩, hserved⟩ := hchecks
  refine ⟨compiled, definition, _, hcompiled, hdefinition, hname, hfield, ?_⟩
  intro schema hschema operation hsignature hrun
  obtain rfl := List.mem_singleton.mp hschema
  obtain ⟨-, rfl⟩ := Prod.mk.inj (Option.some.inj (hserved.symm.trans hrun))
  exact absurd hsignature (by decide +kernel)

/-- Posts and users whose creation is called a registration. -/
theorem compileAll_root_fields_users :
    let post : ResourceSchema := ⟨"Post", ⟨none, [("title", .primitive "String")], []⟩, [], [], none⟩
    let user : ResourceSchema := ⟨"User", ⟨none, [("name", .primitive "String")], []⟩,
      [("createUser", "registerUser")], [], none⟩
    let mutations : GenerationConfig := ⟨fun leaf ↦ leaf matches .object .own | .input _ | .mutation ..⟩
    ∃ compiled, compileAll ⟨mutations, ⟨[]⟩⟩ [post, user] [] = .ok compiled ∧
      compiled.document.RootsDistinct ∧
      ∃ definition ∈ compiled.document.merge, definition.name = OperationKind.mutation.rootType ∧
        ∀ field ∈ definition.fields, ∃ schema ∈ [post, user], ∃ operation : Operation,
          operation.kind = .mutation ∧
            field = TypeDocument.ofSignature (schema.names.signature operation) ∧
            compiled.resolvers.served? .mutation field.name = some (schema.resource, operation) := by
  intro post user mutations
  obtain ⟨compiled, hcompiled, hchecks⟩ :
      ∃ compiled, compileAll ⟨mutations, ⟨[]⟩⟩ [post, user] [] = .ok compiled ∧
        (decide compiled.document.RootsDistinct && compiled.document.merge.any fun definition ↦
          definition.name == OperationKind.mutation.rootType) = true :=
    Except.exists_of_passes (by decide +kernel)
  simp only [Bool.and_eq_true, decide_eq_true_iff, List.any_eq_true, beq_iff_eq] at hchecks
  obtain ⟨hdistinct, definition, hdefinition, hname⟩ := hchecks
  exact ⟨compiled, hcompiled, hdistinct, definition, hdefinition, hname, fun field hfield ↦
    compileAll_root_fields _ _ compiled hcompiled hdistinct .mutation definition hdefinition hname
      field hfield⟩

end Compiler
end ResourceApi

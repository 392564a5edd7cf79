import ResourceApi.Proofs.Compilation.Resolvers
import ResourceApi.Proofs.Document.Order

/-!
# Models in another order

The stage of a model takes nothing of the other models but the names of their types, to tell which
references lead somewhere, and completion asks only which names are referred to and defined.  So runs
over the same models in different orders have the same stages and add the same shared definitions; they
differ in the order of the resources, and in the one that defines the root types.
-/

namespace ResourceApi

theorem flatMap_ite {α β : Type} (p : α → Prop) [DecidablePred p] (f : α → List β) (xs : List α) :
    (xs.flatMap fun x ↦ if p x then f x else []) = (xs.filter (p ·)).flatMap f := by
  induction xs with
  | nil => rfl
  | cons first rest ih => by_cases h : p first <;> simp [h, ih]

/-! ## Stages -/

namespace Stage

variable {known known' : List String} {stage : Stage}

theorem retarget_congr (same : ∀ name, name ∈ known ↔ name ∈ known') :
    retarget known = retarget known' := by
  have hfields : retargetField known = retargetField known' := by
    funext field
    have hknown : known.contains field.typeName = known'.contains field.typeName := by
      rw [Bool.eq_iff_iff, List.contains_iff_mem, List.contains_iff_mem]
      exact same field.typeName
    unfold retargetField
    rw [hknown]
  unfold retarget
  rw [hfields]

/-- Everything that a stage contributes to the document is tagged with its resource. -/
theorem resource_of_mem_document {definition : Definition} (h : definition ∈ stage.document) :
    definition.resource = some stage.graph.resource := by
  unfold document TypeDocument.ofResource at h
  simp only [List.mem_append, List.mem_map] at h
  have hroot : ∀ {kind signatures},
      definition ∈ TypeDocument.rootExtension stage.graph.resource kind signatures →
        definition.resource = some stage.graph.resource := by
    intro kind signatures hmem
    unfold TypeDocument.rootExtension at hmem
    split at hmem
    · cases hmem
    · rw [List.mem_singleton.mp hmem]
  rcases h with ((⟨node, -, rfl⟩ | ⟨page, -, rfl⟩) | hquery) | hmutation
  · rfl
  · rfl
  · exact hroot hquery
  · exact hroot hmutation

end Stage

/-! ## Runs -/

/-- What two runs over the same models in different orders have in common. -/
structure SameUpToOrder (initial : TypeDocument) (compiled compiled' : CompiledSchema) : Prop where
  kept : initial.Keeps compiled.document
  kept' : initial.Keeps compiled'.document
  owned : ∀ resource, (compiled.document.forResource resource).map Definition.rootDefined =
    (compiled'.document.forResource resource).map Definition.rootDefined
  resolvers : ∀ resource, compiled.resolvers.get? resource = compiled'.resolvers.get? resource
  shared : ((compiled.document.drop initial.length).filter (·.resource.isNone)).Perm
    ((compiled'.document.drop initial.length).filter (·.resource.isNone))

namespace Compiler

variable {compiler : Compiler} {schemas schemas' : List ResourceSchema} {initial : TypeDocument}
  {stage : Stage} {stages stages' : List Stage}
  {compiled compiled' : CompiledSchema}

theorem checkSchemas_perm (perm : schemas.Perm schemas') :
    checkSchemas schemas = .ok () ↔ checkSchemas schemas' = .ok () := by
  have hempty : schemas = [] ↔ schemas' = [] := by
    rw [← List.length_eq_zero_iff, perm.length_eq, List.length_eq_zero_iff]
  simp only [checkSchemas_eq_ok_iff, ne_eq, hempty, perm.mem_iff, (perm.map (·.resource)).nodup_iff]

theorem mem_knownTypes_perm (perm : stages.Perm stages') (name : String) :
    name ∈ Stage.knownTypes initial stages ↔ name ∈ Stage.knownTypes initial stages' := by
  simp only [Stage.knownTypes, List.mem_append, List.mem_flatMap, perm.mem_iff]

/-- In another order the models have the same stages, in that order. -/
theorem exists_stages_of_perm (perm : schemas.Perm schemas')
    (h : compiler.stages initial schemas = .ok stages) :
    ∃ stages', compiler.stages initial schemas' = .ok stages' ∧ stages.Perm stages' := by
  obtain ⟨drafts, hdrafts, h⟩ := Except.bind_eq_ok_iff.mp h
  cases h
  obtain ⟨drafts', hdrafts', hperm⟩ := Except.exists_mapM_of_perm perm hdrafts
  refine ⟨_, Except.bind_eq_ok_iff.mpr ⟨drafts', hdrafts', rfl⟩, ?_⟩
  rw [Stage.retarget_congr (mem_knownTypes_perm hperm)]
  exact hperm.map _

theorem compileAll_succeeds_iff :
    (∃ compiled, compiler.compileAll schemas initial = .ok compiled) ↔
      checkSchemas schemas = .ok () ∧ ∃ stages, compiler.stages initial schemas = .ok stages := by
  constructor
  · rintro ⟨compiled, h⟩
    obtain ⟨stages, ran⟩ := exists_ran h
    exact ⟨ran.checked, stages, ran.staged⟩
  · rintro ⟨hchecked, stages, hstages⟩
    unfold compileAll
    rw [hchecked, hstages]
    exact ⟨_, rfl⟩

namespace Ran

variable (ran : compiler.Ran schemas initial compiled stages)
include ran

theorem keeps_initial : initial.Keeps compiled.document := by
  rw [ran.document]
  exact (TypeDocument.keeps_complete _ _).of_append

/-- The stages contribute to a resource the document of its stage. -/
theorem forResource_stages (resource : String) :
    TypeDocument.forResource (stages.flatMap Stage.document) resource =
      (stages.filter (·.schema.resource = resource)).flatMap Stage.document := by
  have hstage : ∀ stage ∈ stages, stage.document.forResource resource =
      if stage.schema.resource = resource then stage.document else [] := by
    intro stage hstage
    unfold TypeDocument.forResource
    have howned : ∀ definition ∈ stage.document,
        definition.resource = some stage.schema.resource := fun definition hmem ↦ by
      rw [Stage.resource_of_mem_document hmem, resource_graph ran.staged hstage]
    split
    · rename_i hsame
      refine List.filter_eq_self.mpr fun definition hmem ↦ ?_
      rw [howned definition hmem, hsame, beq_self_eq_true]
    · rename_i hother
      refine List.filter_eq_nil_iff.mpr fun definition hmem ↦ ?_
      rw [howned definition hmem]
      simpa using hother
  unfold TypeDocument.forResource at hstage ⊢
  rw [List.filter_flatMap, List.flatMap_congr hstage, flatMap_ite]

/-- Up to root types, the definitions of a resource are those of the initial document and of its
stage. -/
theorem forResource_document (resource : String) :
    (compiled.document.forResource resource).map Definition.rootDefined =
      (initial.forResource resource ++ (stages.filter
        (·.schema.resource = resource)).flatMap Stage.document).map Definition.rootDefined := by
  rw [ran.document, Compiler.document, TypeDocument.forResource_complete, ← ran.forResource_stages]
  unfold TypeDocument.forResource
  rw [List.filter_append]

/-- The shared definitions that are added are those that the document asks for. -/
theorem shared_document : (compiled.document.drop initial.length).filter (·.resource.isNone) =
    (initial ++ stages.flatMap Stage.document).supportDefinitions compiler.scalars := by
  rw [ran.document]
  refine TypeDocument.shared_complete initial _ compiler.scalars fun definition hmem ↦ ?_
  obtain ⟨stage, -, hdefinition⟩ := List.mem_flatMap.mp hmem
  rw [Stage.resource_of_mem_document hdefinition]
  exact Option.some_ne_none _

theorem filter_resource_eq (perm : stages.Perm stages') (resource : String) :
    (stages.filter fun stage ↦ stage.schema.resource = resource) =
      stages'.filter fun stage ↦ stage.schema.resource = resource := by
  have hsame : ∀ first second : Stage,
      first ∈ stages.filter (fun stage ↦ stage.schema.resource = resource) →
        second ∈ stages'.filter (fun stage ↦ stage.schema.resource = resource) → True → True →
          first = second := by
    intro first second hfirst hsecond _ _
    simp only [List.mem_filter, decide_eq_true_eq] at hfirst hsecond
    exact ran.eq_of_resource hfirst.1 (perm.mem_iff.mpr hsecond.1)
      (hfirst.2.trans hsecond.2.symm)
  have htrivial : ∀ list : List Stage, list.Pairwise fun _ _ ↦ True :=
    fun list ↦ List.pairwise_of_forall fun _ _ ↦ trivial
  exact List.Perm.eq_of_pairwise hsame (htrivial _) (htrivial _) (perm.filter _)

end Ran

/-- In whatever order the models of a run stand, it succeeds or fails, and its results are the same up to
the order of the resources: the initial document comes first, the definitions and the resolvers of each
resource are the same, and so are the shared definitions. -/
theorem compileAll_perm (compiler : Compiler) (initial : TypeDocument)
    (schemas schemas' : List ResourceSchema) (perm : schemas.Perm schemas') :
    ((∃ compiled, compiler.compileAll schemas initial = .ok compiled) ↔
      ∃ compiled', compiler.compileAll schemas' initial = .ok compiled') ∧
    ∀ compiled compiled', compiler.compileAll schemas initial = .ok compiled →
      compiler.compileAll schemas' initial = .ok compiled' →
        SameUpToOrder initial compiled compiled' := by
  constructor
  · rw [compileAll_succeeds_iff, compileAll_succeeds_iff, checkSchemas_perm perm]
    refine and_congr_right fun _ ↦ ⟨fun ⟨stages, hstages⟩ ↦ ?_, fun ⟨stages, hstages⟩ ↦ ?_⟩
    · obtain ⟨stages', hstages', -⟩ := exists_stages_of_perm perm hstages
      exact ⟨stages', hstages'⟩
    · obtain ⟨stages', hstages', -⟩ := exists_stages_of_perm perm.symm hstages
      exact ⟨stages', hstages'⟩
  · intro compiled compiled' h h'
    obtain ⟨stages, ran⟩ := exists_ran h
    obtain ⟨stages', ran'⟩ := exists_ran h'
    have hperm : stages.Perm stages' := by
      obtain ⟨others, hothers, hperm⟩ := exists_stages_of_perm perm ran.staged
      rwa [Except.ok.inj (hothers.symm.trans ran'.staged)] at hperm
    have hmem : ∀ definition, definition ∈ initial ++ stages.flatMap Stage.document ↔
        definition ∈ initial ++ stages'.flatMap Stage.document := fun definition ↦
      ((hperm.flatMap_right Stage.document).append_left initial).mem_iff
    refine ⟨ran.keeps_initial, ran'.keeps_initial, fun resource ↦ ?_, fun resource ↦ ?_, ?_⟩
    · rw [ran.forResource_document, ran'.forResource_document, ran.filter_resource_eq hperm]
    · refine Option.ext fun resolvers ↦ ?_
      rw [ran.get?_resolvers, ran'.get?_resolvers]
      simp only [hperm.mem_iff]
    · rw [ran.shared_document, ran'.shared_document]
      exact TypeDocument.perm_supportDefinitions
        (fun name ↦ exists_congr fun definition ↦ and_congr_left fun _ ↦ hmem definition)
        (fun name ↦ exists_congr fun definition ↦ and_congr_left fun _ ↦ hmem definition) _

/-- Posts refer to users, and the initial document extends the mutations.  The extension becomes the
definition in both orders. -/
theorem compileAll_perm_users :
    let author : FieldAttributes := ⟨none, none, some "User", none, none, false, none, none, .null⟩
    let post : ResourceSchema := ⟨"Post", ⟨none, [("author", .attributes author)], []⟩, [], [], none⟩
    let user : ResourceSchema := ⟨"User", ⟨none, [("name", .primitive "String")], []⟩, [], [], none⟩
    let mutations : GenerationConfig := ⟨fun leaf ↦ leaf matches .object .own | .input _ | .mutation ..⟩
    let initial : TypeDocument := [{ Definition.new "Mutation" .object with
      extending := true, fields := [.new "ping" "Boolean"] }]
    ∃ compiled compiled', compileAll ⟨mutations, ⟨[]⟩⟩ [post, user] initial = .ok compiled ∧
      compileAll ⟨mutations, ⟨[]⟩⟩ [user, post] initial = .ok compiled' ∧
      compiled.document ≠ compiled'.document ∧ SameUpToOrder initial compiled compiled' := by
  intro author post user mutations initial
  obtain ⟨compiled, hcompiled, hfirst⟩ :
      ∃ compiled, compileAll ⟨mutations, ⟨[]⟩⟩ [post, user] initial = .ok compiled ∧
        (compiled.document[1]?.map (·.name) == some "SelfPostObject") = true :=
    Except.exists_of_passes (by decide +kernel)
  have hperm : [post, user].Perm [user, post] := .swap user post []
  obtain ⟨-, hsame⟩ := compileAll_perm ⟨mutations, ⟨[]⟩⟩ initial _ _ hperm
  obtain ⟨compiled', hcompiled', hfirst'⟩ :
      ∃ compiled, compileAll ⟨mutations, ⟨[]⟩⟩ [user, post] initial = .ok compiled ∧
        (compiled.document[1]?.map (·.name) == some "SelfUserObject") = true :=
    Except.exists_of_passes (by decide +kernel)
  refine ⟨compiled, compiled', hcompiled, hcompiled', fun heq ↦ ?_,
    hsame compiled compiled' hcompiled hcompiled'⟩
  rw [heq, beq_iff_eq.mp hfirst'] at hfirst
  revert hfirst
  decide

end Compiler
end ResourceApi

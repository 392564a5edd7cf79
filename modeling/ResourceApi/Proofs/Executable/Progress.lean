import ResourceApi.Executable.Execution
import ResourceApi.Proofs.Resolver.Reports

/-!
# Progress of a run

While a request is run, errors are only added, and a store of objects stays one.  Both are kept by every
step, so they are shown once for the parts that programs are put together from, and then for completion,
for the values of fields and for selections.
-/

namespace ResourceApi.Request

variable {α β : Type}

/-- A later point of a run: errors are added, and objects are stored where objects were. -/
structure Progress.Advances (before after : Progress) : Prop where
  errors : before.errors <+: after.errors
  objects : before.store.HoldsObjects → after.store.HoldsObjects

namespace Progress

variable {before between after : Progress}

theorem Advances.refl (progress : Progress) : Advances progress progress := ⟨List.prefix_rfl, id⟩

theorem Advances.trans (h : Advances before between) (h' : Advances between after) :
    Advances before after :=
  ⟨h.errors.trans h'.errors, h'.objects ∘ h.objects⟩

theorem advances_report (progress : Progress) (errors : List ResponseError) :
    Advances progress { progress with errors := progress.errors ++ errors } :=
  ⟨List.prefix_append _ _, id⟩

end Progress

/-! ## Attempts -/

theorem run_get (before : Progress) : (get : Attempt Progress).run.run before = (.ok before, before) :=
  rfl

theorem run_set (before after : Progress) :
    (set after : Attempt PUnit).run.run before = (.ok ⟨⟩, after) :=
  rfl

/-! ## Steady programs -/

open Progress

/-- A program that only leads to later points of a run. -/
def Steady (program : StateM Progress α) : Prop := ∀ before, Advances before (program.run before).2

namespace Steady

theorem advances {program : StateM Progress α} {value : α} {before after : Progress}
    (h : Steady program) (run : program.run before = (value, after)) : Advances before after := by
  have hbefore := h before
  rwa [run] at hbefore

theorem pure (value : α) : Steady (pure value) := fun _ ↦ .refl _

theorem bind {program : StateM Progress α} {next : α → StateM Progress β} (h : Steady program)
    (hnext : ∀ value, Steady (next value)) : Steady (program >>= next) :=
  fun before ↦ (h before).trans (hnext _ _)

/-- Attempts are put together from steady ones as programs are. -/
theorem attempt {attempt : Attempt α} {next : α → Attempt β} (h : Steady attempt.run)
    (hnext : ∀ value, Steady (next value).run) : Steady (attempt >>= next).run := by
  rw [ExceptT.run_bind]
  refine h.bind fun result ↦ ?_
  cases result with
  | ok value => exact hnext value
  | error fault => exact pure _

theorem mapM {step : α → Attempt β} (h : ∀ item, Steady (step item).run) (items : List α) :
    Steady (items.mapM step).run := by
  induction items with
  | nil => exact pure _
  | cons item rest ih =>
    rw [List.mapM_cons]
    exact (h item).attempt fun first ↦ ih.attempt fun others ↦ pure _

end Steady

theorem advances_bind (attempt : Attempt α) {next : α → Attempt β} (h : ∀ value, Steady (next value).run)
    (before : Progress) :
    Advances (attempt.run.run before).2 ((attempt >>= next).run.run before).2 := by
  rw [ExceptT.run_run_bind]
  cases hrun : attempt.run.run before with
  | mk result between =>
    cases result with
    | ok value => exact h value between
    | error fault => exact .refl between

/-- A list is run through past an item, once the items before it have passed. -/
theorem advances_mapM {step : α → Attempt β} (h : ∀ item, Steady (step item).run) {front : List α}
    {done : List β} {before between : Progress}
    (completed : (front.mapM step).run.run before = (.ok done, between)) (item : α) (rest : List α) :
    Advances ((step item).run.run between).2 (((front ++ item :: rest).mapM step).run.run before).2 := by
  rw [List.mapM_append, ExceptT.run_run_bind, completed]
  refine Advances.trans ?_ (advances_bind _ (fun _ ↦ Steady.pure _) between)
  rw [List.mapM_cons]
  exact advances_bind _ (fun _ ↦ (Steady.mapM h rest).attempt fun _ ↦ Steady.pure _) between

namespace Environment

variable {env : Environment} {named : Json → Attempt Json}

/-! ## Completion -/

theorem steady_completePresent (h : ∀ value, Steady (named value).run) (type : TypeRef) (value : Json) :
    Steady (completePresent named type value).run := by
  induction type generalizing value with
  | named name nullable => exact h value
  | list item nullable ih =>
    cases value with
    | arr items => exact (Steady.mapM ih items).attempt fun _ ↦ Steady.pure _
    | _ => exact Steady.pure _

theorem steady_complete (h : ∀ value, Steady (named value).run) (type : TypeRef) (value : Json) :
    Steady (complete named type value).run := by
  unfold complete
  split
  · split <;> exact Steady.pure _
  · exact steady_completePresent h type value

theorem steady_completeNamed {object : Json → StateM Progress (Entries Json)}
    (h : ∀ value, Steady (object value)) (name : String) (value : Json) :
    Steady (env.completeNamed object name value).run := by
  unfold completeNamed
  split
  · have hfields : Steady (liftM (object value) : Attempt (Entries Json)).run :=
      (h value).bind fun _ ↦ Steady.pure _
    exact hfields.attempt fun _ ↦ Steady.pure _
  · exact Steady.pure _
  · split <;> exact Steady.pure _
  · split <;> exact Steady.pure _
  · split <;> exact Steady.pure _

/-! ## Values of fields -/

theorem run_context (before : Progress) :
    env.context.run.run before =
      match env.caller with
      | none => (.error (some .contextMissing), before)
      | some caller => (.ok ⟨caller.identity, caller.stores, before.store⟩, before) := by
  unfold context
  cases env.caller <;> rfl

theorem steady_context : Steady env.context.run := by
  intro before
  rw [run_context]
  split <;> exact .refl before

theorem steady_resolved (result : Except ResolveError Json) : Steady (resolved result).run := by
  cases result <;> exact Steady.pure _

/-- The progress after a mutation whose resolver has answered, without the failures of its items. -/
def mutated (env : Environment) (resolver : MutationResolver) (arguments : Json) (caller : Caller)
    (before : Progress) : Progress × Except ResolveError MutationOutcome :=
  let (store, result) := resolver.resolve (fun item ↦ env.freshId (before.used + item))
    ⟨caller.identity, caller.stores, before.store⟩ arguments
  let items := (resolver.items arguments).toOption.getD []
  (⟨store, before.errors, before.used + items.length⟩, result)

theorem run_mutate (resolver : MutationResolver) (arguments : Json) (before : Progress) :
    (env.mutate resolver arguments).run.run before =
      match env.caller with
      | none => (.error (some .contextMissing), before)
      | some caller =>
        match env.mutated resolver arguments caller before with
        | (next, .ok outcome) =>
          (.ok outcome.data, { next with errors := next.errors ++ outcome.errors.map .item })
        | (next, .error error) => (.error (some (.refused error)), next) := by
  unfold mutate mutated
  simp only [ExceptT.run_run_bind, run_context, run_get, run_set]
  cases env.caller with
  | none => rfl
  | some caller =>
    dsimp only
    split
    · rename_i hresult
      rw [hresult]
      rfl
    · rename_i hresult
      rw [hresult]
      rfl

theorem steady_mutate (resolver : MutationResolver) (arguments : Json) :
    Steady (env.mutate resolver arguments).run := by
  intro before
  rw [run_mutate]
  split
  · exact .refl before
  · rename_i caller _
    have hnext : Advances before (env.mutated resolver arguments caller before).1 :=
      ⟨List.prefix_rfl, fun h ↦ MutationResolver.holdsObjects_resolve h⟩
    split
    · rename_i hmutated
      rw [hmutated] at hnext
      exact hnext.trans (advances_report _ _)
    · rename_i hmutated
      rw [hmutated] at hnext
      exact hnext

theorem steady_memberOf (name : String) (parent : Json) : Steady (memberOf name parent).run := by
  cases parent <;> exact Steady.pure _

theorem steady_valueOf (source : FieldSource) (name : String) (arguments parent : Json) :
    Steady (env.valueOf source name arguments parent).run := by
  unfold valueOf
  split
  · exact steady_context.attempt fun _ ↦ steady_resolved _
  · exact steady_mutate _ _
  · split
    · exact Steady.pure _
    · exact Steady.pure _
    · exact steady_context.attempt fun _ ↦ steady_resolved _
  · exact steady_memberOf name parent
  · exact Steady.pure _

/-! ## Selections -/

theorem steady_keep (label : String) (fields : Entries Json) (outcome : Except (Option FieldFault) Json) :
    Steady (keep label fields outcome) := by
  unfold keep
  split
  · exact Steady.pure _
  · exact Steady.pure _
  · exact fun before ↦ advances_report before _

end Environment

end ResourceApi.Request

import ResourceApi.Proofs.Executable.Progress

/-!
# Fields that a run comes to

The run of a request comes to one field after another, and below the value of a field to those of the
objects in it.  A visit is such a field with the progress up to it.  It lies between the beginning and the
end of the run: the progress only advances from the one to the visit, and from there to the other.
-/

namespace ResourceApi.Request

/-- A field that a run comes to: what is selected of which parent, and the progress so far.  `fuel` is left
for the selections below it. -/
structure Visit where
  fuel : Nat
  field : ExecutableField
  name : String
  arguments : List (String × Literal)
  inner : List Selection
  parent : Json
  before : Progress

namespace Visit

variable (env : Environment) (visit : Visit)

/-- The value of the field before it is completed. -/
def value : Attempt Json :=
  env.valueOf visit.field.source visit.name (env.argumentsJson visit.arguments) visit.parent

/-- Completes a value of the named type of the field. -/
def named : Json → Attempt Json :=
  env.completeNamed (fun value ↦ env.select visit.fuel visit.field.type.name value [] visit.inner)
    visit.field.type.name

def outcome : Attempt Json := do
  Environment.complete (visit.named env) visit.field.type (← visit.value env)

/-- The field is given a value, which is then completed. -/
def Yields (value : Json) : Prop := ∃ next, (visit.value env).run.run visit.before = (.ok value, next)

/-- The field fails with a fault, or without one that is reported. -/
def Fails (fault : Option FieldFault) : Prop :=
  ∃ next, (visit.outcome env).run.run visit.before = (.error fault, next)

/-- The progress after the field: a fault is added to the errors. -/
def after : Progress :=
  match (visit.outcome env).run.run visit.before with
  | (.error (some fault), next) => { next with errors := next.errors ++ [.field fault] }
  | (_, next) => next

end Visit

namespace Environment

open Literal.Grammar (Directive)
open Progress

variable {env : Environment} {fuel : Nat} {typeName : String} {parent : Json} {fields : Entries Json}

/-! ## Selections one by one -/

theorem select_nil : env.select (fuel + 1) typeName parent fields [] = pure fields := by
  rw [select, List.foldlM_nil]

theorem select_cons (first : Selection) (rest : List Selection) :
    env.select (fuel + 1) typeName parent fields (first :: rest) =
      env.select (fuel + 1) typeName parent fields [first] >>= fun fields ↦
        env.select (fuel + 1) typeName parent fields rest := by
  simp only [select, List.foldlM_cons, List.foldlM_nil, bind_pure]

theorem select_skipped {selection : Selection} (h : env.isSkipped selection.directives = true) :
    env.select (fuel + 1) typeName parent fields [selection] = pure fields := by
  simp only [select, List.foldlM_cons, List.foldlM_nil, bind_pure, h, if_true]

theorem select_inline {on : Option String} {directives : List Directive} {inner : List Selection}
    (kept : env.isSkipped directives = false) :
    env.select (fuel + 1) typeName parent fields [.inline on directives inner] =
      if on.all (· == typeName) then env.select fuel typeName parent fields inner else pure fields := by
  simp only [select, List.foldlM_cons, List.foldlM_nil, bind_pure, Selection.directives, kept,
    Bool.false_eq_true, if_false]

theorem select_spread {name : String} {directives : List Directive} {fragment : FragmentDefinition}
    (kept : env.isSkipped directives = false) (known : env.document.fragment? name = some fragment) :
    env.select (fuel + 1) typeName parent fields [.spread name directives] =
      if fragment.on == typeName then env.select fuel typeName parent fields fragment.selections
      else pure fields := by
  simp only [select, List.foldlM_cons, List.foldlM_nil, bind_pure, Selection.directives, kept, known,
    Bool.false_eq_true, if_false]

theorem select_spread_of_none {name : String} {directives : List Directive}
    (kept : env.isSkipped directives = false) (unknown : env.document.fragment? name = none) :
    env.select (fuel + 1) typeName parent fields [.spread name directives] = pure fields := by
  simp only [select, List.foldlM_cons, List.foldlM_nil, bind_pure, Selection.directives, kept, unknown,
    Bool.false_eq_true, if_false]

section field

variable {label : Option String} {name : String} {arguments : List (String × Literal)}
  {directives : List Directive} {inner : List Selection} {field : ExecutableField}

theorem select_field (kept : env.isSkipped directives = false)
    (ordinary : (name == typeNameField) = false)
    (known : env.schema.field? typeName name = some field) (before : Progress) :
    env.select (fuel + 1) typeName parent fields [.field label name arguments directives inner] =
      (Visit.outcome env ⟨fuel, field, name, arguments, inner, parent, before⟩).run >>=
        keep (label.getD name) fields := by
  simp only [select, List.foldlM_cons, List.foldlM_nil, bind_pure, Selection.directives, kept, ordinary,
    known, Bool.false_eq_true, if_false]
  rfl

/-- The progress after a selection of a field is that after the visit of the field. -/
theorem run_select_field (kept : env.isSkipped directives = false)
    (ordinary : (name == typeNameField) = false)
    (known : env.schema.field? typeName name = some field) (before : Progress) :
    ((env.select (fuel + 1) typeName parent fields [.field label name arguments directives inner]).run
        before).2 = Visit.after env ⟨fuel, field, name, arguments, inner, parent, before⟩ := by
  rw [select_field kept ordinary known before, Visit.after, StateT.run_bind]
  generalize (Visit.outcome env ⟨fuel, field, name, arguments, inner, parent, before⟩).run.run before = run
  obtain ⟨_ | _, next⟩ := run
  · rename_i fault
    cases fault <;> rfl
  · rfl

/-- The name of the type is reported, and a field that is not known is passed over. -/
theorem exists_select_field (h : name = typeNameField ∨ env.schema.field? typeName name = none) :
    ∃ result, env.select (fuel + 1) typeName parent fields
      [.field label name arguments directives inner] = pure result := by
  simp only [select, List.foldlM_cons, List.foldlM_nil, bind_pure]
  split
  · exact ⟨_, rfl⟩
  · split
    · exact ⟨_, rfl⟩
    · rcases h with rfl | hunknown
      · contradiction
      · rw [hunknown]
        exact ⟨_, rfl⟩

end field

theorem steady_outcome (visit : Visit) (h : ∀ value, Steady (visit.named env value).run) :
    Steady (visit.outcome env).run :=
  (steady_valueOf _ _ _ _).attempt fun _ ↦ steady_complete h _ _

theorem steady_select (fuel : Nat) (typeName : String) (parent : Json) (fields : Entries Json)
    (selections : List Selection) : Steady (env.select fuel typeName parent fields selections) := by
  induction fuel generalizing typeName parent fields selections with
  | zero => exact Steady.pure _
  | succ fuel ih =>
    induction selections generalizing fields with
    | nil =>
      rw [select_nil]
      exact Steady.pure _
    | cons first rest ihRest =>
      rw [select_cons]
      refine Steady.bind ?_ ihRest
      cases hkept : env.isSkipped first.directives with
      | true =>
        rw [select_skipped hkept]
        exact Steady.pure _
      | false =>
        cases first with
        | field label name arguments directives inner =>
          change env.isSkipped directives = false at hkept
          by_cases hname : name = typeNameField
          · obtain ⟨result, hresult⟩ := exists_select_field (.inl hname)
            rw [hresult]
            exact Steady.pure _
          · cases hknown : env.schema.field? typeName name with
            | none =>
              obtain ⟨result, hresult⟩ := exists_select_field (.inr hknown)
              rw [hresult]
              exact Steady.pure _
            | some field =>
              intro before
              rw [select_field hkept (beq_false_of_ne hname) hknown before]
              refine Steady.bind (steady_outcome _ fun value ↦ ?_) (fun _ ↦ steady_keep _ _ _) before
              exact steady_completeNamed (fun value ↦ ih _ _ _ _) _ _
        | inline on directives inner =>
          change env.isSkipped directives = false at hkept
          rw [select_inline hkept]
          split
          · exact ih _ _ _ _
          · exact Steady.pure _
        | spread name directives =>
          change env.isSkipped directives = false at hkept
          cases hknown : env.document.fragment? name with
          | none =>
            rw [select_spread_of_none hkept hknown]
            exact Steady.pure _
          | some fragment =>
            rw [select_spread hkept hknown]
            split
            · exact ih _ _ _ _
            · exact Steady.pure _

/-! ## Visits -/

/-- Completing a value of a type, from a progress on, comes to a value in the place of the named type. -/
inductive Reaches (named : Json → Attempt Json) : TypeRef → Json → Progress → Json → Progress → Prop
  | here {name : String} {nullable : Bool} {value : Json} {progress : Progress} :
      Reaches named (.named name nullable) value progress value progress
  | item {item : TypeRef} {nullable : Bool} {front rest done : List Json} {value held : Json}
      {before between after : Progress}
      (completed : (front.mapM (completePresent named item)).run.run before = (.ok done, between))
      (inner : Reaches named item value between held after) :
      Reaches named (.list item nullable) (.arr (front ++ value :: rest)) before held after

/-- The run of selections on an object, from a progress on, comes to a field: at one of the selections, or
below the value of a field that it comes to. -/
inductive Visits (env : Environment) :
    Nat → String → Json → Entries Json → List Selection → Progress → Visit → Prop
  | here {fuel : Nat} {typeName name : String} {parent : Json} {fields : Entries Json}
      {label : Option String} {arguments : List (String × Literal)} {directives : List Directive}
      {inner rest : List Selection} {field : ExecutableField} {before : Progress}
      (kept : env.isSkipped directives = false) (ordinary : (name == typeNameField) = false)
      (known : env.schema.field? typeName name = some field) :
      Visits env (fuel + 1) typeName parent fields (.field label name arguments directives inner :: rest)
        before ⟨fuel, field, name, arguments, inner, parent, before⟩
  | later {fuel : Nat} {typeName : String} {parent : Json} {fields next : Entries Json}
      {first : Selection} {rest : List Selection} {before between : Progress} {visit : Visit}
      (run : (env.select (fuel + 1) typeName parent fields [first]).run before = (next, between))
      (visits : Visits env (fuel + 1) typeName parent next rest between visit) :
      Visits env (fuel + 1) typeName parent fields (first :: rest) before visit
  | inline {fuel : Nat} {typeName : String} {parent : Json} {fields : Entries Json} {on : Option String}
      {directives : List Directive} {inner rest : List Selection} {before : Progress} {visit : Visit}
      (kept : env.isSkipped directives = false) (applies : on.all (· == typeName) = true)
      (visits : Visits env fuel typeName parent fields inner before visit) :
      Visits env (fuel + 1) typeName parent fields (.inline on directives inner :: rest) before visit
  | spread {fuel : Nat} {typeName name : String} {parent : Json} {fields : Entries Json}
      {directives : List Directive} {fragment : FragmentDefinition} {rest : List Selection}
      {before : Progress} {visit : Visit} (kept : env.isSkipped directives = false)
      (known : env.document.fragment? name = some fragment) (applies : (fragment.on == typeName) = true)
      (visits : Visits env fuel typeName parent fields fragment.selections before visit) :
      Visits env (fuel + 1) typeName parent fields (.spread name directives :: rest) before visit
  | nested {fuel : Nat} {typeName : String} {parent value held : Json} {fields : Entries Json}
      {selections : List Selection} {before next between : Progress} {outer visit : Visit}
      {shape : Entries ExecutableField}
      (outside : Visits env fuel typeName parent fields selections before outer)
      (valued : (outer.value env).run.run outer.before = (.ok value, next)) (present : value ≠ .null)
      (reached : Reaches (outer.named env) outer.field.type value next held between)
      (object : env.schema.type? outer.field.type.name = some (.object shape))
      (inside : Visits env outer.fuel outer.field.type.name held [] outer.inner between visit) :
      Visits env fuel typeName parent fields selections before visit

/-! ## Progress between visits -/

variable {named : Json → Attempt Json} {type : TypeRef} {value held : Json}
  {before next between after : Progress} {visit outer : Visit} {selections : List Selection}

/-- What is in the place of the named type is completed between the beginning and the end of the
completion of the whole value. -/
theorem Reaches.advances (h : Reaches named type value before held after)
    (steady : ∀ value, Steady (named value).run) :
    Advances before after ∧
      Advances ((named held).run.run after).2 ((completePresent named type value).run.run before).2 := by
  induction h with
  | here => exact ⟨.refl _, .refl _⟩
  | @item item nullable front rest done value held before between after completed inner ih =>
    have hitem (value : Json) : Steady (completePresent named item value).run :=
      steady_completePresent steady item value
    have hfront := (Steady.mapM hitem front).advances completed
    refine ⟨hfront.trans ih.1, (ih.2.trans (advances_mapM hitem completed value rest)).trans ?_⟩
    exact advances_bind _ (fun _ ↦ Steady.pure _) before

end Environment

namespace Visit

variable {env : Environment} {visit : Visit} {value : Json} {next : Progress}

theorem advances_value (valued : (visit.value env).run.run visit.before = (.ok value, next)) :
    visit.before.Advances next :=
  (Environment.steady_valueOf _ _ _ _).advances valued

theorem run_outcome (valued : (visit.value env).run.run visit.before = (.ok value, next))
    (present : value ≠ .null) :
    (visit.outcome env).run.run visit.before =
      (Environment.completePresent (visit.named env) visit.field.type value).run.run next := by
  have hpresent : value.isNull = false := by
    cases value <;> first | rfl | contradiction
  rw [outcome, ExceptT.run_run_bind, valued]
  simp only [Environment.complete, hpresent, Bool.false_eq_true, if_false]

theorem advances_after (env : Environment) (visit : Visit) :
    ((visit.outcome env).run.run visit.before).2.Advances (visit.after env) := by
  unfold after
  obtain ⟨(_ | fault) | value, next⟩ := (visit.outcome env).run.run visit.before
  · exact .refl next
  · exact Progress.advances_report next _
  · exact .refl next

theorem steady_named : Steady (visit.named env value).run :=
  Environment.steady_completeNamed (fun _ ↦ Environment.steady_select _ _ _ _ _) _ _

end Visit

namespace Environment

variable {env : Environment} {fuel : Nat} {typeName : String} {parent : Json} {fields : Entries Json}
  {before : Progress} {visit outer : Visit} {selections : List Selection}

theorem run_select_cons {first : Selection} {rest : List Selection} {next : Entries Json}
    {between : Progress}
    (run : (env.select (fuel + 1) typeName parent fields [first]).run before = (next, between)) :
    (env.select (fuel + 1) typeName parent fields (first :: rest)).run before =
      (env.select (fuel + 1) typeName parent next rest).run between := by
  rw [select_cons, StateT.run_bind, run]
  rfl

/-- What leads to the end of the first selection leads to that of all. -/
theorem advances_select_cons {first : Selection} {rest : List Selection} {start : Progress}
    (h : start.Advances ((env.select (fuel + 1) typeName parent fields [first]).run before).2) :
    start.Advances ((env.select (fuel + 1) typeName parent fields (first :: rest)).run before).2 := by
  cases hrun : (env.select (fuel + 1) typeName parent fields [first]).run before with
  | mk next between =>
    rw [hrun] at h
    rw [run_select_cons hrun]
    exact h.trans (steady_select _ _ _ _ _ _)

theorem run_completeNamed {object : Json → StateM Progress (Entries Json)} {name : String}
    {shape : Entries ExecutableField} (h : env.schema.type? name = some (.object shape)) (value : Json) :
    ((env.completeNamed object name value).run.run before).2 = ((object value).run before).2 := by
  unfold completeNamed
  rw [h]
  rfl

/-- A visit lies between the beginning and the end of the run. -/
theorem Visits.advances (h : env.Visits fuel typeName parent fields selections before visit) :
    before.Advances visit.before ∧
      (visit.after env).Advances ((env.select fuel typeName parent fields selections).run before).2 := by
  induction h with
  | here kept ordinary known =>
    refine ⟨.refl _, advances_select_cons ?_⟩
    rw [run_select_field kept ordinary known]
    exact .refl _
  | later run visits ih =>
    have hfirst := (steady_select _ _ _ _ _).advances run
    rw [run_select_cons run]
    exact ⟨hfirst.trans ih.1, ih.2⟩
  | inline kept applies visits ih =>
    refine ⟨ih.1, advances_select_cons ?_⟩
    rw [select_inline kept, if_pos applies]
    exact ih.2
  | spread kept known applies visits ih =>
    refine ⟨ih.1, advances_select_cons ?_⟩
    rw [select_spread kept known, if_pos applies]
    exact ih.2
  | nested outside valued present reached object inside ihOutside ihInside =>
    obtain ⟨hreached, hcompleted⟩ := reached.advances fun _ ↦ Visit.steady_named
    rw [← Visit.run_outcome valued present] at hcompleted
    have hbefore := (ihOutside.1.trans (Visit.advances_value valued)).trans hreached
    have hafter := (hcompleted.trans (Visit.advances_after _ _)).trans ihOutside.2
    rw [Visit.named, run_completeNamed object] at hafter
    exact ⟨hbefore.trans ihInside.1, ihInside.2.trans hafter⟩

end Environment

end ResourceApi.Request

import Mathlib
import ResourceApi.Proofs.Executable.Mount
import ResourceApi.Proofs.Executable.Visits

/-!
# Null items

A field of an object that turns out to be null fails without an error, so that null may stand in lists of
objects.  Nothing asks whether the type of the list allows it.  What is shown here is how far this silence
goes: every other fault is among the errors of the response, a silent one is about a null or a list that
stands in the place of an object, and a null item that the type of its list does not allow comes with an
error unless the list is read off a record and holds objects or scalars.
-/

namespace ResourceApi

namespace QueryResolver

variable {resolver : QueryResolver} {context : RequestContext} {arguments filter : Json} {store : Store}
  {items records : List Json}

theorem isObject_of_shape (h : resolver.shape records = .arr items)
    (objects : ∀ record ∈ records, record.isObject = true) : ∀ item ∈ items, item.isObject = true := by
  cases h
  split
  · exact List.forall_mem_map.mpr fun _ _ ↦ rfl
  · exact objects

/-- A query that answers with a list answers with objects. -/
theorem isObject_of_resolve (objects : context.store.HoldsObjects)
    (h : resolver.resolve context arguments = .ok (.arr items)) : ∀ item ∈ items, item.isObject = true := by
  obtain ⟨filter, -, h⟩ := Except.bind_eq_ok_iff.mp h
  obtain ⟨-, -, h⟩ := Except.bind_eq_ok_iff.mp h
  unfold answer at h
  dsimp only at h
  split at h
  · cases h
  · split at h
    · generalize hfound : context.store.find _ _ _ = found at h
      cases found with
      | nil => cases h
      | cons first rest =>
        have hfirst := objects.find (hfound ▸ List.mem_cons_self : first ∈ context.store.find _ _ _)
        rw [show first = .arr items from Except.ok.inj h] at hfirst
        cases hfirst
    · obtain ⟨pagination, -, h⟩ := Except.bind_eq_ok_iff.mp h
      split at h
      · cases h
      · exact isObject_of_shape (Except.ok.inj h) fun _ ↦ objects.find
    · exact isObject_of_shape (Except.ok.inj h) fun _ ↦ objects.find
    · exact isObject_of_shape (Except.ok.inj h) fun _ ↦ objects.find

end QueryResolver

namespace Request

/-! ## Lost items -/

/-- A list of the value holds null in the place of an item whose type, which is given, is not nullable. -/
inductive Loses : TypeRef → Json → TypeRef → Prop
  | here {item : TypeRef} {nullable : Bool} {items : List Json} (mem : .null ∈ items)
      (required : item.nullable = false) : Loses (.list item nullable) (.arr items) item
  | inner {item lost : TypeRef} {nullable : Bool} {items : List Json} {value : Json} (mem : value ∈ items)
      (loses : Loses item value lost) : Loses (.list item nullable) (.arr items) lost

variable {type lost : TypeRef} {value : Json} {items : List Json}

theorem Loses.exists_items (h : Loses type value lost) :
    ∃ items, value = .arr items ∧ ∃ item ∈ items, item = .null ∨ item.isArray = true := by
  cases h with
  | here mem => exact ⟨_, rfl, .null, mem, .inl rfl⟩
  | inner mem loses =>
    cases loses with
    | here => exact ⟨_, rfl, _, mem, .inr rfl⟩
    | inner => exact ⟨_, rfl, _, mem, .inr rfl⟩

/-- A list of objects and nulls that loses an item holds null. -/
theorem Loses.null_mem (h : Loses type (.arr items) lost)
    (hitems : ∀ item ∈ items, item.isObject = true ∨ item = .null) : .null ∈ items := by
  obtain ⟨_, heq, item, hmem, hitem⟩ := h.exists_items
  cases heq
  rcases hitem with rfl | harray
  · exact hmem
  · rcases hitems item hmem with hobject | rfl
    · cases item with
      | obj members => cases harray
      | _ => cases hobject
    · exact hmem

/-! ## Reported faults -/

/-- Every fault of the attempt is one that is reported. -/
def Reporting {α : Type} (attempt : Attempt α) : Prop :=
  ∀ before next, attempt.run.run before ≠ (.error none, next)

namespace Reporting

variable {α β : Type}

theorem pure (value : α) : Reporting (pure value) := fun _ _ h ↦ by cases h

theorem failWith (fault : FieldFault) : Reporting (Environment.failWith fault : Attempt α) :=
  fun _ _ h ↦ by cases h

theorem bind {attempt : Attempt α} {next : α → Attempt β} (h : Reporting attempt)
    (hnext : ∀ value, Reporting (next value)) : Reporting (attempt >>= next) := by
  intro before after hrun
  rw [ExceptT.run_run_bind] at hrun
  split at hrun
  · exact hnext _ _ _ hrun
  · rename_i hattempt
    cases hrun
    exact h _ _ hattempt

theorem mapM {step : α → Attempt β} (h : ∀ item, Reporting (step item)) (items : List α) :
    Reporting (items.mapM step) := by
  induction items with
  | nil => exact pure _
  | cons item rest ih =>
    rw [List.mapM_cons]
    exact (h item).bind fun first ↦ ih.bind fun others ↦ pure _

end Reporting

namespace Environment

variable {env : Environment} {named : Json → Attempt Json}

theorem reporting_completePresent (h : ∀ value, Reporting (named value)) (type : TypeRef) (value : Json) :
    Reporting (completePresent named type value) := by
  induction type generalizing value with
  | named name nullable => exact h value
  | list item nullable ih =>
    cases value with
    | arr items => exact (Reporting.mapM ih items).bind fun _ ↦ .pure _
    | _ => exact .failWith _

theorem reporting_complete (h : ∀ value, Reporting (named value)) (type : TypeRef) (value : Json) :
    Reporting (complete named type value) := by
  unfold complete
  split
  · split
    · exact .pure _
    · exact .failWith _
  · exact reporting_completePresent h type value

theorem reporting_completeNamed (object : Json → StateM Progress (Entries Json)) (name : String)
    (value : Json) : Reporting (env.completeNamed object name value) := by
  unfold completeNamed
  split
  · intro before next h
    cases h
  · exact .failWith _
  · split
    · exact .pure _
    · exact .failWith _
  · split
    · exact .pure _
    · exact .failWith _
  · split
    · exact .failWith _
    · exact .pure _

theorem reporting_context : Reporting env.context := by
  intro before next h
  rw [run_context] at h
  split at h <;> cases h

theorem reporting_resolved (result : Except ResolveError Json) : Reporting (resolved result) := by
  cases result with
  | ok value => exact .pure _
  | error error => exact .failWith _

theorem reporting_mutate (resolver : MutationResolver) (arguments : Json) :
    Reporting (env.mutate resolver arguments) := by
  intro before next h
  rw [run_mutate] at h
  split at h
  · cases h
  · split at h <;> cases h

/-- The value of a field is missing without an error only where it is read off a parent that is null or
a list. -/
theorem silent_of_valueOf {source : FieldSource} {name : String} {arguments parent : Json}
    {before next : Progress}
    (h : (env.valueOf source name arguments parent).run.run before = (.error none, next)) :
    source.readsParent = true ∧ (parent = .null ∨ parent.isArray = true) := by
  cases source with
  | query resolver => exact (reporting_context.bind (fun _ ↦ reporting_resolved _) _ _ h).elim
  | mutation resolver => exact (reporting_mutate _ _ _ _ h).elim
  | vacant => cases h
  | member =>
    refine ⟨rfl, ?_⟩
    cases parent with
    | null => exact .inl rfl
    | arr items => exact .inr rfl
    | _ => cases h
  | reference resolver =>
    refine ⟨rfl, ?_⟩
    cases parent with
    | null => exact .inl rfl
    | arr items => exact .inr rfl
    | _ => exact (reporting_context.bind (fun _ ↦ reporting_resolved _) _ _ h).elim

/-! ## Items that pass -/

/-- A value passes only if all the items of its lists do. -/
theorem exists_of_mapM {α β : Type} {step : α → Attempt β} {items : List α} {done : List β}
    {before after : Progress} (h : (items.mapM step).run.run before = (.ok done, after)) {item : α}
    (hmem : item ∈ items) :
    ∃ between value next, (step item).run.run between = (.ok value, next) := by
  induction items generalizing before after done with
  | nil => cases hmem
  | cons first rest ih =>
    rw [List.mapM_cons, ExceptT.run_run_bind] at h
    split at h
    · rename_i hfirst
      rcases List.mem_cons.mp hmem with rfl | hrest
      · exact ⟨_, _, _, hfirst⟩
      · rw [ExceptT.run_run_bind] at h
        split at h
        · rename_i hothers
          exact ih hothers hrest
        · cases h
    · cases h

/-- An item is lost by a value that passes only where null passes as a value of the named type. -/
theorem loses_of_completed {type lost : TypeRef} {value result : Json} {before after : Progress}
    (h : Loses type value lost)
    (completed : (completePresent named type value).run.run before = (.ok result, after)) :
    lost = .named type.name false ∧
      ∃ between result next, (named .null).run.run between = (.ok result, next) := by
  induction h generalizing before after result with
  | @here item nullable items mem required =>
    rw [completePresent, ExceptT.run_run_bind] at completed
    split at completed
    · rename_i hitems
      obtain ⟨between, value, next, hnull⟩ := exists_of_mapM hitems mem
      cases item with
      | named name nullable =>
        cases required
        exact ⟨rfl, between, value, next, hnull⟩
      | list item nullable => cases hnull
    · cases completed
  | @inner item lost nullable items value mem loses ih =>
    rw [completePresent, ExceptT.run_run_bind] at completed
    split at completed
    · rename_i hitems
      obtain ⟨between, value, next, hinner⟩ := exists_of_mapM hitems mem
      exact ih hinner
    · cases completed

/-- Null passes as a value of a type that is no union and no enumeration. -/
def ShowsNull (schema : ExecutableSchema) (name : String) : Prop :=
  (∀ members, schema.type? name ≠ some (.union members)) ∧
    ∀ values, schema.type? name ≠ some (.enumeration values)

theorem showsNull_of_completed {object : Json → StateM Progress (Entries Json)} {name : String}
    {before after : Progress} {result : Json}
    (h : (env.completeNamed object name .null).run.run before = (.ok result, after)) :
    ShowsNull env.schema name := by
  unfold completeNamed at h
  constructor
  · intro members htype
    rw [htype] at h
    cases h
  · intro values htype
    rw [htype] at h
    cases h

/-! ## Root fields -/

/-- A root field whose value loses an item has reported a failure. -/
theorem reported_of_loses {source : FieldSource} {name : String} {arguments parent value : Json}
    {type lost : TypeRef} {before next : Progress} (root : source.readsParent = false)
    (objects : before.store.HoldsObjects)
    (valued : (env.valueOf source name arguments parent).run.run before = (.ok value, next))
    (h : Loses type value lost) : next.errors ≠ [] := by
  obtain ⟨items, rfl, -⟩ := h.exists_items
  cases source with
  | query resolver =>
    rw [valueOf, ExceptT.run_run_bind, run_context] at valued
    cases hcaller : env.caller with
    | none =>
      rw [hcaller] at valued
      cases valued
    | some caller =>
      rw [hcaller] at valued
      dsimp only at valued
      cases hresult : resolver.resolve ⟨caller.identity, caller.stores, before.store⟩ arguments with
      | error error =>
        rw [hresult] at valued
        cases valued
      | ok answer =>
        rw [hresult] at valued
        cases valued
        have hitems := QueryResolver.isObject_of_resolve objects hresult
        cases hitems _ (h.null_mem fun item hmem ↦ .inl (hitems item hmem))
  | mutation resolver =>
    rw [valueOf, run_mutate] at valued
    cases hcaller : env.caller with
    | none =>
      rw [hcaller] at valued
      cases valued
    | some caller =>
      rw [hcaller] at valued
      dsimp only at valued
      split at valued
      · rename_i after outcome hmutated
        obtain ⟨hdata, hnext⟩ := Prod.mk.inj valued
        have hcases := MutationResolver.item_cases_of_resolve objects (congrArg Prod.snd hmutated)
          (Except.ok.inj hdata)
        have hnull := h.null_mem fun item hmem ↦ (hcases item hmem).imp id And.left
        rcases hcases _ hnull with hobject | ⟨-, herrors⟩
        · cases hobject
        · rw [← hnext]
          exact List.append_ne_nil_of_right_ne_nil _ (mt List.map_eq_nil_iff.mp herrors)
      · cases valued
  | vacant => cases valued
  | member => cases root
  | reference resolver => cases root

/-! ## Where silence comes from -/

/-- The values that stand in the place of the named type of a type. -/
def leaves : TypeRef → Json → List Json
  | .named _ _, value => [value]
  | .list item _, .arr items => items.flatMap (leaves item)
  | .list _ _, _ => []

theorem Reaches.mem_leaves {type : TypeRef} {value held : Json} {before after : Progress}
    (h : Reaches named type value before held after) : held ∈ leaves type value := by
  induction h with
  | here => exact List.mem_singleton_self _
  | item completed inner ih =>
    rw [leaves]
    exact List.mem_flatMap.mpr ⟨_, List.mem_append_right _ List.mem_cons_self, ih⟩

/-- The parent of a visited field is that of the selections, or it stands in the value of another field. -/
theorem Visits.parent_cases {fuel : Nat} {typeName : String} {parent : Json} {fields : Entries Json}
    {selections : List Selection} {before : Progress} {visit : Visit}
    (h : env.Visits fuel typeName parent fields selections before visit) :
    (visit.parent = parent ∧ env.schema.field? typeName visit.name = some visit.field) ∨
      ∃ outer value, env.Visits fuel typeName parent fields selections before outer ∧
        outer.Yields env value ∧ value ≠ .null ∧ visit.parent ∈ leaves outer.field.type value := by
  induction h with
  | here kept ordinary known => exact .inl ⟨rfl, known⟩
  | later run visits ih =>
    refine ih.imp id ?_
    rintro ⟨outer, value, houter, hvalue⟩
    exact ⟨outer, value, .later run houter, hvalue⟩
  | inline kept applies visits ih =>
    refine ih.imp id ?_
    rintro ⟨outer, value, houter, hvalue⟩
    exact ⟨outer, value, .inline kept applies houter, hvalue⟩
  | spread kept known applies visits ih =>
    refine ih.imp id ?_
    rintro ⟨outer, value, houter, hvalue⟩
    exact ⟨outer, value, .spread kept known applies houter, hvalue⟩
  | nested outside valued present reached object inside _ ih =>
    right
    rcases ih with ⟨hparent, -⟩ | ⟨outer, value, houter, hvalue⟩
    · exact ⟨_, _, outside, ⟨_, valued⟩, present, hparent ▸ reached.mem_leaves⟩
    · exact ⟨outer, value, .nested outside valued present reached object houter, hvalue⟩

end Environment

namespace Visit

open Environment

variable {env : Environment} {visit : Visit} {value : Json} {next : Progress} {lost : TypeRef}

theorem reporting_completion (value : Json) :
    Reporting (complete (visit.named env) visit.field.type value) :=
  reporting_complete (fun _ ↦ reporting_completeNamed _ _ _) _ _

theorem mem_errors_after {fault : FieldFault} (h : visit.Fails env (some fault)) :
    .field fault ∈ (visit.after env).errors := by
  obtain ⟨next, h⟩ := h
  rw [after, h]
  exact List.mem_append_right _ (List.mem_singleton_self _)

/-- A field fails without an error only where its value is read off a parent that is null or a list. -/
theorem silent_of_fails (h : visit.Fails env none) :
    visit.field.source.readsParent = true ∧ (visit.parent = .null ∨ visit.parent.isArray = true) := by
  obtain ⟨next, h⟩ := h
  rw [outcome, ExceptT.run_run_bind] at h
  split at h
  · exact (reporting_completion _ _ _ h).elim
  · rename_i hvalue
    cases h
    exact silent_of_valueOf hvalue

/-- A value that loses an item leaves no error only if it is read off the parent, null stands in a list of
the named type, and it passes as a value of this type. -/
theorem silent_of_loses (objects : visit.before.store.HoldsObjects) (yields : visit.Yields env value)
    (h : Loses visit.field.type value lost) (silent : (visit.after env).errors = []) :
    visit.field.source.readsParent = true ∧ lost = .named visit.field.type.name false ∧
      ShowsNull env.schema visit.field.type.name := by
  obtain ⟨next, valued⟩ := yields
  obtain ⟨items, rfl, -⟩ := h.exists_items
  have hrun := run_outcome valued fun hnull ↦ by cases hnull
  have hcompleted : Steady (completePresent (visit.named env) visit.field.type (.arr items)).run :=
    steady_completePresent (fun _ ↦ steady_named) _ _
  have hnext : next.errors = [] := by
    have hafter := (hcompleted next).trans (hrun ▸ advances_after env visit)
    exact List.prefix_nil.mp (silent ▸ hafter.errors)
  cases hresult : (completePresent (visit.named env) visit.field.type (.arr items)).run.run next with
  | mk result last =>
    rw [hresult] at hrun
    rcases result with (_ | fault) | result
    · exact (reporting_completePresent (fun _ ↦ reporting_completeNamed _ _ _) _ _ _ _ hresult).elim
    · have hmem := mem_errors_after ⟨last, hrun⟩
      rw [silent] at hmem
      cases hmem
    · obtain ⟨hlost, between, shown, after, hnull⟩ := loses_of_completed h hresult
      refine ⟨?_, hlost, showsNull_of_completed hnull⟩
      by_contra hroot
      exact reported_of_loses (eq_false_of_ne_true hroot) objects valued h hnext

end Visit

/-! ## Requests -/

open Environment

/-- What a message comes to before it is run: where it is run, and the operation with its root type. -/
structure Plan where
  env : Environment
  root : String
  operation : Operation

/-- The plan of a message, if it is not refused. -/
def plan? (schema : ExecutableSchema) (message : Message) (caller : Option Caller)
    (freshId : Nat → String) : Option Plan := do
  let document ← parse? message.query
  if !(⟨schema, document, message.given⟩ : Scope).isValid then failure
  let operation ← document.operation? message.operation
  let root ← rootOf? schema operation.kind
  let bound ← variableValues? operation message.given
  return ⟨⟨schema, document, message.given, bound, caller, freshId⟩, root, operation⟩

namespace Plan

def run (plan : Plan) (store : Store) : Response × Store := plan.env.run plan.root plan.operation store

/-- The run on a store comes to a field. -/
def Visits (plan : Plan) (store : Store) (visit : Visit) : Prop :=
  plan.env.Visits (maxNesting + 1) plan.root .null [] plan.operation.selections ⟨store, [], 0⟩ visit

end Plan

section plan

variable {schema : ExecutableSchema} {message : Message} {caller : Option Caller}
  {freshId : Nat → String} {plan : Plan}

/-- A message is run as it is planned, or it is refused. -/
theorem execute_eq (schema : ExecutableSchema) (message : Message) (caller : Option Caller)
    (freshId : Nat → String) (store : Store) :
    execute schema message caller freshId store =
      (plan? schema message caller freshId).map fun plan ↦ plan.run store := by
  unfold execute plan?
  cases parse? message.query with
  | none => rfl
  | some document =>
    dsimp only [bind, Option.bind]
    split
    · rfl
    · cases document.operation? message.operation with
      | none => rfl
      | some operation =>
        dsimp only
        cases rootOf? schema operation.kind with
        | none => rfl
        | some root => cases variableValues? operation message.given <;> rfl

theorem root_of_plan (h : plan? schema message caller freshId = some plan) :
    plan.env.schema = schema ∧
      (plan.root = ExecutableSchema.queryRoot ∨ plan.root = ExecutableSchema.mutationRoot) := by
  unfold plan? at h
  obtain ⟨document, -, h⟩ := Option.bind_eq_some_iff.mp h
  split at h
  · cases h
  · obtain ⟨operation, -, h⟩ := Option.bind_eq_some_iff.mp h
    obtain ⟨root, hroot, h⟩ := Option.bind_eq_some_iff.mp h
    obtain ⟨bound, -, h⟩ := Option.bind_eq_some_iff.mp h
    cases h
    refine ⟨rfl, ?_⟩
    unfold rootOf? at hroot
    split at hroot
    · exact .inl (Option.some.inj hroot).symm
    · split at hroot
      · exact .inr (Option.some.inj hroot).symm
      · cases hroot
    · cases hroot

/-- A message that is not refused is answered.  Every fault of a field that its run comes to is among the
errors of the response, apart from those of null and of lists: such a parent is not an object, and it stands
in the place of one in the value of another field.  So where a field has a value with null for an item whose
type is not nullable, the response has an error, unless the value is read off a parent, null stands in the
place of the named type, and this type is no union and no enumeration. -/
theorem execute_null_items {document : TypeDocument} {resolvers : ResolverTable}
    {scalars : ScalarRegistry} (mounted : ExecutableSchema.mount document resolvers scalars = .ok schema)
    (planned : plan? schema message caller freshId = some plan) (store : Store)
    (objects : store.HoldsObjects) :
    ∃ response last, execute schema message caller freshId store = some (response, last) ∧
      (∀ visit fault, plan.Visits store visit → visit.Fails plan.env (some fault) →
        .field fault ∈ response.errors) ∧
      (∀ visit, plan.Visits store visit → visit.Fails plan.env none →
        visit.field.source.readsParent = true ∧ (visit.parent = .null ∨ visit.parent.isArray = true) ∧
          ∃ outer value, plan.Visits store outer ∧ outer.Yields plan.env value ∧ value ≠ .null ∧
            visit.parent ∈ leaves outer.field.type value) ∧
      ∀ visit value lost, plan.Visits store visit → visit.Yields plan.env value →
        Loses visit.field.type value lost → response.errors = [] →
          visit.field.source.readsParent = true ∧ lost = .named visit.field.type.name false ∧
            ShowsNull schema visit.field.type.name := by
  obtain ⟨hschema, hroot⟩ := root_of_plan planned
  have hfinal {visit : Visit} (hvisit : plan.Visits store visit) :
      (visit.after plan.env).errors <+: (plan.run store).1.errors := (Visits.advances hvisit).2.errors
  have hanswer : execute schema message caller freshId store = some (plan.run store) := by
    rw [execute_eq, planned, Option.map_some]
  refine ⟨_, _, hanswer, ?_, ?_, ?_⟩
  · intro visit fault hvisit hfails
    exact (hfinal hvisit).subset (Visit.mem_errors_after hfails)
  · intro visit hvisit hfails
    obtain ⟨hread, hparent⟩ := Visit.silent_of_fails hfails
    refine ⟨hread, hparent, ?_⟩
    rcases Visits.parent_cases hvisit with ⟨-, hknown⟩ | houter
    · rw [hschema] at hknown
      cases (ExecutableSchema.readsParent_of_mount mounted hroot hknown).symm.trans hread
    · exact houter
  · intro visit value lost hvisit hyields hloses hnone
    rw [← hschema]
    refine Visit.silent_of_loses ((Visits.advances hvisit).1.objects objects) hyields hloses ?_
    exact List.prefix_nil.mp (hnone ▸ hfinal hvisit)

end plan

/-! ## A user with lost items

The friends and the roles of a user may not be null.  One friend is gone, and one role is null. -/

namespace Lonely

def document : TypeDocument :=
  [{ Definition.new "Role" .enumeration with values := ["ADMIN"] },
    { Definition.new "User" .object with
      fields := [.new "name" "String", .new "friends" "[User!]!", .new "roles" "[Role!]"] },
    { Definition.new "Query" .object with fields := [.new "users" "[User!]!"] }]

def query : QueryResolver := ⟨"User", .all, .mixed, .whole, ["friends", "roles"], none⟩

def resolvers : ResolverTable :=
  [("User", ⟨[("users", query)], [], [("User", [("friends", .reference "User" .mixed)])]⟩)]

def users : ExecutableField := ⟨.list (.named "User" false) false, [], .query query⟩

def friends : ExecutableField :=
  ⟨.list (.named "User" false) false, [], .reference (.reference "User" .mixed)⟩

def roles : ExecutableField := ⟨.list (.named "Role" false) true, [], .member⟩

def schema : ExecutableSchema :=
  ⟨Scalar.standard.map (·, .standard) ++
    [("Role", .enumeration ["ADMIN"]),
      ("User", .object
        [("name", ⟨.named "String" true, [], .member⟩), ("friends", friends), ("roles", roles)]),
      ("Query", .object [("users", users)])], false⟩

theorem mounted : ExecutableSchema.mount document resolvers ⟨[]⟩ = .ok schema := rfl

/-- The members of the user that are read. -/
def shown : Entries Json := [("friends", .arr [.str "2"]), ("roles", .arr [.null])]

def store : Store := ⟨[("User", [("1", .obj (("id", .str "1") :: shown))])]⟩

theorem objects : store.HoldsObjects :=
  Store.holdsObjects_empty.insert
    (show Store.empty.insert "User" (.obj (("id", .str "1") :: shown)) = .ok store from rfl)

def caller : Caller := ⟨none, ["User"]⟩

/-- The plan of a query that selects something of all users. -/
def plan (inner : List Selection) : Plan :=
  let operation : Operation := ⟨.query, none, [], [], [.field none "users" [] [] inner]⟩
  ⟨⟨schema, ⟨[operation], []⟩, [], [], some caller, fun _ ↦ "fresh"⟩, "Query", operation⟩

end Lonely

/-- A role is null although no role may be: the response has an error. -/
theorem execute_null_items_roles :
    ∃ response last, execute Lonely.schema ⟨"\x7b users \x7b roles \x7d \x7d", [], none⟩ (some Lonely.caller)
        (fun _ ↦ "fresh") Lonely.store = some (response, last) ∧
      response.errors ≠ [] := by
  let inner : List Selection := [.field none "roles" [] [] []]
  have parsed : parse? "\x7b users \x7b roles \x7d \x7d" = some (Lonely.plan inner).env.document := by
    dsimp only [Lonely.plan, inner]
    cbv
  have planned : plan? Lonely.schema ⟨"\x7b users \x7b roles \x7d \x7d", [], none⟩ (some Lonely.caller)
      (fun _ ↦ "fresh") = some (Lonely.plan inner) := by
    unfold plan?
    rw [parsed]
    rfl
  obtain ⟨response, last, hanswer, -, -, hlost⟩ :=
    execute_null_items Lonely.mounted planned Lonely.store Lonely.objects
  refine ⟨response, last, hanswer, fun hnone ↦ ?_⟩
  let start : Progress := ⟨Lonely.store, [], 0⟩
  let outer : Visit := ⟨maxNesting, Lonely.users, "users", [], inner, .null, start⟩
  let visit : Visit := ⟨maxNesting - 1, Lonely.roles, "roles", [], [], .obj Lonely.shown, start⟩
  have hvalue : (outer.value (Lonely.plan inner).env).run.run start =
      (.ok (.arr [.obj Lonely.shown]), start) := by
    cbv
  have houter : (Lonely.plan inner).Visits Lonely.store outer := .here rfl rfl rfl
  have hreached : Reaches (outer.named (Lonely.plan inner).env) outer.field.type (.arr [.obj Lonely.shown])
      start (.obj Lonely.shown) start :=
    @Reaches.item _ _ _ [] [] [] _ _ _ _ _ rfl .here
  have hvisit : (Lonely.plan inner).Visits Lonely.store visit :=
    houter.nested hvalue (fun hnull ↦ by cases hnull) hreached rfl (.here rfl rfl rfl)
  obtain ⟨-, -, -, henumeration⟩ := hlost visit (.arr [.null]) (.named "Role" false) hvisit ⟨start, rfl⟩
    (.here List.mem_cons_self rfl) hnone
  exact henumeration ["ADMIN"] rfl

/-- The friends of a user have to be users, and one of them is gone: null takes its place, and there is no
error. -/
theorem execute_null_item_unreported :
    ExecutableSchema.mount Lonely.document Lonely.resolvers ⟨[]⟩ = .ok Lonely.schema ∧
    ∃ field response, Lonely.schema.field? "User" "friends" = some field ∧
      field.type = .list (.named "User" false) false ∧
      execute Lonely.schema ⟨"\x7b users \x7b friends \x7b name \x7d \x7d \x7d", [], none⟩
        (some Lonely.caller) (fun _ ↦ "fresh") Lonely.store = some (response, Lonely.store) ∧
      response.data = .obj [("users", .arr [.obj [("friends", .arr [.null])]])] ∧ response.errors = [] := by
  let inner : List Selection := [.field none "friends" [] [] [.field none "name" [] [] []]]
  have parsed : parse? "\x7b users \x7b friends \x7b name \x7d \x7d \x7d" =
      some (Lonely.plan inner).env.document := by
    dsimp only [Lonely.plan, inner]
    cbv
  have planned : plan? Lonely.schema ⟨"\x7b users \x7b friends \x7b name \x7d \x7d \x7d", [], none⟩
      (some Lonely.caller) (fun _ ↦ "fresh") = some (Lonely.plan inner) := by
    unfold plan?
    rw [parsed]
    rfl
  have answered : (Lonely.plan inner).run Lonely.store =
      (⟨.obj [("users", .arr [.obj [("friends", .arr [.null])]])], []⟩, Lonely.store) := by
    cbv
  have executed : execute Lonely.schema ⟨"\x7b users \x7b friends \x7b name \x7d \x7d \x7d", [], none⟩
      (some Lonely.caller) (fun _ ↦ "fresh") Lonely.store =
        some (⟨.obj [("users", .arr [.obj [("friends", .arr [.null])]])], []⟩, Lonely.store) := by
    rw [execute_eq, planned, Option.map_some, answered]
  exact ⟨Lonely.mounted, Lonely.friends, _, rfl, rfl, executed, rfl, rfl⟩

end Request

end ResourceApi

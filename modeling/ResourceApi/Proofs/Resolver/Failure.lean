import ResourceApi.Proofs.Store.Run
import ResourceApi.Resolver.Mutation

/-!
# Failed mutations

The items of a mutation are applied to the store itself, one call each, and nothing is taken back.  A
mutation that fails before its first call writes nothing.  One that fails at an item leaves what the
calls for the items before it have left: neither that item nor any later one is applied.
-/

namespace ResourceApi.MutationResolver

variable {resolver : MutationResolver} {ids : Nat → String} {caller : String} {store : Store}
  {context : RequestContext} {arguments : Json} {items : List Json}

/-! ## Calls for items -/

/-- The store call that an item asks for; what is to be deleted has to be an identifier. -/
def call? (resolver : MutationResolver) (freshId caller : String) (item : Json) :
    Option Store.Call :=
  match resolver.action, item with
  | .create, payload => some (.create resolver.model freshId payload caller)
  | .update, payload => some (.update resolver.model payload caller)
  | .delete, .str id => some (.delete resolver.model id caller)
  | .delete, _ => none

/-- The calls for the items from a position on. -/
def callsFrom (resolver : MutationResolver) (ids : Nat → String) (caller : String) (index : Nat) :
    List Json → List Store.Call
  | [] => []
  | item :: rest =>
    (resolver.call? (ids index) caller item).toList ++
      resolver.callsFrom ids caller (index + 1) rest

/-- What the store call for an item comes to. -/
def apply (resolver : MutationResolver) (store : Store) (freshId caller : String) (item : Json) :
    Except StorageError (Store × Json) :=
  (resolver.access freshId caller item).outcome store

theorem access_eq (freshId caller : String) (item : Json) :
    resolver.access freshId caller item =
      match resolver.call? freshId caller item with
      | some call => call.access
      | none => throw (.invalidRecord .idNotString) := by
  unfold access call?
  cases resolver.action with
  | create => rfl
  | update => rfl
  | delete => cases item <;> rfl

theorem apply_eq (store : Store) (freshId caller : String) (item : Json) :
    resolver.apply store freshId caller item =
      match resolver.call? freshId caller item with
      | some call => store.call call
      | none => .error (.invalidRecord .idNotString) := by
  rw [apply, access_eq]
  cases resolver.call? freshId caller item with
  | some call => exact (Store.call_eq store call).symm
  | none => rfl

/-- An item whose call is refused leaves the store as it was. -/
theorem run_access (store : Store) (freshId caller : String) (item : Json) :
    (resolver.access freshId caller item).run.run store =
      match resolver.apply store freshId caller item with
      | .ok (next, record) => (.ok record, next)
      | .error error => (.error error, store) := by
  rw [apply_eq, access_eq]
  cases resolver.call? freshId caller item with
  | some call => exact Store.run_access_eq store call
  | none => rfl

/-- The items are applied in turn, each from the store that the ones before it have left. -/
theorem applyFrom_cons (index : Nat) (progress : Progress) (item : Json) (rest : List Json) :
    resolver.applyFrom ids caller index progress (item :: rest) =
      match resolver.apply progress.store (ids index) caller item with
      | .ok (store, record) =>
        resolver.applyFrom ids caller (index + 1)
          { progress with store := store, data := progress.data ++ [record] } rest
      | .error error =>
        if isReportable error then
          resolver.applyFrom ids caller (index + 1)
            { progress with
              data := progress.data ++ [.null]
              errors := progress.errors ++ [.of index (.ofStorage error)] } rest
        else { progress with ended := some error } := by
  rw [applyFrom, run_access]
  cases resolver.apply progress.store (ids index) caller item with
  | ok result => rfl
  | error error => rfl

/-- Every storage error is about ownership, a missing record, a unique value, or the shape of a
payload; only the last one ends a mutation. -/
theorem exists_fault_of_not_reportable {error : StorageError} (h : isReportable error = false) :
    ∃ fault, error = .invalidRecord fault := by
  cases error with
  | invalidRecord fault => exact ⟨fault, rfl⟩
  | _ => cases h

/-- An item that is applied, or whose failure is reported, does to the store what its call does. -/
theorem run_call? {freshId : String} {item : Json}
    (h : ∀ error, resolver.apply store freshId caller item = .error error →
      isReportable error = true) :
    store.run (resolver.call? freshId caller item).toList =
      match resolver.apply store freshId caller item with
      | .ok (next, _) => next
      | .error _ => store := by
  rw [apply_eq] at h ⊢
  cases hcall : resolver.call? freshId caller item with
  | none =>
    have hreportable := h (.invalidRecord .idNotString) (by rw [hcall])
    cases hreportable
  | some call =>
    rw [Option.toList_some, Store.run_singleton]
    exact Store.after_eq store call

/-! ## Where a mutation ends -/

/-- The items were applied up to one whose failure ends the mutation. -/
structure EndsAt (resolver : MutationResolver) (ids : Nat → String) (caller : String) (index : Nat)
    (store : Store) (front : List Json) (item : Json) (fault : RecordFault) (last : Store) :
    Prop where
  applied : last = store.run (resolver.callsFrom ids caller index front)
  refused : resolver.apply last (ids (index + front.length)) caller item =
    .error (.invalidRecord fault)

/-- A first item that does not end the mutation moves the end one position on. -/
theorem EndsAt.cons {index : Nat} {first item : Json} {front : List Json} {fault : RecordFault}
    {next last : Store} (hfirst : store.run (resolver.call? (ids index) caller first).toList = next)
    (h : EndsAt resolver ids caller (index + 1) next front item fault last) :
    EndsAt resolver ids caller index store (first :: front) item fault last where
  applied := by
    calc last = next.run (resolver.callsFrom ids caller (index + 1) front) := h.applied
      _ = store.run (resolver.callsFrom ids caller index (first :: front)) := by
        rw [← hfirst, ← Store.run_append, callsFrom]
  refused := by
    have hposition : index + (first :: front).length = index + 1 + front.length := by
      rw [List.length_cons]
      omega
    rw [hposition]
    exact h.refused

/-- A run over items that ends in a storage error ends at one of them. -/
theorem endsAt_of_ended {index : Nat} {progress : Progress} {error : StorageError}
    (start : progress.ended = none)
    (h : (resolver.applyFrom ids caller index progress items).ended = some error) :
    ∃ front item back fault, items = front ++ item :: back ∧ error = .invalidRecord fault ∧
      EndsAt resolver ids caller index progress.store front item fault
        (resolver.applyFrom ids caller index progress items).store := by
  induction items generalizing index progress with
  | nil =>
    rw [applyFrom, start] at h
    cases h
  | cons first rest ih =>
    rw [applyFrom_cons] at h ⊢
    cases happly : resolver.apply progress.store (ids index) caller first with
    | ok result =>
      obtain ⟨next, record⟩ := result
      simp only [happly] at h ⊢
      have hfirst : progress.store.run (resolver.call? (ids index) caller first).toList = next := by
        rw [run_call? fun error herror ↦ ?_, happly]
        rw [happly] at herror
        cases herror
      obtain ⟨front, item, back, fault, hitems, herror, hends⟩ := ih (by exact start) h
      exact ⟨first :: front, item, back, fault, by rw [hitems, List.cons_append], herror,
        hends.cons hfirst⟩
    | error failure =>
      simp only [happly] at h ⊢
      cases hreportable : isReportable failure with
      | true =>
        simp only [hreportable, if_true] at h ⊢
        have hfirst : progress.store.run (resolver.call? (ids index) caller first).toList =
            progress.store := by
          rw [run_call? fun error herror ↦ ?_, happly]
          rw [happly] at herror
          rwa [← Except.error.inj herror]
        obtain ⟨front, item, back, fault, hitems, herror, hends⟩ := ih (by exact start) h
        exact ⟨first :: front, item, back, fault, by rw [hitems, List.cons_append], herror,
          hends.cons hfirst⟩
      | false =>
        simp only [hreportable, Bool.false_eq_true, if_false] at h ⊢
        obtain rfl := Option.some.inj h
        obtain ⟨fault, rfl⟩ := exists_fault_of_not_reportable hreportable
        exact ⟨[], first, rest, fault, rfl, rfl, rfl, happly⟩

/-- A single target is one item. -/
theorem length_items_of_single (htarget : resolver.target = .single)
    (h : resolver.items arguments = .ok items) : items.length = 1 := by
  unfold MutationResolver.items at h
  rw [htarget] at h
  split at h
  · cases h
  · cases h
  · cases h
    rfl
  · contradiction
  · cases h

/-- What is applied are the items of the call, in the name of its caller. -/
theorem items_of_prepare (h : resolver.prepare context arguments = .ok (caller, items)) :
    resolver.items arguments = .ok items := by
  obtain ⟨_, -, h⟩ := Except.bind_eq_ok_iff.mp h
  obtain ⟨found, hfound, h⟩ := Except.bind_eq_ok_iff.mp h
  dsimp only at h
  split at h
  · obtain ⟨_, -, h⟩ := Except.bind_eq_ok_iff.mp h
    cases h
    exact hfound
  · cases h
    exact hfound

/-! ## Failures -/

/-- What a failed mutation leaves.  Either the call was refused before its items (no caller, malformed
arguments, a value that its scalar refuses), and the store is as it was; or a call for one of the items
was refused for the shape of the item, and the store is what the calls for the items before it leave,
each refused one of them leaving it as it was.  With a single target there are no items before. -/
theorem resolve_failed (resolver : MutationResolver) (ids : Nat → String) (context : RequestContext)
    (arguments : Json) (error : ResolveError)
    (h : (resolver.resolve ids context arguments).2 = .error error) :
    (resolver.prepare context arguments = .error error ∧
        (resolver.resolve ids context arguments).1 = context.store) ∨
      ∃ caller front item back fault,
        resolver.prepare context arguments = .ok (caller, front ++ item :: back) ∧
        error = .validation (.refusedRecord (.invalidRecord fault)) ∧
        EndsAt resolver ids caller 0 context.store front item fault
          (resolver.resolve ids context arguments).1 ∧
        (resolver.target = .single →
          (resolver.resolve ids context arguments).1 = context.store) := by
  unfold resolve at h ⊢
  cases hprepare : resolver.prepare context arguments with
  | error refused =>
    simp only [hprepare] at h ⊢
    exact .inl ⟨congrArg Except.error (Except.error.inj h), trivial⟩
  | ok result =>
    obtain ⟨caller, items⟩ := result
    simp only [hprepare, run] at h ⊢
    cases hended : (resolver.applyFrom ids caller 0 ⟨context.store, [], [], none⟩ items).ended with
    | none =>
      simp only [hended] at h
      cases h
    | some failure =>
      simp only [hended] at h ⊢
      obtain ⟨front, item, back, fault, rfl, rfl, hends⟩ := endsAt_of_ended rfl hended
      refine .inr ⟨caller, front, item, back, fault, rfl, (Except.error.inj h).symm, hends, ?_⟩
      intro hsingle
      have hlength := length_items_of_single hsingle (items_of_prepare hprepare)
      have hfront : front = [] := by
        rw [List.length_append, List.length_cons] at hlength
        exact List.length_eq_zero_iff.mp (by omega)
      rw [hends.applied, hfront]
      rfl

/-- Two records to be created, the second of which is no object: the mutation fails, and the first
record stays. -/
theorem resolve_failed_after_write :
    let resolver : MutationResolver := ⟨⟨"User", []⟩, .create, .multi, [], ⟨[]⟩⟩
    let context : RequestContext := ⟨some "u1", ["User"], .empty⟩
    let arguments : Json :=
      .obj [("data", .arr [.obj [("id", .str "1"), ("name", .str "Ann")], .str "Bob"])]
    let result := resolver.resolve (fun _ ↦ "fresh") context arguments
    result.2 = .error (.validation (.refusedRecord (.invalidRecord .payloadNotObject))) ∧
      result.1 ≠ context.store := by
  intro resolver context arguments result
  refine ⟨rfl, fun hsame ↦ ?_⟩
  have hrecords := congrArg (fun store ↦ (store.records "User").length) hsame
  cases hrecords

/-- The same call: the failure is that of the second item, and the store is what the first leaves. -/
theorem resolve_failed_second_item :
    let resolver : MutationResolver := ⟨⟨"User", []⟩, .create, .multi, [], ⟨[]⟩⟩
    let context : RequestContext := ⟨some "u1", ["User"], .empty⟩
    let ann : Json := .obj [("id", .str "1"), ("name", .str "Ann")]
    let arguments : Json := .obj [("data", .arr [ann, .str "Bob"])]
    let result := resolver.resolve (fun _ ↦ "fresh") context arguments
    result.2 = .error (.validation (.refusedRecord (.invalidRecord .payloadNotObject))) ∧
      result.1 = Store.empty.run [.create ⟨"User", []⟩ "fresh" ann "u1"] := by
  intro resolver context ann arguments result
  have hfailed :
      result.2 = .error (.validation (.refusedRecord (.invalidRecord .payloadNotObject))) := rfl
  refine ⟨hfailed, ?_⟩
  rcases resolve_failed resolver (fun _ ↦ "fresh") context arguments _ hfailed with
    ⟨hprepare, -⟩ | ⟨caller, front, item, back, fault, hprepare, -, hends, -⟩
  · cases hprepare
  · have hitems : ("u1", [ann, .str "Bob"]) = (caller, front ++ item :: back) :=
      Except.ok.inj hprepare
    obtain ⟨rfl, hsplit⟩ := Prod.mk.inj hitems
    rw [hends.applied]
    rcases front with _ | ⟨first, _ | ⟨second, rest⟩⟩
    · have hrefused := hends.refused
      obtain ⟨rfl, -⟩ := List.cons.inj hsplit
      rw [hends.applied] at hrefused
      cases hrefused
    · obtain ⟨rfl, -⟩ := List.cons.inj hsplit
      rfl
    · have hlength := congrArg List.length hsplit
      simp at hlength

end ResourceApi.MutationResolver

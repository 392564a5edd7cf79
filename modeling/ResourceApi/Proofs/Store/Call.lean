import ResourceApi.Proofs.Except
import ResourceApi.Proofs.Json.Equality
import ResourceApi.Store

/-!
# Store calls

A call creates, changes or deletes one record.  It runs on the store itself, and there are several points
at which it may be refused: the form of its payload, the identifier, the record, its owner, the unique
values.  `Accepted` says what a call that passes them all does to the store, and `Refused` lists the
points, each with its error.  Every call is one or the other, and a refused one has written nothing by
then: it has not even made the collection that the record would have gone to.
-/

namespace ResourceApi.Store

open ExceptT (run_run_bind)

/-- A call, with the identifier that a new record gets when its payload brings none. -/
inductive Call where
  | create (model : ModelHandle) (freshId : String) (payload : Json) (caller : String)
  | update (model : ModelHandle) (payload : Json) (caller : String)
  | delete (model : ModelHandle) (id caller : String)

namespace Call

def model : Call → ModelHandle
  | .create model .. | .update model .. | .delete model .. => model

def caller : Call → String
  | .create _ _ _ caller | .update _ _ caller | .delete _ _ caller => caller

/-- The payload of the call, if it has one, is a value that a JSON text denotes. -/
def WellFormed : Call → Prop
  | .create _ _ payload _ | .update _ payload _ => payload.WellFormed
  | .delete .. => True

end Call

/-! ## Collections -/

/-- The store with a record in the place of the one with its identifier, or else at the end. -/
def write (store : Store) (resource id : String) (record : Json) : Store :=
  store.setCollection resource (Entries.put id record (store.collection resource))

def remove (store : Store) (resource id : String) : Store :=
  store.setCollection resource (Entries.erase id (store.collection resource))

variable {store next : Store} {resource other id : String} {record : Json}

@[simp]
theorem collection_empty (resource : String) : empty.collection resource = [] := rfl

theorem collection_setCollection_self (store : Store) (resource : String)
    (collection : Collection) :
    (store.setCollection resource collection).collection resource = collection := by
  simp [Store.collection, setCollection, Entries.get?_put_self]

/-- Of two collections for one resource the later one stays. -/
theorem setCollection_setCollection (store : Store) (resource : String)
    (first second : Collection) :
    (store.setCollection resource first).setCollection resource second =
      store.setCollection resource second := by
  simp [setCollection, Entries.put_put]

theorem collection_setCollection_of_ne (h : other ≠ resource) (store : Store)
    (collection : Collection) :
    (store.setCollection resource collection).collection other = store.collection other := by
  simp [Store.collection, setCollection, Entries.get?_put_of_ne _ _ h]

@[simp]
theorem collection_write_self (store : Store) (resource id : String) (record : Json) :
    (store.write resource id record).collection resource =
      Entries.put id record (store.collection resource) :=
  collection_setCollection_self ..

theorem collection_write_of_ne (h : other ≠ resource) (store : Store) (id : String)
    (record : Json) :
    (store.write resource id record).collection other = store.collection other :=
  collection_setCollection_of_ne h ..

@[simp]
theorem collection_remove_self (store : Store) (resource id : String) :
    (store.remove resource id).collection resource =
      Entries.erase id (store.collection resource) :=
  collection_setCollection_self ..

theorem collection_remove_of_ne (h : other ≠ resource) (store : Store) (id : String) :
    (store.remove resource id).collection other = store.collection other :=
  collection_setCollection_of_ne h ..

theorem find?_write_self (store : Store) (resource id : String) (record : Json) :
    (store.write resource id record).find? resource id = some record := by
  rw [find?, collection_write_self, Entries.get?_put_self]

theorem find?_write_of_ne {otherId : String} (h : ¬(other = resource ∧ otherId = id))
    (store : Store) (record : Json) :
    (store.write resource id record).find? other otherId = store.find? other otherId := by
  by_cases hresource : other = resource
  · subst hresource
    have hid : otherId ≠ id := fun heq ↦ h ⟨rfl, heq⟩
    rw [find?, collection_write_self, Entries.get?_put_of_ne _ _ hid, find?]
  · rw [find?, collection_write_of_ne hresource, find?]

theorem find?_remove_self (distinct : (store.collection resource).keys.Nodup) :
    (store.remove resource id).find? resource id = none := by
  rw [find?, collection_remove_self, Entries.get?_erase_self distinct]

theorem find?_remove_of_ne {otherId : String} (h : ¬(other = resource ∧ otherId = id))
    (store : Store) :
    (store.remove resource id).find? other otherId = store.find? other otherId := by
  by_cases hresource : other = resource
  · subst hresource
    have hid : otherId ≠ id := fun heq ↦ h ⟨rfl, heq⟩
    rw [find?, collection_remove_self, Entries.get?_erase_of_ne hid, find?]
  · rw [find?, collection_remove_of_ne hresource, find?]

/-! ## Steps of a call -/

namespace Access

theorem run_get (store : Store) : (get : Access Store).run.run store = (.ok store, store) := rfl

theorem run_ofExcept {α : Type} (result : Except StorageError α) (store : Store) :
    (MonadExcept.ofExcept result : Access α).run.run store = (result, store) := by
  cases result <;> rfl

/-- The check looks at the record only. -/
theorem run_checkOwner (resource id : String) (record : Json) (caller : String) (store : Store) :
    (checkOwner resource id record caller).run.run store =
      (if isOwnedBy record caller then .ok () else .error (.notOwner resource id), store) := by
  unfold checkOwner
  cases isOwnedBy record caller <;> rfl

/-- Opening a collection makes a difference only where there was none. -/
theorem run_openCollection (resource : String) (store : Store) :
    ∃ opened, (openCollection resource).run.run store = (.ok (store.collection resource), opened) ∧
      ∀ collection, opened.setCollection resource collection =
        store.setCollection resource collection := by
  unfold openCollection Store.collection
  rw [run_run_bind, run_get]
  dsimp only
  cases store.collections.get? resource with
  | some collection => exact ⟨store, rfl, fun _ ↦ rfl⟩
  | none => exact ⟨store.setCollection resource [], rfl, setCollection_setCollection store resource []⟩

/-- To open the collection and then to write it is one write. -/
theorem run_put (resource id : String) (record : Json) (store : Store) :
    (put resource id record).run.run store = (.ok (), store.write resource id record) := by
  obtain ⟨opened, hopen, hwrite⟩ := run_openCollection resource store
  unfold put
  rw [run_run_bind, hopen]
  apply congrArg (Prod.mk _)
  apply hwrite

theorem run_insert (resource : String) (record : Json) (store : Store) :
    (insert resource record).run.run store =
      match (record.get? idField).bind Json.str? with
      | some id => (.ok (), store.write resource id record)
      | none => (.error (.invalidRecord .missingId), store) := by
  unfold insert
  cases (record.get? idField).bind Json.str? with
  | some id => apply run_put
  | none => rfl

theorem run_take (found : store.find? resource id = some record) :
    (take resource id (store.collection resource)).run.run store =
      (.ok record, store.remove resource id) := by
  unfold take
  rw [show (store.collection resource).get? id = some record from found]
  rfl

end Access

theorem insert_eq_ok (h : store.insert resource record = .ok next) :
    ∃ id, (record.get? idField).bind Json.str? = some id ∧ next = store.write resource id record := by
  unfold Store.insert Access.outcome at h
  rw [Access.run_insert] at h
  cases hid : (record.get? idField).bind Json.str? with
  | none =>
    rw [hid] at h
    cases h
  | some id =>
    rw [hid] at h
    exact ⟨id, rfl, (Except.ok.inj h).symm⟩

/-- The call as it runs on a store. -/
def Call.access : Call → Access Json
  | .create model freshId payload caller => .create model freshId payload caller
  | .update model payload caller => .update model payload caller
  | .delete model id caller => .delete model id caller

/-- What a call comes to on a store. -/
def call (store : Store) : Call → Except StorageError (Store × Json)
  | .create model freshId payload caller => store.create model freshId payload caller
  | .update model payload caller => store.update model payload caller
  | .delete model id caller => store.delete model id caller

/-! ## Accepted and refused calls -/

/-- The calls that a store accepts, each with the new store and the record that is returned. -/
inductive Accepted (store : Store) : Call → Store → Json → Prop
  | create {model : ModelHandle} {freshId caller id : String} {members : Entries Json}
      (hid : idFor freshId members = id) (absent : store.find? model.resource id = none)
      (unique : clash? model (store.collection model.resource) id (stamped id caller members) = none) :
      Accepted store (.create model freshId (.obj members) caller)
        (store.write model.resource id (stamped id caller members)) (stamped id caller members)
  | update {model : ModelHandle} {caller id : String} {changes : Entries Json} {before : Json}
      (hid : (Entries.get? changes idField).bind Json.str? = some id)
      (found : store.find? model.resource id = some before) (owned : isOwnedBy before caller = true)
      (unique : clash? model (store.collection model.resource) id (applyChanges before changes) =
        none) :
      Accepted store (.update model (.obj changes) caller)
        (store.write model.resource id (applyChanges before changes)) (applyChanges before changes)
  | delete {model : ModelHandle} {id caller : String} {before : Json}
      (found : store.find? model.resource id = some before)
      (owned : isOwnedBy before caller = true) :
      Accepted store (.delete model id caller) (store.remove model.resource id) before

/-- The calls that a store refuses, by the points at which they fail, each with its error. -/
inductive Refused (store : Store) : Call → StorageError → Prop
  | createShape {model : ModelHandle} {freshId caller : String} {payload : Json}
      (shape : payload.isObject = false) :
      Refused store (.create model freshId payload caller) (.invalidRecord .payloadNotObject)
  | createTaken {model : ModelHandle} {freshId caller id : String} {members : Entries Json}
      {held : Json} (hid : idFor freshId members = id)
      (taken : store.find? model.resource id = some held) :
      Refused store (.create model freshId (.obj members) caller)
        (.alreadyExists model.resource idField id)
  | createClash {model : ModelHandle} {freshId caller id field : String} {members : Entries Json}
      {value : Json} (hid : idFor freshId members = id) (absent : store.find? model.resource id = none)
      (clash : clash? model (store.collection model.resource) id (stamped id caller members) =
        some (field, value)) :
      Refused store (.create model freshId (.obj members) caller)
        (.alreadyExists model.resource field value.compact)
  | updateShape {model : ModelHandle} {caller : String} {payload : Json}
      (shape : payload.isObject = false) :
      Refused store (.update model payload caller) (.invalidRecord .payloadNotObject)
  | updateWithoutId {model : ModelHandle} {caller : String} {changes : Entries Json}
      (hid : (Entries.get? changes idField).bind Json.str? = none) :
      Refused store (.update model (.obj changes) caller) (.invalidRecord .updateWithoutId)
  | updateAbsent {model : ModelHandle} {caller id : String} {changes : Entries Json}
      (hid : (Entries.get? changes idField).bind Json.str? = some id)
      (absent : store.find? model.resource id = none) :
      Refused store (.update model (.obj changes) caller) (.notFound model.resource id)
  | updateNotOwner {model : ModelHandle} {caller id : String} {changes : Entries Json} {before : Json}
      (hid : (Entries.get? changes idField).bind Json.str? = some id)
      (found : store.find? model.resource id = some before)
      (foreign : isOwnedBy before caller = false) :
      Refused store (.update model (.obj changes) caller) (.notOwner model.resource id)
  | updateClash {model : ModelHandle} {caller id field : String} {changes : Entries Json}
      {before value : Json} (hid : (Entries.get? changes idField).bind Json.str? = some id)
      (found : store.find? model.resource id = some before) (owned : isOwnedBy before caller = true)
      (clash : clash? model (store.collection model.resource) id (applyChanges before changes) =
        some (field, value)) :
      Refused store (.update model (.obj changes) caller)
        (.alreadyExists model.resource field value.compact)
  | deleteWithoutCollection {model : ModelHandle} {id caller : String}
      (absent : store.collections.get? model.resource = none) :
      Refused store (.delete model id caller) (.notFound model.resource id)
  | deleteAbsent {model : ModelHandle} {id caller : String} {collection : Collection}
      (present : store.collections.get? model.resource = some collection)
      (absent : store.find? model.resource id = none) :
      Refused store (.delete model id caller) (.notFound model.resource id)
  | deleteNotOwner {model : ModelHandle} {id caller : String} {before : Json}
      (found : store.find? model.resource id = some before)
      (foreign : isOwnedBy before caller = false) :
      Refused store (.delete model id caller) (.notOwner model.resource id)

theorem checkUnique_of_none {model : ModelHandle} {candidate : Json}
    (h : clash? model (store.collection model.resource) id candidate = none) :
    store.checkUnique model id candidate = .ok () := by
  rw [checkUnique, h]

theorem checkUnique_of_some {model : ModelHandle} {candidate value : Json} {field : String}
    (h : clash? model (store.collection model.resource) id candidate = some (field, value)) :
    store.checkUnique model id candidate =
      .error (.alreadyExists model.resource field value.compact) := by
  rw [checkUnique, h]

theorem get?_collections_of_find? (found : store.find? resource id = some record) :
    store.collections.get? resource = some (store.collection resource) := by
  unfold find? Store.collection at *
  cases hcollection : store.collections.get? resource with
  | none =>
    rw [hcollection] at found
    cases found
  | some collection => rfl

theorem collection_of_get? {collection : Collection}
    (h : store.collections.get? resource = some collection) : store.collection resource = collection := by
  rw [Store.collection, h, Option.getD_some]

namespace Access

variable {model : ModelHandle} {freshId caller : String} {members changes : Entries Json}
  {before : Json}

/-- A creation whose identifier is free goes on to the unique values, and then to the write. -/
theorem run_create (hid : idFor freshId members = id) (absent : store.find? model.resource id = none) :
    (create model freshId (.obj members) caller).run.run store =
      match store.checkUnique model id (stamped id caller members) with
      | .ok () => (.ok (stamped id caller members),
          store.write model.resource id (stamped id caller members))
      | .error error => (.error error, store) := by
  simp only [create, hid, run_run_bind, run_get, absent, Option.isSome_none, Bool.false_eq_true,
    if_false, run_ofExcept]
  cases store.checkUnique model id (stamped id caller members) with
  | ok passed =>
    simp only [run_put]
    rfl
  | error error => rfl

/-- An update of a record that is there asks for its owner, then for the unique values, and writes. -/
theorem run_update (hid : (Entries.get? changes idField).bind Json.str? = some id)
    (found : store.find? model.resource id = some before) (owned : isOwnedBy before caller = true) :
    (update model (.obj changes) caller).run.run store =
      match store.checkUnique model id (applyChanges before changes) with
      | .ok () => (.ok (applyChanges before changes),
          store.write model.resource id (applyChanges before changes))
      | .error error => (.error error, store) := by
  simp only [update, hid, run_run_bind, run_get, found, run_checkOwner, owned, if_true, run_ofExcept]
  cases store.checkUnique model id (applyChanges before changes) with
  | ok passed =>
    simp only [run_put]
    rfl
  | error error => rfl

/-- A deletion of a record that is there asks for its owner, and takes it out. -/
theorem run_delete (found : store.find? model.resource id = some before) :
    (delete model id caller).run.run store =
      if isOwnedBy before caller then (.ok before, store.remove model.resource id)
      else (.error (.notOwner model.resource id), store) := by
  have hget : (store.collection model.resource).get? id = some before := found
  simp only [delete, run_run_bind, run_get, get?_collections_of_find? found, hget, run_checkOwner]
  cases isOwnedBy before caller with
  | true => apply run_take found
  | false => rfl

end Access

/-- A call that passes every point returns its record and leaves the new store. -/
theorem Accepted.run_access {call : Call} (accepted : Accepted store call next record) :
    call.access.run.run store = (.ok record, next) := by
  cases accepted with
  | create hid absent unique =>
    rw [Call.access, Access.run_create hid absent, checkUnique_of_none unique]
  | update hid found owned unique =>
    rw [Call.access, Access.run_update hid found owned, checkUnique_of_none unique]
  | delete found owned =>
    rw [Call.access, Access.run_delete found, if_pos owned]

/-- A call that is refused at some point returns the error of that point, and leaves the store as it was,
with the collections that were there. -/
theorem Refused.run_access {call : Call} {error : StorageError} (refused : Refused store call error) :
    call.access.run.run store = (.error error, store) := by
  cases refused with
  | @createShape model freshId caller payload shape =>
    cases payload with
    | obj members => cases shape
    | _ => rfl
  | createTaken hid taken =>
    simp only [Call.access, Access.create, hid, run_run_bind, Access.run_get, taken]
    rfl
  | createClash hid absent clash =>
    rw [Call.access, Access.run_create hid absent, checkUnique_of_some clash]
  | @updateShape model caller payload shape =>
    cases payload with
    | obj changes => cases shape
    | _ => rfl
  | updateWithoutId hid =>
    simp only [Call.access, Access.update, hid]
    rfl
  | updateAbsent hid absent =>
    simp only [Call.access, Access.update, hid, run_run_bind, Access.run_get, absent]
    rfl
  | updateNotOwner hid found foreign =>
    simp only [Call.access, Access.update, hid, run_run_bind, Access.run_get, found,
      Access.run_checkOwner, foreign]
    rfl
  | updateClash hid found owned clash =>
    rw [Call.access, Access.run_update hid found owned, checkUnique_of_some clash]
  | deleteWithoutCollection absent =>
    simp only [Call.access, Access.delete, run_run_bind, Access.run_get, absent]
    rfl
  | @deleteAbsent model id caller collection present absent =>
    have hget : collection.get? id = none := by rwa [find?, collection_of_get? present] at absent
    simp only [Call.access, Access.delete, run_run_bind, Access.run_get, present, hget]
    rfl
  | deleteNotOwner found foreign =>
    rw [Call.access, Access.run_delete found, foreign]
    rfl

theorem accepted_or_refused_create (store : Store) (model : ModelHandle) (freshId : String)
    (payload : Json) (caller : String) :
    (∃ next record, Accepted store (.create model freshId payload caller) next record) ∨
      ∃ error, Refused store (.create model freshId payload caller) error := by
  cases payload with
  | obj members =>
    cases hfound : store.find? model.resource (idFor freshId members) with
    | some held => exact .inr ⟨_, .createTaken rfl hfound⟩
    | none =>
      cases hclash : clash? model (store.collection model.resource) (idFor freshId members)
          (stamped (idFor freshId members) caller members) with
      | some clash => exact .inr ⟨_, .createClash rfl hfound hclash⟩
      | none => exact .inl ⟨_, _, .create rfl hfound hclash⟩
  | _ => exact .inr ⟨_, .createShape rfl⟩

theorem accepted_or_refused_update (store : Store) (model : ModelHandle) (payload : Json)
    (caller : String) :
    (∃ next record, Accepted store (.update model payload caller) next record) ∨
      ∃ error, Refused store (.update model payload caller) error := by
  cases payload with
  | obj changes =>
    cases hid : (Entries.get? changes idField).bind Json.str? with
    | none => exact .inr ⟨_, .updateWithoutId hid⟩
    | some id =>
      cases hfound : store.find? model.resource id with
      | none => exact .inr ⟨_, .updateAbsent hid hfound⟩
      | some before =>
        cases howned : isOwnedBy before caller with
        | false => exact .inr ⟨_, .updateNotOwner hid hfound howned⟩
        | true =>
          cases hclash : clash? model (store.collection model.resource) id
              (applyChanges before changes) with
          | some clash => exact .inr ⟨_, .updateClash hid hfound howned hclash⟩
          | none => exact .inl ⟨_, _, .update hid hfound howned hclash⟩
  | _ => exact .inr ⟨_, .updateShape rfl⟩

theorem accepted_or_refused_delete (store : Store) (model : ModelHandle) (id caller : String) :
    (∃ next record, Accepted store (.delete model id caller) next record) ∨
      ∃ error, Refused store (.delete model id caller) error := by
  cases hcollection : store.collections.get? model.resource with
  | none => exact .inr ⟨_, .deleteWithoutCollection hcollection⟩
  | some collection =>
    cases hfound : store.find? model.resource id with
    | none => exact .inr ⟨_, .deleteAbsent hcollection hfound⟩
    | some before =>
      cases howned : isOwnedBy before caller with
      | false => exact .inr ⟨_, .deleteNotOwner hfound howned⟩
      | true => exact .inl ⟨_, _, .delete hfound howned⟩

/-- There is no call but those that pass every point and those that fail at one. -/
theorem accepted_or_refused (store : Store) (call : Call) :
    (∃ next record, Accepted store call next record) ∨ ∃ error, Refused store call error := by
  cases call with
  | create => apply accepted_or_refused_create
  | update => apply accepted_or_refused_update
  | delete => apply accepted_or_refused_delete

/-! ## What a call returns and leaves -/

variable {call : Call} {error : StorageError}

theorem run_access_eq_ok_iff :
    call.access.run.run store = (.ok record, next) ↔ Accepted store call next record := by
  constructor
  · intro h
    rcases accepted_or_refused store call with ⟨_, _, accepted⟩ | ⟨_, refused⟩
    · cases accepted.run_access.symm.trans h
      exact accepted
    · cases refused.run_access.symm.trans h
  · apply Accepted.run_access

theorem run_access_eq_error_iff :
    call.access.run.run store = (.error error, next) ↔ Refused store call error ∧ next = store := by
  constructor
  · intro h
    rcases accepted_or_refused store call with ⟨_, _, accepted⟩ | ⟨_, refused⟩
    · cases accepted.run_access.symm.trans h
    · cases refused.run_access.symm.trans h
      exact ⟨refused, rfl⟩
  · rintro ⟨refused, rfl⟩
    exact refused.run_access

theorem call_eq (store : Store) (call : Call) : store.call call = call.access.outcome store := by
  cases call <;> rfl

/-- The store that a call leaves, by what it comes to. -/
theorem run_access_eq (store : Store) (call : Call) :
    call.access.run.run store =
      match store.call call with
      | .ok (next, record) => (.ok record, next)
      | .error error => (.error error, store) := by
  rw [call_eq, Access.outcome]
  rcases accepted_or_refused store call with ⟨_, _, accepted⟩ | ⟨_, refused⟩
  · rw [accepted.run_access]
  · rw [refused.run_access]

theorem accepted_of_call (h : store.call call = .ok (next, record)) :
    Accepted store call next record := by
  have hrun := run_access_eq store call
  rw [h] at hrun
  exact run_access_eq_ok_iff.mp hrun

/-- An accepted call leaves the collections of other resources alone. -/
theorem Accepted.collection_of_ne (accepted : Accepted store call next record)
    (h : resource ≠ call.model.resource) : next.collection resource = store.collection resource := by
  cases accepted with
  | create => exact collection_write_of_ne h ..
  | update => exact collection_write_of_ne h ..
  | delete => exact collection_remove_of_ne h ..

end ResourceApi.Store

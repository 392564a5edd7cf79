import ResourceApi.Proofs.Store.Consistency

/-!
# What store calls change

A call that is accepted writes or removes the record of one identifier in one collection, and everything
else stays where it is: a new record goes to the end, a changed one keeps its place, and a removed one
leaves the others in their order.  Records are changed and removed for their owners only, so over a run a
record stays what its creator made of it.  Nothing is asked of the store but that no collection has an
identifier twice, and nothing of the payloads.
-/

namespace ResourceApi.Store

variable {store next : Store} {call : Call} {resource other id owner : String} {record : Json}

/-! ## Stores without repeated identifiers -/

/-- No collection of the store has an identifier twice. -/
def Keyed (store : Store) : Prop := ∀ resource, (store.collection resource).keys.Nodup

theorem keyed_empty : empty.Keyed := fun _ ↦ List.nodup_nil

theorem Keyed.write (h : store.Keyed) (resource id : String) (record : Json) :
    (store.write resource id record).Keyed := by
  intro other
  by_cases hother : other = resource
  · subst hother
    rw [collection_write_self]
    exact Entries.nodup_keys_put (h other)
  · rw [collection_write_of_ne hother]
    exact h other

theorem Keyed.remove (h : store.Keyed) (resource id : String) : (store.remove resource id).Keyed := by
  intro other
  by_cases hother : other = resource
  · subst hother
    rw [collection_remove_self]
    exact Entries.nodup_keys_erase (h other)
  · rw [collection_remove_of_ne hother]
    exact h other

/-- A store into which records are put as they are stays keyed. -/
theorem Keyed.insert (h : store.Keyed) (hinsert : store.insert resource record = .ok next) :
    next.Keyed := by
  obtain ⟨id, -, rfl⟩ := insert_eq_ok hinsert
  apply h.write

theorem Accepted.keyed (accepted : Accepted store call next record) (h : store.Keyed) : next.Keyed := by
  cases accepted with
  | create => exact h.write _ _ _
  | update => exact h.write _ _ _
  | delete => exact h.remove _ _

theorem Keyed.after (h : store.Keyed) (call : Call) : (store.after call).Keyed := by
  rcases after_cases store call with ⟨record, accepted⟩ | hsame
  · exact accepted.keyed h
  · rwa [hsame]

theorem Keyed.run (h : store.Keyed) (calls : List Call) : (store.run calls).Keyed :=
  List.foldlRecOn calls _ h fun _ hstore call _ ↦ hstore.after call

/-! ## One call -/

/-- The identifier of the record that a call is about. -/
def Call.id? : Call → Option String
  | .create _ freshId payload _ => payload.members?.map (idFor freshId)
  | .update _ payload _ => (payload.get? idField).bind Json.str?
  | .delete _ id _ => some id

/-- The record belongs to the given owner. -/
def IsOwner (record : Json) (owner : String) : Prop := record.get? ownerField = some (.str owner)

theorem isOwnedBy_iff : isOwnedBy record owner = true ↔ IsOwner record owner := by
  unfold isOwnedBy IsOwner
  cases hget : record.get? ownerField with
  | none => simp
  | some value => cases value <;> simp [Json.str?]

/-- What a call makes of the collection of its resource, by the identifier it is about and the record
that it returns.  The caller owns that record, and the one before it as well. -/
def Call.Changes (call : Call) (id : String) (record : Json) (before after : Collection) : Prop :=
  IsOwner record call.caller ∧
    match call with
    | .create .. => id ∉ before.keys ∧ after = before ++ [(id, record)]
    | .update .. => ∃ front held back, before = front ++ (id, held) :: back ∧
        after = front ++ (id, record) :: back ∧ IsOwner held call.caller
    | .delete .. => ∃ front back, before = front ++ (id, record) :: back ∧ after = front ++ back

/-- All that an accepted call does: it changes the collection of its resource, which is there from then
on, in the place of one identifier. -/
structure Effect (store : Store) (call : Call) (next : Store) (id : String) (record : Json) : Prop where
  names : call.id? = some id
  changes : call.Changes id record (store.collection call.model.resource)
    (next.collection call.model.resource)
  others : ∀ resource, resource ≠ call.model.resource →
    next.collection resource = store.collection resource
  resources : next.collections.keys =
    if call.model.resource ∈ store.collections.keys then store.collections.keys
    else store.collections.keys ++ [call.model.resource]

theorem keys_setCollection (store : Store) (resource : String) (collection : Collection) :
    (store.setCollection resource collection).collections.keys =
      if resource ∈ store.collections.keys then store.collections.keys
      else store.collections.keys ++ [resource] := by
  unfold setCollection
  split
  · rename_i hmem
    exact Entries.put_of_mem hmem
  · rename_i hmem
    rw [Entries.put_of_not_mem hmem, Entries.keys_append]
    rfl

theorem exists_place (h : store.find? resource id = some record) :
    ∃ front back, store.collection resource = front ++ (id, record) :: back ∧
      (∀ later, Entries.put id later (store.collection resource) = front ++ (id, later) :: back) ∧
      Entries.erase id (store.collection resource) = front ++ back := by
  obtain ⟨front, back, hsplit, hfront⟩ := Entries.exists_split h
  rw [hsplit]
  exact ⟨front, back, rfl, fun later ↦ Entries.put_append_cons hfront back,
    Entries.erase_append_cons hfront back⟩

theorem Accepted.exists_effect (accepted : Accepted store call next record) :
    ∃ id, Effect store call next id record := by
  cases accepted with
  | @create model freshId caller id members hid absent unique =>
    have habsent : id ∉ (store.collection model.resource).keys := Entries.get?_eq_none_iff.mp absent
    refine ⟨id, congrArg some hid, ⟨get?_stamped_owner .., habsent, ?_⟩,
      fun resource h ↦ collection_write_of_ne h .., keys_setCollection ..⟩
    rw [Call.model, collection_write_self, Entries.put_of_not_mem habsent]
  | @update model caller id changes before hid found owned unique =>
    obtain ⟨front, back, hbefore, hput, -⟩ := exists_place found
    have howner := isOwnedBy_iff.mp owned
    have hlater := (get?_owner_applyChanges before changes).trans howner
    refine ⟨id, hid, ⟨hlater, front, before, back, hbefore, ?_, howner⟩,
      fun resource h ↦ collection_write_of_ne h .., keys_setCollection ..⟩
    rw [Call.model, collection_write_self, hput]
  | @delete model id caller before found owned =>
    obtain ⟨front, back, hbefore, -, herase⟩ := exists_place found
    refine ⟨id, rfl, ⟨isOwnedBy_iff.mp owned, front, back, hbefore, ?_⟩,
      fun resource h ↦ collection_remove_of_ne h .., keys_setCollection ..⟩
    rw [Call.model, collection_remove_self, herase]

/-! ## Runs -/

/-- A call leaves a record that is held, or its owner has made it, and then the record is still held by
the owner, or it is gone. -/
theorem HeldBy.after (keyed : store.Keyed) (held : store.HeldBy resource id owner) (call : Call) :
    (store.after call).find? resource id = store.find? resource id ∨
      call.caller = owner ∧ ((store.after call).HeldBy resource id owner ∨
        (store.after call).find? resource id = none) := by
  obtain ⟨record, hfind, howner⟩ := held
  rcases after_cases store call with ⟨returned, accepted⟩ | hsame
  · generalize store.after call = next at accepted ⊢
    cases accepted with
    | @create model freshId caller newId members hid absent unique =>
      left
      refine find?_write_of_ne (fun ⟨hresource, hid⟩ ↦ ?_) ..
      subst hresource hid
      cases hfind.symm.trans absent
    | @update model caller changedId changes before hid found owned unique =>
      by_cases haffected : resource = model.resource ∧ id = changedId
      · obtain ⟨rfl, rfl⟩ := haffected
        obtain rfl : record = before := Option.some.inj (hfind.symm.trans found)
        have hcaller : some (Json.str owner) = some (.str caller) :=
          howner.symm.trans (isOwnedBy_iff.mp owned)
        cases hcaller
        have hlater := (get?_owner_applyChanges record changes).trans howner
        exact .inr ⟨rfl, .inl ⟨_, find?_write_self .., hlater⟩⟩
      · exact .inl (find?_write_of_ne haffected ..)
    | @delete model goneId caller before found owned =>
      by_cases haffected : resource = model.resource ∧ id = goneId
      · obtain ⟨rfl, rfl⟩ := haffected
        obtain rfl : record = returned := Option.some.inj (hfind.symm.trans found)
        have hcaller : some (Json.str owner) = some (.str caller) :=
          howner.symm.trans (isOwnedBy_iff.mp owned)
        cases hcaller
        exact .inr ⟨rfl, .inr (find?_remove_self (keyed _))⟩
      · exact .inl (find?_remove_of_ne haffected ..)
  · exact .inl (by rw [hsame])

/-- A record that is there all through a run stays with its owner. -/
theorem HeldBy.run (keyed : store.Keyed) (held : store.HeldBy resource id owner) (calls : List Call)
    (present : ∀ done, done <+: calls → (store.run done).find? resource id ≠ none) :
    (store.run calls).HeldBy resource id owner := by
  induction calls using List.reverseRecOn with
  | nil => exact held
  | append_singleton front call ih =>
    have hfront := ih fun done hdone ↦ present done (hdone.trans (List.prefix_append front [call]))
    have hnow := present _ List.prefix_rfl
    rw [run_concat] at hnow ⊢
    rcases hfront.after (keyed.run front) call with hsame | ⟨-, hheld | hgone⟩
    · obtain ⟨record, hfind, howner⟩ := hfront
      exact ⟨record, hsame.trans hfind, howner⟩
    · exact hheld
    · exact absurd hgone hnow

theorem Effect.heldBy {model : ModelHandle} {freshId : String} {payload : Json} {caller : String}
    (effect : Effect store (.create model freshId payload caller) next id record) :
    next.HeldBy model.resource id caller := by
  obtain ⟨howner, habsent, hafter⟩ := effect.changes
  refine ⟨record, ?_, howner⟩
  change Entries.get? (next.collection model.resource) id = _
  rw [show next.collection model.resource = _ from hafter, Entries.get?_append,
    Entries.get?_eq_none_iff.mpr habsent, Entries.get?_cons]
  simp

/-- A call that ends in an error has failed at one of its points, and what it leaves then is the store
that it found, with the same collections; what the call comes to says so.  An accepted call changes nothing
but the entry of one identifier in the collection of its resource, and that for the owner of the record
only.  So from its creation on, a record is changed or removed by no one but its creator, as long as it is
there. -/
theorem call_guarded (store : Store) (keyed : store.Keyed) :
    (∀ call error left, call.access.run.run store = (.error error, left) ↔
      Refused store call error ∧ left = store) ∧
    (∀ call, call.access.run.run store =
      match store.call call with
      | .ok (next, record) => (.ok record, next)
      | .error error => (.error error, store)) ∧
    (∀ call error, store.call call = .error error → store.after call = store) ∧
    (∀ call next record, store.call call = .ok (next, record) →
      store.after call = next ∧ ∃ id, Effect store call next id record) ∧
    ∀ before model freshId payload creator next record id since,
      (store.run before).call (.create model freshId payload creator) = .ok (next, record) →
      (Call.create model freshId payload creator).id? = some id →
      (∀ done, done <+: since → (next.run done).find? model.resource id ≠ none) →
      ∀ call, ((next.run since).after call).find? model.resource id ≠
          (next.run since).find? model.resource id → call.caller = creator := by
  refine ⟨fun call error left ↦ run_access_eq_error_iff, run_access_eq store, fun call error h ↦ ?_,
    fun call next record h ↦ ⟨?_, ?_⟩, ?_⟩
  · rw [after_eq, h]
  · rw [after_eq, h]
  · exact (accepted_of_call h).exists_effect
  · intro before model freshId payload creator next record id since hcreate hid present call hchanged
    have accepted := accepted_of_call hcreate
    obtain ⟨id', effect⟩ := accepted.exists_effect
    obtain rfl : id = id' := Option.some.inj (hid.symm.trans effect.names)
    have hkeyed := accepted.keyed (keyed.run before)
    have hheld := effect.heldBy.run hkeyed since present
    exact ((hheld.after (hkeyed.run since) call).resolve_left hchanged).1

/-- A seeded store refuses a taken value and another's deletion, and it is left as it was; so it is by calls
for a resource that has no collection.  It gives its owner a change, and then keeps what Ann has made from
the others. -/
theorem call_guarded_users :
    let user : ModelHandle := ⟨"User", ["email"]⟩
    let team : ModelHandle := ⟨"Team", []⟩
    let seeded : Json := .obj [("id", .str "0"), ("owner", .str "eve"), ("email", .str "a")]
    let store := empty.write "User" "0" seeded
    let made : Json := .obj [("email", .str "b"), ("id", .str "1"), ("owner", .str "ann")]
    let taken : Call := .create user "1" (.obj [("email", .str "a")]) "ann"
    store.Keyed ∧
    taken.access.run.run store = (.error (.alreadyExists "User" "email" "\"a\""), store) ∧
    (Call.delete user "0" "bob").access.run.run store = (.error (.notOwner "User" "0"), store) ∧
    (Call.create team "1" (.str "t") "ann").access.run.run store =
      (.error (.invalidRecord .payloadNotObject), store) ∧
    (Call.delete team "0" "bob").access.run.run store = (.error (.notFound "Team" "0"), store) ∧
    store.collections.keys = ["User"] ∧
    store.after taken = store ∧
    store.after (.delete user "0" "bob") = store ∧
    (∃ id, Effect store (.create user "1" (.obj [("email", .str "b")]) "ann")
      ⟨[("User", [("0", seeded), ("1", made)])]⟩ id made) ∧
    ∀ call, ((store.run [.create user "1" (.obj [("email", .str "b")]) "ann",
        .delete user "0" "eve"]).after call).find? "User" "1" ≠ some made → call.caller = "ann" := by
  intro user team seeded store made taken
  have keyed : store.Keyed := keyed_empty.write _ _ _
  obtain ⟨hrefused, -, hkept, haccepted, hcreator⟩ := call_guarded store keyed
  have hcreate : store.call (.create user "1" (.obj [("email", .str "b")]) "ann") =
      .ok (⟨[("User", [("0", seeded), ("1", made)])]⟩, made) := rfl
  refine ⟨keyed, (hrefused _ _ _).mpr ⟨?_, rfl⟩, (hrefused _ _ _).mpr ⟨?_, rfl⟩,
    (hrefused _ _ _).mpr ⟨?_, rfl⟩, (hrefused _ _ _).mpr ⟨?_, rfl⟩, rfl,
    hkept _ (.alreadyExists "User" "email" "\"a\"") rfl,
    hkept _ (.notOwner "User" "0") rfl, (haccepted _ _ _ hcreate).2, fun call hchanged ↦ ?_⟩
  · exact @Refused.createClash store user "1" "ann" "1" "email" [("email", .str "a")] (.str "a") rfl rfl rfl
  · exact @Refused.deleteNotOwner store user "0" "bob" seeded rfl rfl
  · exact .createShape rfl
  · exact .deleteWithoutCollection rfl
  · refine hcreator [] user "1" _ "ann" _ made "1" [.delete user "0" "eve"] hcreate rfl ?_ call hchanged
    intro done hdone
    rcases List.prefix_cons_iff.mp hdone with rfl | ⟨rest, rfl, hrest⟩
    · exact Option.some_ne_none made
    · obtain rfl := List.prefix_nil.mp hrest
      exact Option.some_ne_none made

end ResourceApi.Store

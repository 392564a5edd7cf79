import ResourceApi.Proofs.Store.Run

/-!
# Consistency of a store over whole runs

In every store that calls lead to from the empty one, a record is an object kept under its own
identifier, its owner is the caller that created it, and no two records of a resource hold equal values
in a unique field.  The first two facts need no more than well-formed payloads; uniqueness needs that
all calls on a resource name the same unique fields.
-/

namespace ResourceApi.Store

/-! ## Changing a record -/

theorem get?_stamped_id (id caller : String) (members : Entries Json) :
    (stamped id caller members).get? idField = some (.str id) := by
  change Entries.get? _ idField = _
  rw [Entries.get?_put_of_ne _ _ (by decide), Entries.get?_put_self]

theorem get?_stamped_owner (id caller : String) (members : Entries Json) :
    (stamped id caller members).get? ownerField = some (.str caller) :=
  Entries.get?_put_self ..

theorem wellFormed_stamped {members : Entries Json} (h : (Json.obj members).WellFormed)
    (id caller : String) : (stamped id caller members).WellFormed :=
  (h.put (Json.wellFormed_str id)).put (Json.wellFormed_str caller)

/-- A change writes every member but the owner, which stays as it is. -/
theorem get?_applyChanges {members changes : Entries Json} (distinct : changes.keys.Nodup)
    (key : String) :
    (applyChanges (.obj members) changes).get? key =
      if key = ownerField then Entries.get? members key
      else (Entries.get? changes key).or (Entries.get? members key) := by
  change Entries.get? (changes.foldl _ members) key = _
  induction changes generalizing members with
  | nil => simp
  | cons change rest ih =>
    obtain ⟨k, value⟩ := change
    obtain ⟨hk, hrest⟩ := List.nodup_cons.mp distinct
    rw [List.foldl_cons, ih hrest, Entries.get?_cons]
    by_cases howner : key = ownerField
    · by_cases hkey : k = ownerField
      · simp [howner, hkey]
      · simp [howner, hkey, Entries.get?_put_of_ne _ _ (Ne.symm hkey)]
    · by_cases hkey : key = k
      · subst hkey
        simp [howner, Entries.get?_eq_none_iff.mpr hk, Entries.get?_put_self]
      · by_cases hk' : k = ownerField
        · simp [howner, hk']
        · simp [howner, hkey, hk', Entries.get?_put_of_ne _ _ hkey]

/-- No change touches the owner. -/
theorem get?_owner_applyChanges (record : Json) (changes : Entries Json) :
    (applyChanges record changes).get? ownerField = record.get? ownerField := by
  cases record with
  | obj members =>
    change Entries.get? (changes.foldl _ members) ownerField = Entries.get? members ownerField
    induction changes generalizing members with
    | nil => rfl
    | cons change rest ih =>
      obtain ⟨key, value⟩ := change
      rw [List.foldl_cons, ih]
      by_cases hkey : key = ownerField
      · simp [hkey]
      · simp [hkey, Entries.get?_put_of_ne _ _ (Ne.symm hkey)]
  | _ => rfl

theorem wellFormed_applyChanges {record : Json} {changes : Entries Json}
    (hrecord : record.WellFormed) (hchanges : (Json.obj changes).WellFormed) :
    (applyChanges record changes).WellFormed := by
  cases record with
  | obj members =>
    have hvalues := (Json.wellFormed_obj.mp hchanges).2
    clear hchanges
    change (Json.obj (changes.foldl _ members)).WellFormed
    induction changes generalizing members with
    | nil => exact hrecord
    | cons change rest ih =>
      obtain ⟨key, value⟩ := change
      rw [List.forall_mem_cons] at hvalues
      by_cases howner : key = ownerField
      · simpa [howner] using ih _ hrecord hvalues.2
      · simpa [howner] using ih _ (hrecord.put hvalues.1) hvalues.2
  | _ => exact hrecord

/-! ## Records under their identifiers -/

/-- The record is a value with the identifier as its own and with an owner. -/
structure RecordSound (id : String) (record : Json) : Prop where
  wellFormed : record.WellFormed
  id : record.get? idField = some (.str id)
  owner : ∃ owner, record.get? ownerField = some (.str owner)

theorem RecordSound.isObject {id : String} {record : Json} (h : RecordSound id record) :
    record.isObject = true := by
  cases record with
  | obj members => rfl
  | _ => cases h.id

theorem recordSound_stamped {members : Entries Json} (h : (Json.obj members).WellFormed)
    (id caller : String) : RecordSound id (stamped id caller members) :=
  ⟨wellFormed_stamped h id caller, get?_stamped_id .., caller, get?_stamped_owner ..⟩

theorem recordSound_applyChanges {id : String} {record : Json} {changes : Entries Json}
    (h : RecordSound id record) (hchanges : (Json.obj changes).WellFormed)
    (hid : (Entries.get? changes idField).bind Json.str? = some id) :
    RecordSound id (applyChanges record changes) := by
  refine ⟨wellFormed_applyChanges h.wellFormed hchanges, ?_, ?_⟩
  · cases record with
    | obj members =>
      obtain ⟨value, hvalue, hstr⟩ := Option.bind_eq_some_iff.mp hid
      obtain rfl : value = .str id := by
        cases value <;> simp_all [Json.str?]
      rw [get?_applyChanges (Json.wellFormed_obj.mp hchanges).1, if_neg (by decide), hvalue]
      rfl
    | _ => cases h.id
  · rw [get?_owner_applyChanges]
    exact h.owner

end ResourceApi.Store

namespace ResourceApi

/-- Every identifier occurs once, and every record is sound under its own. -/
structure Collection.Sound (collection : Collection) : Prop where
  distinct : collection.keys.Nodup
  records : ∀ id record, (id, record) ∈ collection → Store.RecordSound id record

namespace Collection.Sound

variable {collection : Collection} {id : String} {record : Json}

theorem empty : Collection.Sound [] :=
  ⟨List.nodup_nil, fun _ _ h ↦ nomatch h⟩

theorem put (h : collection.Sound) (hrecord : Store.RecordSound id record) :
    Collection.Sound (Entries.put id record collection) := by
  refine ⟨Entries.nodup_keys_put h.distinct, fun other held hmem ↦ ?_⟩
  rcases (Entries.mem_put h.distinct).mp hmem with ⟨rfl, rfl⟩ | ⟨-, hold⟩
  · exact hrecord
  · exact h.records other held hold

theorem erase (h : collection.Sound) : Collection.Sound (Entries.erase id collection) :=
  ⟨Entries.nodup_keys_erase h.distinct,
    fun other held hmem ↦ h.records other held (Entries.erase_sublist.subset hmem)⟩

theorem of_get? (h : collection.Sound) (hget : collection.get? id = some record) :
    Store.RecordSound id record :=
  h.records id record (Entries.mem_of_get? hget)

end Collection.Sound

namespace Store

/-- An accepted call leaves every collection sound. -/
theorem Accepted.sound {store next : Store} {call : Call} {record : Json}
    (hcall : call.WellFormed) (h : ∀ resource, (store.collection resource).Sound)
    (accepted : Accepted store call next record) (resource : String) :
    (next.collection resource).Sound := by
  by_cases hresource : resource = call.model.resource
  · subst hresource
    have hsound := h call.model.resource
    cases accepted with
    | create hid absent unique =>
      rw [Call.model, collection_write_self]
      exact hsound.put (recordSound_stamped hcall ..)
    | update hid found owned unique =>
      rw [Call.model, collection_write_self]
      exact hsound.put (recordSound_applyChanges (hsound.of_get? found) hcall hid)
    | delete found owned =>
      rw [Call.model, collection_remove_self]
      exact hsound.erase
  · rw [accepted.collection_of_ne hresource]
    exact h resource

theorem sound_run {calls : List Call} (h : ∀ call ∈ calls, call.WellFormed) (resource : String) :
    ((empty.run calls).collection resource).Sound :=
  run_induction (motive := fun store ↦ ∀ resource, (store.collection resource).Sound)
    Call.WellFormed (fun _ ↦ Collection.Sound.empty) (fun hcall hsound accepted ↦ accepted.sound hcall hsound)
    calls h resource

/-! ## Unique fields -/

theorem clashes_eq_false {collection : Collection} {model : ModelHandle} {id field : String}
    {candidate value : Json} (h : clash? model collection id candidate = none)
    (hfield : field ∈ model.unique) (hvalue : candidate.get? field = some value)
    (hnull : value ≠ .null) : clashes collection id field value = false := by
  have hnone := List.findSome?_eq_none_iff.mp h field hfield
  rw [hvalue] at hnone
  cases value with
  | null => exact absurd rfl hnull
  | _ => simpa using hnone

theorem equal_eq_false_of_clashes {collection : Collection} {id other field : String}
    {value held found : Json} (h : clashes collection id field value = false)
    (hmem : (other, held) ∈ collection) (hother : other ≠ id) (hget : held.get? field = some found) :
    found.equal value = false := by
  have hheld := List.any_eq_false.mp h _ hmem
  simpa [hother, hget] using hheld

end Store

/-- No two records hold equal values in the field, null apart. -/
def Collection.UniqueIn (collection : Collection) (field : String) : Prop :=
  ∀ a ∈ collection, ∀ b ∈ collection, a.1 ≠ b.1 → ∀ x y, a.2.get? field = some x →
    b.2.get? field = some y → x ≠ .null → x.equal y = false

theorem Json.equal_null {value : Json} (h : value ≠ .null) : value.equal .null = false := by
  cases value <;> first | rfl | exact absurd rfl h

/-- A record whose value clashes with no other may be written. -/
theorem Collection.UniqueIn.put {collection : Collection} {id field : String} {record : Json}
    (h : collection.UniqueIn field) (hsound : collection.Sound) (hrecord : record.WellFormed)
    (hclash : ∀ value, record.get? field = some value → value ≠ .null →
      Store.clashes collection id field value = false) :
    Collection.UniqueIn (Entries.put id record collection) field := by
  rintro ⟨i, a⟩ ha ⟨j, b⟩ hb hne x y hx hy hnull
  rw [Entries.mem_put hsound.distinct] at ha hb
  rcases ha with ⟨rfl, rfl⟩ | ⟨hi, ha⟩ <;> rcases hb with ⟨rfl, rfl⟩ | ⟨hj, hb⟩
  · exact absurd rfl hne
  · have hback := Store.equal_eq_false_of_clashes (hclash x hx hnull) hb hj hy
    have hwf := (hsound.records j b hb).wellFormed.get? hy
    rw [Bool.eq_false_iff] at hback ⊢
    exact fun heq ↦ hback (Json.equal_symm (hrecord.get? hx) hwf heq)
  · by_cases hy' : y = .null
    · rw [hy']
      exact Json.equal_null hnull
    · exact Store.equal_eq_false_of_clashes (hclash y hy hy') ha hi hx
  · exact h _ ha _ hb hne x y hx hy hnull

theorem Collection.UniqueIn.erase {collection : Collection} {id field : String}
    (h : collection.UniqueIn field) : Collection.UniqueIn (Entries.erase id collection) field :=
  fun a ha b hb ↦ h a (Entries.erase_sublist.subset ha) b (Entries.erase_sublist.subset hb)

namespace Store

/-- Calls whose handles name the unique fields of their resource keep these unique. -/
theorem Accepted.uniqueIn {store next : Store} {call : Call} {record : Json}
    {unique : String → List String} (hcall : call.WellFormed)
    (hmodel : call.model.unique = unique call.model.resource)
    (hsound : ∀ resource, (store.collection resource).Sound)
    (h : ∀ resource, ∀ field ∈ unique resource, (store.collection resource).UniqueIn field)
    (accepted : Accepted store call next record) (resource field : String)
    (hfield : field ∈ unique resource) : (next.collection resource).UniqueIn field := by
  by_cases hresource : resource = call.model.resource
  · subst hresource
    have hcollection := hsound call.model.resource
    have hunique := h _ field hfield
    rw [← hmodel] at hfield
    cases accepted with
    | create hid absent noClash =>
      rw [Call.model, collection_write_self]
      exact hunique.put hcollection (wellFormed_stamped hcall ..)
        (fun value ↦ clashes_eq_false noClash hfield)
    | update hid found owned noClash =>
      rw [Call.model, collection_write_self]
      exact hunique.put hcollection
        (wellFormed_applyChanges (hcollection.of_get? found).wellFormed hcall)
        (fun value ↦ clashes_eq_false noClash hfield)
    | delete found owned =>
      rw [Call.model, collection_remove_self]
      exact hunique.erase
  · rw [accepted.collection_of_ne hresource]
    exact h resource field hfield

/-! ## Owners -/

/-- The identifier is taken by a record of the given owner. -/
def HeldBy (store : Store) (resource id caller : String) : Prop :=
  ∃ record, store.find? resource id = some record ∧ record.get? ownerField = some (.str caller)

/-- The record under an identifier goes back to a creation in the run: since that call it has always
been there, with the caller of the creation as its owner. -/
def OwnedSince (calls : List Call) (resource id caller : String) : Prop :=
  ∃ before model freshId payload after,
    calls = before ++ .create model freshId payload caller :: after ∧
    model.resource = resource ∧
    (empty.run before).find? resource id = none ∧
    ∀ done, done <+: after →
      (empty.run (before ++ .create model freshId payload caller :: done)).HeldBy resource id caller

/-- A record that an accepted call leaves was there before with the same owner, or the call is its
creation. -/
theorem Accepted.heldBy_cases {store next : Store} {call : Call} {record : Json}
    {resource id caller : String} (hsound : ∀ resource, (store.collection resource).Sound)
    (accepted : Accepted store call next record) (h : next.HeldBy resource id caller) :
    store.HeldBy resource id caller ∨
      store.find? resource id = none ∧ ∃ model freshId payload,
        call = .create model freshId payload caller ∧ model.resource = resource := by
  obtain ⟨held, hfind, howner⟩ := h
  cases accepted with
  | create hid absent unique =>
    rename_i model freshId creator newId members
    by_cases haffected : resource = model.resource ∧ id = newId
    · obtain ⟨rfl, rfl⟩ := haffected
      rw [find?_write_self, Option.some_inj] at hfind
      subst hfind
      rw [get?_stamped_owner] at howner
      cases howner
      exact .inr ⟨absent, model, freshId, _, rfl, rfl⟩
    · rw [find?_write_of_ne haffected] at hfind
      exact .inl ⟨held, hfind, howner⟩
  | update hid found owned unique =>
    rename_i model updater newId changes before
    by_cases haffected : resource = model.resource ∧ id = newId
    · obtain ⟨rfl, rfl⟩ := haffected
      rw [find?_write_self, Option.some_inj] at hfind
      subst hfind
      rw [get?_owner_applyChanges] at howner
      exact .inl ⟨before, found, howner⟩
    · rw [find?_write_of_ne haffected] at hfind
      exact .inl ⟨held, hfind, howner⟩
  | delete found owned =>
    rename_i model goneId deleter
    by_cases haffected : resource = model.resource ∧ id = goneId
    · obtain ⟨rfl, rfl⟩ := haffected
      rw [find?_remove_self (hsound _).distinct] at hfind
      cases hfind
    · rw [find?_remove_of_ne haffected] at hfind
      exact .inl ⟨held, hfind, howner⟩

/-- One more call keeps the history of a record that it leaves. -/
theorem OwnedSince.concat {calls : List Call} {call : Call} {resource id caller : String}
    (h : OwnedSince calls resource id caller)
    (hheld : (empty.run (calls ++ [call])).HeldBy resource id caller) :
    OwnedSince (calls ++ [call]) resource id caller := by
  obtain ⟨before, model, freshId, payload, after, rfl, hresource, habsent, hsince⟩ := h
  refine ⟨before, model, freshId, payload, after ++ [call], by simp, hresource, habsent, ?_⟩
  intro done hdone
  rcases List.prefix_concat_iff.mp hdone with rfl | hdone
  · simpa using hheld
  · exact hsince done hdone

theorem ownedSince_of_heldBy {calls : List Call} (h : ∀ call ∈ calls, call.WellFormed)
    {resource id caller : String} (hheld : (empty.run calls).HeldBy resource id caller) :
    OwnedSince calls resource id caller := by
  induction calls using List.reverseRecOn with
  | nil => exact absurd hheld (by rintro ⟨record, hfind, -⟩; cases hfind)
  | append_singleton front call ih =>
    have hfront := (List.forall_mem_append.mp h).1
    have hnow := hheld
    rw [run_concat] at hheld
    rcases after_cases (empty.run front) call with ⟨record, accepted⟩ | hsame
    · rcases accepted.heldBy_cases (sound_run hfront) hheld with
        hbefore | ⟨habsent, model, freshId, payload, rfl, hresource⟩
      · exact (ih hfront hbefore).concat hnow
      · refine ⟨front, model, freshId, payload, [], rfl, hresource, habsent, ?_⟩
        rintro done hdone
        obtain rfl := List.prefix_nil.mp hdone
        exact hnow
    · rw [hsame] at hheld
      exact (ih hfront hheld).concat hnow

/-! ## Every run -/

/-- In every store that well-formed calls lead to, when all calls on a resource name the same unique
fields: identifiers occur once, a record is an object under its own identifier, it belongs to the
caller that created it and has done so ever since, and unique fields hold no value twice. -/
theorem run_consistent (unique : String → List String) (calls : List Call)
    (wellFormed : ∀ call ∈ calls, call.WellFormed)
    (handles : ∀ call ∈ calls, call.model.unique = unique call.model.resource)
    (resource : String) :
    let records := (empty.run calls).collection resource
    records.keys.Nodup ∧
    (∀ id record, (id, record) ∈ records →
      record.isObject = true ∧ record.get? idField = some (.str id) ∧
      ∃ caller, record.get? ownerField = some (.str caller) ∧
        OwnedSince calls resource id caller) ∧
    ∀ field ∈ unique resource, records.UniqueIn field := by
  have hsound := sound_run wellFormed resource
  refine ⟨hsound.distinct, fun id record hmem ↦ ?_, ?_⟩
  · have hrecord := hsound.records id record hmem
    obtain ⟨caller, hcaller⟩ := hrecord.owner
    refine ⟨hrecord.isObject, hrecord.id, caller, hcaller, ?_⟩
    exact ownedSince_of_heldBy wellFormed
      ⟨record, Entries.get?_of_mem hsound.distinct hmem, hcaller⟩
  · have hboth := run_induction
      (motive := fun store ↦ ∀ resource, (store.collection resource).Sound ∧
        ∀ field ∈ unique resource, (store.collection resource).UniqueIn field)
      (fun call ↦ call.WellFormed ∧ call.model.unique = unique call.model.resource)
      (fun _ ↦ ⟨Collection.Sound.empty, fun _ _ _ ha ↦ nomatch ha⟩)
      (fun hcall hstore accepted resource ↦
        ⟨accepted.sound hcall.1 (fun r ↦ (hstore r).1) resource,
          accepted.uniqueIn hcall.1 hcall.2 (fun r ↦ (hstore r).1) (fun r ↦ (hstore r).2) resource⟩)
      calls (fun call hcall ↦ ⟨wellFormed call hcall, handles call hcall⟩)
    exact (hboth resource).2

/-- The run below tries to take an owner and a unique value away; the last call takes over a value that
was given up. -/
theorem run_consistent_users :
    let user : ModelHandle := ⟨"User", ["email"]⟩
    let calls : List Call := [
      .create user "1" (.obj [("email", .str "a"), ("owner", .str "eve")]) "ann",
      .create user "2" (.obj [("email", .str "a")]) "bob",
      .update user (.obj [("owner", .str "bob"), ("id", .str "1"), ("email", .null)]) "ann",
      .delete user "1" "bob",
      .create user "3" (.obj [("email", .str "a")]) "bob"]
    (∀ call ∈ calls, call.WellFormed) ∧
    (∀ call ∈ calls, call.model.unique = ["email"]) ∧
    ((empty.run calls).collection "User").keys = ["1", "3"] ∧
    ((empty.run calls).collection "User").UniqueIn "email" := by
  intro user calls
  have wellFormed : ∀ call ∈ calls, call.WellFormed := by
    simp [calls, Call.WellFormed, Json.WellFormed, Json.WellFormedMembers]
  have handles : ∀ call ∈ calls, call.model.unique = ["email"] := by
    simp [calls, user, Call.model]
  exact ⟨wellFormed, handles, by decide,
    (run_consistent (fun _ ↦ ["email"]) calls wellFormed handles "User").2.2 "email" (by simp)⟩

end Store
end ResourceApi

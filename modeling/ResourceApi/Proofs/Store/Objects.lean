import ResourceApi.Proofs.Store.Frame

/-!
# Stores of objects

Whatever is put into a store is an object: a payload has to be one, a record with changes is one if it was
one before, and a record that is put in as it is has to bring an identifier.  So calls lead from stores of
objects to stores of objects, return objects, and what is read of such a store are objects.
-/

namespace ResourceApi

namespace Entries

variable {α : Type} {entries : Entries α} {entry : String × α} {key : String} {value : α}

theorem mem_of_mem_put (h : entry ∈ put key value entries) : entry.2 = value ∨ entry ∈ entries := by
  induction entries with
  | nil => exact .inl (congrArg Prod.snd (List.mem_singleton.mp h))
  | cons first rest ih =>
    rw [put] at h
    split at h
    · rcases List.mem_cons.mp h with rfl | hrest
      · exact .inl rfl
      · exact .inr (List.mem_cons_of_mem _ hrest)
    · rcases List.mem_cons.mp h with rfl | hrest
      · exact .inr List.mem_cons_self
      · exact (ih hrest).imp id (List.mem_cons_of_mem _)

end Entries

namespace Store

variable {store next : Store} {call : Call} {resource id : String} {record : Json}

/-- Every record of the store is an object. -/
def HoldsObjects (store : Store) : Prop :=
  ∀ resource, ∀ entry ∈ store.collection resource, entry.2.isObject = true

theorem holdsObjects_empty : empty.HoldsObjects := fun _ _ hmem ↦ (List.not_mem_nil hmem).elim

theorem HoldsObjects.find? (h : store.HoldsObjects) (hfind : store.find? resource id = some record) :
    record.isObject = true :=
  h _ _ (Entries.mem_of_get? hfind)

/-! ## Writing -/

theorem HoldsObjects.write (h : store.HoldsObjects) (hrecord : record.isObject = true)
    (resource id : String) : (store.write resource id record).HoldsObjects := by
  intro other entry hmem
  by_cases hother : other = resource
  · subst hother
    rw [collection_write_self] at hmem
    rcases Entries.mem_of_mem_put hmem with hvalue | hmem
    · rwa [hvalue]
    · exact h _ _ hmem
  · rw [collection_write_of_ne hother] at hmem
    exact h _ _ hmem

theorem HoldsObjects.remove (h : store.HoldsObjects) (resource id : String) :
    (store.remove resource id).HoldsObjects := by
  intro other entry hmem
  by_cases hother : other = resource
  · subst hother
    rw [collection_remove_self] at hmem
    exact h _ _ (Entries.erase_sublist.subset hmem)
  · rw [collection_remove_of_ne hother] at hmem
    exact h _ _ hmem

theorem HoldsObjects.insert (h : store.HoldsObjects) (hinsert : store.insert resource record = .ok next) :
    next.HoldsObjects := by
  obtain ⟨id, hid, rfl⟩ := insert_eq_ok hinsert
  apply h.write
  cases record with
  | obj members => rfl
  | _ => cases hid

/-! ## Calls -/

theorem isObject_applyChanges (record : Json) (changes : Entries Json) :
    (applyChanges record changes).isObject = record.isObject := by
  cases record <;> rfl

/-- What an accepted call returns is an object. -/
theorem Accepted.isObject (accepted : Accepted store call next record) (h : store.HoldsObjects) :
    record.isObject = true := by
  cases accepted with
  | create => rfl
  | update hid found =>
    rw [isObject_applyChanges]
    exact h.find? found
  | delete found => exact h.find? found

theorem Accepted.holdsObjects (accepted : Accepted store call next record) (h : store.HoldsObjects) :
    next.HoldsObjects := by
  have hrecord := accepted.isObject h
  cases accepted with
  | create => exact h.write hrecord _ _
  | update => exact h.write hrecord _ _
  | delete => exact h.remove _ _

theorem HoldsObjects.after (h : store.HoldsObjects) (call : Call) : (store.after call).HoldsObjects := by
  rcases after_cases store call with ⟨record, accepted⟩ | hsame
  · exact accepted.holdsObjects h
  · rwa [hsame]

theorem HoldsObjects.run (h : store.HoldsObjects) (calls : List Call) : (store.run calls).HoldsObjects :=
  List.foldlRecOn calls _ h fun _ hstore call _ ↦ hstore.after call

/-! ## Reading -/

theorem HoldsObjects.accepted (h : store.HoldsObjects) {filter : Json}
    (hmem : record ∈ store.accepted resource filter) : record.isObject = true := by
  obtain ⟨entry, hentry, rfl⟩ := List.mem_map.mp (List.mem_filter.mp hmem).1
  exact h _ _ hentry

theorem isObject_project (fields : List String) (record : Json) :
    (project fields record).isObject = record.isObject := by
  cases record <;> rfl

theorem mem_of_mem_page {options : FindOptions} {records : List Json} (h : record ∈ page options records) :
    record ∈ records := by
  unfold page at h
  split at h
  · exact List.mem_of_mem_drop (List.mem_of_mem_take h)
  · exact List.mem_of_mem_drop h

theorem HoldsObjects.find (h : store.HoldsObjects) {filter : Json} {options : FindOptions}
    (hmem : record ∈ store.find resource filter options) : record.isObject = true := by
  have hfound {record : Json}
      (hmem : record ∈ page options (SortKey.sort options.sort (store.accepted resource filter))) :
      record.isObject = true :=
    h.accepted (List.mem_mergeSort.mp (mem_of_mem_page hmem))
  unfold Store.find at hmem
  split at hmem
  · obtain ⟨whole, hwhole, rfl⟩ := List.mem_map.mp hmem
    rw [isObject_project]
    exact hfound hwhole
  · exact hfound hmem

end Store

end ResourceApi

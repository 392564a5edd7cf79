import Mathlib.Data.List.Forall2
import ResourceApi.Proofs.Json.Equality
import ResourceApi.Store

/-!
# Reading records that agree

Two records agree on some fields when each of these has the same value in both, or is missing in both.
A filter and a sort key look at a record through the first segments of their paths only, so they cannot
tell records apart that agree on these.  Then lists of records that agree one by one are filtered,
sorted and cut to pages in step, and what is projected of them is equal.
-/

namespace ResourceApi

/-! ## Agreement -/

/-- The records have the same values under the given names. -/
def Json.AgreeOn (fields : List String) (record record' : Json) : Prop :=
  ∀ field ∈ fields, record.get? field = record'.get? field

namespace Json.AgreeOn

variable {fields fewer : List String} {record record' : Json} {field : String}

theorem mono (h : AgreeOn fields record record') (hsub : fewer ⊆ fields) :
    AgreeOn fewer record record' :=
  fun field hfield ↦ h field (hsub hfield)

theorem left {more : List String} (h : AgreeOn (fields ++ more) record record') :
    AgreeOn fields record record' :=
  h.mono (List.subset_append_left fields more)

theorem right {more : List String} (h : AgreeOn (more ++ fields) record record') :
    AgreeOn fields record record' :=
  h.mono (List.subset_append_right more fields)

theorem get (h : AgreeOn fields record record') (mem : field ∈ fields) :
    record.get field = record'.get field := by
  unfold Json.get
  rw [h field mem]

end Json.AgreeOn

/-! ## Paths -/

namespace Path

theorem cut_ne_nil (segment text : List Char) : cut segment text ≠ [] := by
  induction text generalizing segment with
  | nil => exact List.cons_ne_nil _ _
  | cons c rest ih =>
    unfold cut
    split
    · exact List.cons_ne_nil _ _
    · exact ih _

/-- The field of a record that a path starts from. -/
def head (path : String) : String := (segments path).head?.getD ""

theorem exists_segments (path : String) : ∃ rest, segments path = head path :: rest := by
  unfold head
  cases hsegments : segments path with
  | nil => exact absurd (List.map_eq_nil_iff.mp hsegments) (cut_ne_nil _ _)
  | cons first rest => exact ⟨rest, rfl⟩

end Path

theorem Json.AgreeOn.lookup {fields : List String} {record record' : Json} {path : String}
    (h : AgreeOn fields record record') (mem : Path.head path ∈ fields) :
    record.lookup path = record'.lookup path := by
  obtain ⟨rest, hrest⟩ := Path.exists_segments path
  unfold Json.lookup
  rw [hrest]
  exact congrArg (Option.bind · _) (h _ mem)

/-! ## Filters -/

namespace Filter

mutual

/-- The fields of a record that a filter looks at. -/
def fields : Json → List String
  | .obj conditions => fieldsOfConditions conditions
  | _ => []

def fieldsOfConditions : List (String × Json) → List String
  | [] => []
  | (key, condition) :: rest => fieldsOfCondition key condition ++ fieldsOfConditions rest

def fieldsOfCondition (key : String) : Json → List String
  | .arr filters => if (Connective.ofKey? key).isSome then fieldsOfAll filters else [Path.head key]
  | _ => if (Connective.ofKey? key).isSome then [] else [Path.head key]

def fieldsOfAll : List Json → List String
  | [] => []
  | filter :: rest => fields filter ++ fieldsOfAll rest

end

variable {record record' : Json}

/-- A condition that is no list is on a field. -/
theorem acceptsCondition_single {condition : Json} (single : condition.isArray = false)
    (key : String) : acceptsCondition record key condition =
      ((Connective.ofKey? key).isNone && matchField (record.lookup key) condition) := by
  cases condition with
  | arr filters => cases single
  | _ => unfold acceptsCondition; cases Connective.ofKey? key <;> rfl

theorem matchField_congr {key : String} (h : Json.AgreeOn [Path.head key] record record')
    (condition : Json) :
    matchField (record.lookup key) condition = matchField (record'.lookup key) condition := by
  rw [h.lookup (List.mem_singleton_self _)]

mutual

/-- A filter does not tell records apart that agree on the fields it looks at. -/
theorem accepts_congr : ∀ {filter : Json}, Json.AgreeOn (fields filter) record record' →
    accepts record filter = accepts record' filter
  | .obj _, h => acceptsConditions_congr h
  | .null, _ | .bool _, _ | .int _, _ | .float _, _ | .str _, _ | .arr _, _ => rfl

theorem acceptsConditions_congr : ∀ {conditions : List (String × Json)},
    Json.AgreeOn (fieldsOfConditions conditions) record record' →
      acceptsConditions record conditions = acceptsConditions record' conditions
  | [], _ => rfl
  | (_, _) :: _, h => by
      rw [acceptsConditions, acceptsConditions, acceptsCondition_congr h.left,
        acceptsConditions_congr h.right]

theorem acceptsCondition_congr {key : String} : ∀ {condition : Json},
    Json.AgreeOn (fieldsOfCondition key condition) record record' →
      acceptsCondition record key condition = acceptsCondition record' key condition
  | .arr filters, h => by
      rw [fieldsOfCondition] at h
      rw [acceptsCondition, acceptsCondition]
      cases hkey : Connective.ofKey? key with
      | none =>
        rw [hkey] at h
        exact matchField_congr h _
      | some connective =>
        rw [hkey] at h
        change Json.AgreeOn (fieldsOfAll filters) record record' at h
        cases connective with
        | and => exact acceptsAll_congr h
        | or => exact acceptsAny_congr h
        | nor => exact congrArg not (acceptsAny_congr h)
  | .null, h | .bool _, h | .int _, h | .float _, h | .str _, h | .obj _, h => by
      rw [acceptsCondition_single rfl, acceptsCondition_single rfl]
      rw [fieldsOfCondition] at h
      · cases hkey : Connective.ofKey? key with
        | none =>
          rw [hkey] at h
          rw [matchField_congr h]
        | some connective => rfl
      · exact fun _ heq ↦ nomatch heq

theorem acceptsAll_congr : ∀ {filters : List Json},
    Json.AgreeOn (fieldsOfAll filters) record record' →
      acceptsAll record filters = acceptsAll record' filters
  | [], _ => rfl
  | _ :: _, h => by
      rw [acceptsAll, acceptsAll, accepts_congr h.left, acceptsAll_congr h.right]

theorem acceptsAny_congr : ∀ {filters : List Json},
    Json.AgreeOn (fieldsOfAll filters) record record' →
      acceptsAny record filters = acceptsAny record' filters
  | [], _ => rfl
  | _ :: _, h => by
      rw [acceptsAny, acceptsAny, accepts_congr h.left, acceptsAny_congr h.right]

end

end Filter

/-! ## Lists of records -/

namespace SortKey

/-- The fields of a record that sort keys look at. -/
def fields (keys : List SortKey) : List String := keys.map fun key ↦ Path.head key.field

theorem orderBy_cons (key : SortKey) (rest : List SortKey) (x y : Json) :
    orderBy (key :: rest) x y = (key.order x y).then (orderBy rest x y) := rfl

theorem orderBy_congr {keys : List SortKey} {x x' y y' : Json} (hx : Json.AgreeOn (fields keys) x x')
    (hy : Json.AgreeOn (fields keys) y y') : orderBy keys x y = orderBy keys x' y' := by
  induction keys with
  | nil => rfl
  | cons key rest ih =>
    have hfirst : key.order x y = key.order x' y' := by
      unfold order
      rw [hx.lookup List.mem_cons_self, hy.lookup List.mem_cons_self]
    have hrest := ih (hx.mono (List.subset_cons_self _ _)) (hy.mono (List.subset_cons_self _ _))
    rw [orderBy_cons, orderBy_cons, hfirst, hrest]

end SortKey

/-- Sorting keeps two lists in step if their orders do not tell related elements apart. -/
theorem forall₂_mergeSort {α β : Type} {R : α → β → Prop} {xs : List α} {ys : List β}
    {le : α → α → Bool} {le' : β → β → Bool} (h : List.Forall₂ R xs ys)
    (same : ∀ {x x' y y'}, R x x' → R y y' → le x y = le' x' y') :
    List.Forall₂ R (xs.mergeSort le) (ys.mergeSort le') := by
  obtain ⟨hlength, hrelated⟩ := List.forall₂_iff_zip.mp h
  -- both lists are projections of one list of pairs, and so are the sorted ones
  have hleft : ((xs.zip ys).mergeSort fun p q ↦ le p.1 q.1).map Prod.fst = xs.mergeSort le := by
    rw [List.map_mergeSort (f := Prod.fst) (s := le) fun _ _ _ _ ↦ rfl, List.map_fst_zip (Nat.le_of_eq hlength)]
  have hright : ((xs.zip ys).mergeSort fun p q ↦ le p.1 q.1).map Prod.snd = ys.mergeSort le' := by
    rw [List.map_mergeSort (f := Prod.snd) (s := le') fun _ hp _ hq ↦
      same (hrelated hp) (hrelated hq), List.map_snd_zip (Nat.le_of_eq hlength.symm)]
  rw [← hleft, ← hright, List.forall₂_map_left_iff, List.forall₂_map_right_iff, List.forall₂_same]
  exact fun pair hpair ↦ hrelated (List.mem_mergeSort.mp hpair)

/-! ## Records that agree -/

/-- The value is a record: an object that names no member twice, and nor does any value in it. -/
structure Json.IsRecord (record : Json) : Prop where
  object : record.isObject = true
  wellFormed : record.WellFormed

/-- Both values are records, and they agree on the given fields. -/
structure Json.Alike (fields : List String) (record record' : Json) : Prop where
  agree : AgreeOn fields record record'
  left : record.IsRecord
  right : record'.IsRecord

namespace Store

variable {store store' : Store} {resource : String} {filter record record' : Json}
  {fields shown : List String} {records records' : List Json}

theorem nodup_keys_project {members : Entries Json} (distinct : members.keys.Nodup)
    (fields : List String) :
    (Entries.keys (members.filter fun member ↦ fields.contains member.1)).Nodup :=
  (List.filter_sublist.map Prod.fst).nodup distinct

theorem get?_project (h : record.IsRecord) {field : String} (mem : field ∈ fields) :
    (project fields record).get? field = record.get? field := by
  obtain ⟨hobject, -⟩ := h
  cases record with
  | obj members =>
    change Entries.get? (members.filter fun member ↦ fields.contains member.1) field = _
    rw [Entries.get?_filter_keys, if_pos (by simpa using mem)]
    rfl
  | _ => cases hobject

/-- Records that agree on some fields are equal once they are projected to them. -/
theorem equal_project (h : Json.Alike shown record record') (hsub : fields ⊆ shown) :
    (project fields record).equal (project fields record') = true := by
  obtain ⟨hagree, ⟨hobject, hwellFormed⟩, hobject', hwellFormed'⟩ := h
  cases record with
  | obj members =>
    cases record' with
    | obj members' =>
      obtain ⟨distinct, hmembers⟩ := Json.wellFormed_obj.mp hwellFormed
      obtain ⟨distinct', -⟩ := Json.wellFormed_obj.mp hwellFormed'
      have hget : ∀ key, Entries.get? (members.filter fun member ↦ fields.contains member.1) key =
          Entries.get? (members'.filter fun member ↦ fields.contains member.1) key := by
        intro key
        rw [Entries.get?_filter_keys, Entries.get?_filter_keys]
        split
        · rename_i hkey
          exact hagree key (hsub (by simpa using hkey))
        · rfl
      have hperm := (List.perm_ext_iff_of_nodup (nodup_keys_project distinct fields)
        (nodup_keys_project distinct' fields)).mpr fun key ↦ by
          rw [← Entries.has_iff, ← Entries.has_iff, Entries.has, Entries.has, hget]
      change (Json.equal (.obj _) (.obj _)) = true
      rw [Json.equal, Bool.and_eq_true, beq_iff_eq, Json.equalMembers_iff]
      refine ⟨?_, fun member hmember ↦ ⟨member.2, ?_, ?_⟩⟩
      · simpa [Entries.keys] using hperm.length_eq
      · rw [← hget]
        exact Entries.get?_of_mem (nodup_keys_project distinct fields) hmember
      · exact Json.equal_refl (hmembers _ (List.mem_filter.mp hmember).1)
    | _ => cases hobject'
  | _ => cases hobject

/-! ## Stores that agree -/

/-- The stores have as many records of the resource, all of them records that agree, one by one, on the
given fields. -/
def Alike (shown : List String) (resource : String) (store store' : Store) : Prop :=
  List.Forall₂ (Json.Alike shown) (store.records resource) (store'.records resource)

theorem Alike.accepted (h : Alike shown resource store store')
    (hfilter : Filter.fields filter ⊆ shown) :
    List.Forall₂ (Json.Alike shown) (store.accepted resource filter)
      (store'.accepted resource filter) :=
  List.rel_filter (fun _ _ halike ↦ iff_of_eq
    (congrArg (· = true) (Filter.accepts_congr (halike.agree.mono hfilter)))) h

theorem Alike.count (h : Alike shown resource store store')
    (hfilter : Filter.fields filter ⊆ shown) :
    store.count resource filter = store'.count resource filter :=
  (h.accepted hfilter).length_eq

/-- The records that a search reads, before it projects them. -/
def read (store : Store) (resource : String) (filter : Json) (options : FindOptions) : List Json :=
  page options (SortKey.sort options.sort (store.accepted resource filter))

theorem find_eq_map (store : Store) (resource : String) (filter : Json) {options : FindOptions}
    (h : options.projection = some fields) :
    store.find resource filter options =
      (store.read resource filter options).map (project fields) := by
  unfold find read
  rw [h]

theorem Alike.read (h : Alike shown resource store store')
    (hfilter : Filter.fields filter ⊆ shown) (options : FindOptions)
    (hsort : SortKey.fields options.sort ⊆ shown) :
    List.Forall₂ (Json.Alike shown) (store.read resource filter options)
      (store'.read resource filter options) := by
  have hsorted := forall₂_mergeSort (h.accepted hfilter) fun {_ _ _ _} hx hy ↦
    congrArg (· != .gt)
      (SortKey.orderBy_congr (hx.agree.mono hsort) (hy.agree.mono hsort))
  unfold Store.read page
  cases options.limit with
  | none => exact List.forall₂_drop _ hsorted
  | some limit => exact List.forall₂_take _ (List.forall₂_drop _ hsorted)

end Store
end ResourceApi

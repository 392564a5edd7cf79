import Mathlib.Data.List.Flatten
import ResourceApi.Proofs.Json.Equality
import ResourceApi.Proofs.Resolver.References

/-!
# Records in the places of identifiers

A place in a value lists the positions that lead to it through nested lists.  Places are ordered as a walk
in depth comes to them, which is the lexicographic order.  Gathering the identifiers of a value goes over
the places that hold one, in this order, and putting records back goes over the same places: it needs as
many records as there are identifiers, and every other place gets null.
-/

namespace ResourceApi

/-! ## Places -/

/-- What stands at a place.  Only lists are entered. -/
def Json.atPlace? (value : Json) : List Nat → Option Json
  | [] => some value
  | index :: rest => match value with
    | .arr items => items[index]?.bind (atPlace? · rest)
    | _ => none

@[simp]
theorem Json.atPlace?_nil (value : Json) : value.atPlace? [] = some value := by
  cases value <;> rfl

theorem Json.atPlace?_arr (items : List Json) (index : Nat) (rest : List Nat) :
    (Json.arr items).atPlace? (index :: rest) = items[index]?.bind (·.atPlace? rest) := rfl

/-- No place lies in a value that is no list. -/
theorem Json.atPlace?_single {value : Json} (single : value.isArray = false) (index : Nat)
    (rest : List Nat) : value.atPlace? (index :: rest) = none := by
  cases value with
  | arr items => cases single
  | _ => rfl

theorem Json.atPlace?_single_eq_some {value found : Json} {place : List Nat}
    (single : value.isArray = false) : value.atPlace? place = some found ↔ place = [] ∧ value = found := by
  cases place with
  | nil => simp
  | cons index rest => simp [atPlace?_single single]

theorem Json.atPlace?_append_cons (front : List Json) (value : Json) (back : List Json)
    (rest : List Nat) :
    (Json.arr (front ++ value :: back)).atPlace? (front.length :: rest) = value.atPlace? rest := by
  rw [atPlace?_arr, List.getElem?_append_right (Nat.le_refl _), Nat.sub_self]
  rfl

/-- Induction on values through lists only. -/
theorem Json.induction_lists {motive : Json → Prop}
    (single : ∀ value : Json, value.isArray = false → motive value)
    (arr : ∀ items, (∀ value ∈ items, motive value) → motive (.arr items)) (value : Json) :
    motive value := by
  induction value using Json.induction with
  | leaf value hsingle => exact single value hsingle
  | arr items ih => exact arr items ih
  | obj members => exact single (.obj members) rfl

namespace FieldResolver

mutual

/-- The places that hold an identifier, as a walk in depth comes to them. -/
def identifierPlaces : Json → List (List Nat)
  | .arr items => identifierPlacesFrom 0 items
  | leaf => if (identifier? leaf).isSome then [[]] else []

/-- The places in the items of a list from a position on. -/
def identifierPlacesFrom (index : Nat) : List Json → List (List Nat)
  | [] => []
  | value :: rest =>
    (identifierPlaces value).map (index :: ·) ++ identifierPlacesFrom (index + 1) rest

end

variable {value : Json} {items : List Json} {place : List Nat}

theorem identifierPlaces_single (single : value.isArray = false) :
    identifierPlaces value = if (identifier? value).isSome then [[]] else [] := by
  cases value with
  | arr items => cases single
  | _ => rfl

theorem mem_identifierPlacesFrom {index : Nat} :
    place ∈ identifierPlacesFrom index items ↔ ∃ offset rest item,
      place = (index + offset) :: rest ∧ items[offset]? = some item ∧ rest ∈ identifierPlaces item := by
  induction items generalizing index with
  | nil => simp [identifierPlacesFrom]
  | cons value more ih =>
    rw [identifierPlacesFrom, List.mem_append, List.mem_map, ih]
    constructor
    · rintro (⟨rest, hrest, rfl⟩ | ⟨offset, rest, item, rfl, hitem, hrest⟩)
      · exact ⟨0, rest, value, rfl, rfl, hrest⟩
      · exact ⟨offset + 1, rest, item, by rw [Nat.add_assoc, Nat.add_comm 1], hitem, hrest⟩
    · rintro ⟨offset, rest, item, rfl, hitem, hrest⟩
      cases offset with
      | zero =>
        obtain rfl : value = item := Option.some.inj hitem
        exact .inl ⟨rest, hrest, rfl⟩
      | succ offset =>
        exact .inr ⟨offset, rest, item, by rw [Nat.add_assoc, Nat.add_comm 1], hitem, hrest⟩

/-- These are the places of identifiers. -/
theorem mem_identifierPlaces (value : Json) (place : List Nat) : place ∈ identifierPlaces value ↔
    ((value.atPlace? place).bind identifier?).isSome = true := by
  induction value using Json.induction_lists generalizing place with
  | single value hsingle =>
    rw [identifierPlaces_single hsingle]
    cases place with
    | nil => by_cases h : (identifier? value).isSome = true <;> simp [h]
    | cons index rest =>
      rw [Json.atPlace?_single hsingle]
      by_cases h : (identifier? value).isSome = true <;> simp [h]
  | arr items ih =>
    rw [identifierPlaces, mem_identifierPlacesFrom]
    cases place with
    | nil => simp [identifier?]
    | cons index rest =>
      rw [Json.atPlace?_arr]
      constructor
      · rintro ⟨offset, rest', item, hplace, hitem, hrest⟩
        obtain ⟨rfl, rfl⟩ := List.cons.inj hplace
        rw [Nat.zero_add, hitem]
        exact (ih item (List.mem_of_getElem? hitem) rest).mp hrest
      · intro h
        cases hitem : items[index]? with
        | none =>
          rw [hitem] at h
          cases h
        | some item =>
          rw [hitem] at h
          refine ⟨index, rest, item, by rw [Nat.zero_add], hitem, ?_⟩
          exact (ih item (List.mem_of_getElem? hitem) rest).mpr h

/-- Each place comes before the later ones. -/
theorem pairwise_identifierPlaces (value : Json) :
    (identifierPlaces value).Pairwise (· < ·) := by
  induction value using Json.induction_lists with
  | single value hsingle =>
    rw [identifierPlaces_single hsingle]
    split
    · exact List.pairwise_singleton _ _
    · exact List.Pairwise.nil
  | arr items ih =>
    rw [identifierPlaces]
    generalize 0 = index
    induction items generalizing index with
    | nil => exact List.Pairwise.nil
    | cons value rest ihRest =>
      obtain ⟨hvalue, hrest⟩ := List.forall_mem_cons.mp ih
      rw [identifierPlacesFrom, List.pairwise_append, List.pairwise_map]
      refine ⟨hvalue.imp List.Lex.cons, ihRest hrest (index + 1), ?_⟩
      intro place hplace later hlater
      obtain ⟨inside, -, rfl⟩ := List.mem_map.mp hplace
      obtain ⟨offset, inside', item, rfl, -, -⟩ := mem_identifierPlacesFrom.mp hlater
      exact List.Lex.rel (by omega)

/-- Reading a list at the places in its items is reading the items. -/
theorem map_identifierPlacesFrom (front items : List Json) :
    (identifierPlacesFrom front.length items).map
        (fun place ↦ ((Json.arr (front ++ items)).atPlace? place).bind identifier?) =
      items.flatMap fun item ↦
        (identifierPlaces item).map fun place ↦ (item.atPlace? place).bind identifier? := by
  induction items generalizing front with
  | nil => rfl
  | cons value rest ih =>
    have hrest := ih (front ++ [value])
    rw [List.length_append, List.length_singleton, List.append_assoc, List.singleton_append] at hrest
    rw [identifierPlacesFrom, List.map_append, List.map_map, List.flatMap_cons, hrest]
    congr 1
    apply List.map_congr_left
    intro place _
    rw [Function.comp_apply, Json.atPlace?_append_cons]

theorem collectIds_single (single : value.isArray = false) :
    collectIds value = (identifier? value).toList := by
  cases value with
  | arr items => cases single
  | _ => rfl

theorem collectIdsItems_eq_flatMap (items : List Json) :
    collectIdsItems items = items.flatMap collectIds := by
  induction items with
  | nil => rfl
  | cons value rest ih => rw [collectIdsItems, List.flatMap_cons, ih]

/-- The identifiers are gathered in the order of their places. -/
theorem map_identifierPlaces (value : Json) :
    (identifierPlaces value).map (fun place ↦ (value.atPlace? place).bind identifier?) =
      (collectIds value).map some := by
  induction value using Json.induction_lists with
  | single value hsingle =>
    rw [identifierPlaces_single hsingle, collectIds_single hsingle]
    cases h : identifier? value <;> simp [h]
  | arr items ih =>
    have hplaces := map_identifierPlacesFrom [] items
    rw [List.nil_append, List.length_nil] at hplaces
    rw [identifierPlaces, hplaces, collectIds, collectIdsItems_eq_flatMap, List.map_flatMap]
    exact List.flatMap_congr fun item hitem ↦ ih item hitem

/-! ## What records are put into -/

/-- The result has the lists of the value, the records in the places of its identifiers, one after the
other, and null in every other place. -/
structure Refill (value : Json) (records : List Json) (result : Json) : Prop where
  lists : ∀ place items, value.atPlace? place = some (.arr items) →
    ∃ items', result.atPlace? place = some (.arr items') ∧ items'.length = items.length
  identifiers : (identifierPlaces value).map result.atPlace? = records.map some
  others : ∀ place leaf, value.atPlace? place = some leaf → leaf.isArray = false →
    identifier? leaf = none → result.atPlace? place = some .null

theorem Refill.record (single : value.isArray = false) (h : (identifier? value).isSome = true)
    (record : Json) : Refill value [record] record where
  lists place items hitems := by
    obtain ⟨-, rfl⟩ := (Json.atPlace?_single_eq_some single).mp hitems
    cases single
  identifiers := by simp [identifierPlaces_single single, h]
  others place leaf hleaf _ hnone := by
    obtain ⟨-, rfl⟩ := (Json.atPlace?_single_eq_some single).mp hleaf
    rw [hnone] at h
    cases h

theorem Refill.null (single : value.isArray = false) (h : identifier? value = none) :
    Refill value [] .null where
  lists place items hitems := by
    obtain ⟨-, rfl⟩ := (Json.atPlace?_single_eq_some single).mp hitems
    cases single
  identifiers := by simp [identifierPlaces_single single, h]
  others place leaf hleaf _ _ := by
    obtain ⟨rfl, -⟩ := (Json.atPlace?_single_eq_some single).mp hleaf
    rfl

/-- Item by item, records are put in the places of identifiers. -/
inductive RefillItems : List Json → List Json → List Json → Prop
  | nil : RefillItems [] [] []
  | cons {value result : Json} {rest results records more : List Json}
      (first : Refill value records result) (later : RefillItems rest more results) :
      RefillItems (value :: rest) (records ++ more) (result :: results)

namespace RefillItems

variable {records results : List Json}

theorem length_eq (h : RefillItems items records results) : results.length = items.length := by
  induction h with
  | nil => rfl
  | cons _ _ ih => rw [List.length_cons, List.length_cons, ih]

theorem exists_result (h : RefillItems items records results) {index : Nat} {item : Json}
    (hitem : items[index]? = some item) :
    ∃ result own, results[index]? = some result ∧ Refill item own result := by
  induction h generalizing index with
  | nil => cases hitem
  | @cons value result _ _ own _ first _ ih =>
    cases index with
    | zero =>
      obtain rfl : value = item := Option.some.inj hitem
      exact ⟨result, own, rfl, first⟩
    | succ index => exact ih hitem

theorem map_identifierPlacesFrom (h : RefillItems items records results) (front : List Json) :
    (identifierPlacesFrom front.length items).map (Json.arr (front ++ results)).atPlace? =
      records.map some := by
  induction h generalizing front with
  | nil => rfl
  | @cons value result rest results own more first _ ih =>
    have hrest := ih (front ++ [result])
    rw [List.length_append, List.length_singleton, List.append_assoc, List.singleton_append] at hrest
    rw [identifierPlacesFrom, List.map_append, List.map_map, List.map_append, hrest,
      ← first.identifiers]
    congr 1
    apply List.map_congr_left
    intro place _
    rw [Function.comp_apply, Json.atPlace?_append_cons]

theorem arr (h : RefillItems items records results) :
    Refill (.arr items) records (.arr results) where
  lists place inner hinner := by
    cases place with
    | nil =>
      rw [Json.atPlace?_nil] at hinner
      cases hinner
      exact ⟨results, Json.atPlace?_nil _, h.length_eq⟩
    | cons index rest =>
      rw [Json.atPlace?_arr, Option.bind_eq_some_iff] at hinner
      obtain ⟨item, hitem, hinner⟩ := hinner
      obtain ⟨result, own, hresult, hrefill⟩ := h.exists_result hitem
      rw [Json.atPlace?_arr, hresult]
      exact hrefill.lists rest inner hinner
  identifiers := by
    rw [identifierPlaces]
    exact h.map_identifierPlacesFrom []
  others place leaf hleaf hsingle hnone := by
    cases place with
    | nil =>
      rw [Json.atPlace?_nil] at hleaf
      cases hleaf
      cases hsingle
    | cons index rest =>
      rw [Json.atPlace?_arr, Option.bind_eq_some_iff] at hleaf
      obtain ⟨item, hitem, hleaf⟩ := hleaf
      obtain ⟨result, own, hresult, hrefill⟩ := h.exists_result hitem
      rw [Json.atPlace?_arr, hresult]
      exact hrefill.others rest leaf hleaf hsingle hnone

end RefillItems

/-! ## Putting records back -/

theorem rebuild_single (single : value.isArray = false) (records : List Json) :
    rebuild records value =
      if (identifier? value).isSome then takeNext records else (.null, records) := by
  cases value with
  | arr items => cases single
  | _ => rfl

/-- With as many records as the value has identifiers, and any more behind them, putting back uses up
the records. -/
def Rebuilds (value : Json) : Prop :=
  ∀ records more : List Json, records.length = (collectIds value).length →
    ∃ result, rebuild (records ++ more) value = (result, more) ∧ Refill value records result

theorem rebuilds_single (single : value.isArray = false) : Rebuilds value := by
  intro records more paired
  rw [collectIds_single single] at paired
  rw [rebuild_single single]
  cases h : identifier? value with
  | none =>
    rw [h] at paired
    obtain rfl := List.eq_nil_of_length_eq_zero paired
    exact ⟨.null, rfl, .null single h⟩
  | some id =>
    rw [h] at paired
    obtain ⟨record, rfl⟩ := List.length_eq_one_iff.mp paired
    exact ⟨record, rfl, .record single (h ▸ rfl) record⟩

theorem rebuildItems_refill (items records more : List Json) (each : ∀ item ∈ items, Rebuilds item)
    (paired : records.length = (collectIdsItems items).length) :
    ∃ results, rebuildItems (records ++ more) items = (results, more) ∧
      RefillItems items records results := by
  induction items generalizing records with
  | nil =>
    obtain rfl := List.eq_nil_of_length_eq_zero paired
    exact ⟨[], rfl, .nil⟩
  | cons value rest ih =>
    obtain ⟨hvalue, hrest⟩ := List.forall_mem_cons.mp each
    rw [collectIdsItems, List.length_append] at paired
    -- the records of the first item stand before those of the others
    obtain ⟨own, later, rfl, hown⟩ : ∃ own later, records = own ++ later ∧
        own.length = (collectIds value).length :=
      ⟨_, _, (List.take_append_drop (collectIds value).length records).symm,
        List.length_take_of_le (by omega)⟩
    rw [List.length_append, hown, Nat.add_left_cancel_iff] at paired
    obtain ⟨result, hresult, hrefill⟩ := hvalue own (later ++ more) hown
    obtain ⟨results, hresults, hlater⟩ := ih later hrest paired
    refine ⟨result :: results, ?_, .cons hrefill hlater⟩
    simp only [rebuildItems, List.append_assoc, hresult, hresults]

theorem rebuilds (value : Json) : Rebuilds value := by
  induction value using Json.induction_lists with
  | single value hsingle => exact rebuilds_single hsingle
  | arr items ih =>
    intro records more paired
    rw [collectIds] at paired
    obtain ⟨results, hresults, hrefill⟩ := rebuildItems_refill items records more ih paired
    exact ⟨.arr results, by rw [rebuild, hresults], hrefill.arr⟩

/-- With as many records as a value has identifiers, putting them back uses up all of them: it keeps the
lists, puts each record in the place of its identifier, and null in every other place.  The places of the
identifiers are gone through in depth, and the identifiers were gathered in the same order. -/
theorem rebuild_lockstep (value : Json) (records : List Json)
    (paired : records.length = (collectIds value).length) :
    (rebuild records value).2 = [] ∧ Refill value records (rebuild records value).1 ∧
      (identifierPlaces value).Pairwise (· < ·) ∧
      (∀ place, place ∈ identifierPlaces value ↔
        ((value.atPlace? place).bind identifier?).isSome = true) ∧
      (identifierPlaces value).map (fun place ↦ (value.atPlace? place).bind identifier?) =
        (collectIds value).map some := by
  obtain ⟨result, hresult, hrefill⟩ := rebuilds value records [] paired
  rw [List.append_nil] at hresult
  rw [hresult]
  exact ⟨rfl, hrefill, pairwise_identifierPlaces value, mem_identifierPlaces value,
    map_identifierPlaces value⟩

/-- Two records for a text and for an embedded record, which stand around an empty list, a number and an
object without an identifier. -/
theorem rebuild_lockstep_nested :
    let value : Json := .arr [.str "1", .arr [], .arr [.int 5, .obj [("id", .str "2")], .obj []]]
    let record (name : String) : Json := .obj [("name", .str name)]
    let records := [record "Ann", record "Bob"]
    records.length = (collectIds value).length ∧ identifierPlaces value = [[0], [2, 1]] ∧
      (rebuild records value).2 = [] ∧
      (rebuild records value).1.atPlace? [2, 1] = some (record "Bob") ∧
      (rebuild records value).1.atPlace? [2, 0] = some .null := by
  intro value record records
  have hpaired : records.length = (collectIds value).length := rfl
  obtain ⟨hused, hrefill, -⟩ := rebuild_lockstep value records hpaired
  have hplaces : identifierPlaces value = [[0], [2, 1]] := rfl
  have hrecords := hrefill.identifiers
  rw [hplaces] at hrecords
  exact ⟨hpaired, hplaces, hused, (List.cons.inj (List.cons.inj hrecords).2).1,
    hrefill.others [2, 0] (.int 5) rfl rfl rfl⟩

end FieldResolver
end ResourceApi

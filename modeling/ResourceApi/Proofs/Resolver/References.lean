import Mathlib.Logic.Basic
import ResourceApi.Resolver.Reference

/-!
# References, leaf by leaf

A reference gathers the identifiers of a value in one recursion, fetches their records together and puts
them back in a second recursion.  The two recursions meet the leaves of the value in the same order, so
each leaf gets the record of its own identifier and every other leaf becomes null.  A value without any
identifier is not fetched at all: it is returned as it is, and what stands in it is shown.
-/

namespace ResourceApi

namespace FieldResolver

variable {context : RequestContext} {resource : String} {segment : Segment} {parent value : Json}
  {field : String}

/-! ## Leaves -/

mutual

/-- What stands in a value below its lists, from left to right. -/
def leaves : Json → List Json
  | .arr items => leavesItems items
  | leaf => [leaf]

def leavesItems : List Json → List Json
  | [] => []
  | value :: rest => leaves value ++ leavesItems rest

end

mutual

/-- The lists of a value are kept, and each leaf is replaced on its own. -/
def mapLeaves (replace : Json → Json) : Json → Json
  | .arr items => .arr (mapLeavesItems replace items)
  | leaf => replace leaf

def mapLeavesItems (replace : Json → Json) : List Json → List Json
  | [] => []
  | value :: rest => mapLeaves replace value :: mapLeavesItems replace rest

end

/-- The identifier that a leaf gives: its text, or the one that the record in it carries. -/
def identifier? : Json → Option String
  | .str id => some id
  | .obj members => embeddedId? members
  | _ => none

mutual

/-- The identifiers of a value are those of its leaves, in their order. -/
theorem collectIds_eq : ∀ value, collectIds value = (leaves value).filterMap identifier?
  | .arr items => by
    simp only [collectIds, leaves]
    exact collectIdsItems_eq items
  | .str id => by simp [collectIds, leaves, identifier?]
  | .obj members => by
    cases h : embeddedId? members <;> simp [collectIds, leaves, identifier?, h]
  | .null | .bool _ | .int _ | .float _ => by simp [collectIds, leaves, identifier?]

theorem collectIdsItems_eq :
    ∀ items, collectIdsItems items = (leavesItems items).filterMap identifier?
  | [] => by simp [collectIdsItems, leavesItems]
  | value :: rest => by
    simp only [collectIdsItems, leavesItems, List.filterMap_append, collectIds_eq value,
      collectIdsItems_eq rest]

end

mutual

/-- Replacing its leaves keeps a value exactly if every leaf is kept. -/
theorem mapLeaves_eq_self_iff (replace : Json → Json) :
    ∀ value, mapLeaves replace value = value ↔ ∀ leaf ∈ leaves value, replace leaf = leaf
  | .arr items => by
    simp only [mapLeaves, leaves, Json.arr.injEq]
    exact mapLeavesItems_eq_self_iff replace items
  | .null | .bool _ | .int _ | .float _ | .str _ | .obj _ => by simp [mapLeaves, leaves]

theorem mapLeavesItems_eq_self_iff (replace : Json → Json) :
    ∀ items, mapLeavesItems replace items = items ↔ ∀ leaf ∈ leavesItems items, replace leaf = leaf
  | [] => by simp [mapLeavesItems, leavesItems]
  | value :: rest => by
    simp only [mapLeavesItems, leavesItems, List.cons.injEq, List.forall_mem_append,
      mapLeaves_eq_self_iff replace value, mapLeavesItems_eq_self_iff replace rest]

end

/-! ## What a leaf becomes -/

/-- What a leaf becomes where `record` tells what is shown for an identifier. -/
def leafOutcome (record : String → Json) (leaf : Json) : Json :=
  ((identifier? leaf).map record).getD .null

/-- What a reference shows for an identifier. -/
def recordOf (context : RequestContext) (resource : String) (segment : Segment) (id : String) : Json :=
  shown segment context.caller (context.store.find? resource id)

/-- A value with its references resolved: each leaf is replaced by the record of its identifier. -/
def pointwise (context : RequestContext) (resource : String) (segment : Segment) : Json → Json :=
  mapLeaves (leafOutcome (recordOf context resource segment))

theorem leafOutcome_of_none {record : String → Json} {leaf : Json} (h : identifier? leaf = none) :
    leafOutcome record leaf = .null := by
  simp [leafOutcome, h]

/-! ## Putting the records back -/

mutual

/-- The records of the identifiers of a value, with any more behind them: putting them back replaces
each leaf on its own, and exactly the others are left. -/
theorem rebuild_collectIds (record : String → Json) (more : List Json) :
    ∀ value, rebuild ((collectIds value).map record ++ more) value =
      (mapLeaves (leafOutcome record) value, more)
  | .arr items => by
    simp only [rebuild, collectIds, mapLeaves, rebuildItems_collectIds record more items]
  | .obj members => by
    cases h : embeddedId? members <;>
      simp [rebuild, collectIds, mapLeaves, leafOutcome, identifier?, takeNext, h]
  | .str _ | .null | .bool _ | .int _ | .float _ => by
    simp [rebuild, collectIds, mapLeaves, leafOutcome, identifier?, takeNext]

theorem rebuildItems_collectIds (record : String → Json) (more : List Json) :
    ∀ items, rebuildItems ((collectIdsItems items).map record ++ more) items =
      (mapLeavesItems (leafOutcome record) items, more)
  | [] => by simp [rebuildItems, collectIdsItems, mapLeavesItems]
  | value :: rest => by
    simp only [rebuildItems, collectIdsItems, mapLeavesItems, List.map_append, List.append_assoc,
      rebuild_collectIds record _ value, rebuildItems_collectIds record more rest]

end

theorem resolve_of_collectIds_nil (h : collectIds (parent.get field) = []) :
    resolve (.reference resource segment) context parent field = .ok (parent.get field) := by
  simp [resolve, h]

theorem resolve_of_collectIds_ne_nil (registered : context.stores.contains resource = true)
    (h : collectIds (parent.get field) ≠ []) :
    resolve (.reference resource segment) context parent field =
      .ok (pointwise context resource segment (parent.get field)) := by
  have hrebuilt := rebuild_collectIds (recordOf context resource segment) [] (parent.get field)
  rw [List.append_nil] at hrebuilt
  obtain ⟨id, ids, hids⟩ := List.exists_cons_of_ne_nil h
  have hrequired : context.requireStore resource = .ok () := if_pos registered
  rw [hids] at hrebuilt
  simp only [resolve, hids, hrequired, Store.findByIds, List.map_map]
  change Except.ok (rebuild ((id :: ids).map (recordOf context resource segment)) _).1 = _
  rw [hrebuilt]
  rfl

/-- What a reference field gives, whatever value is stored in it.  As soon as one leaf has an
identifier, the lists are kept and each leaf is settled on its own: it becomes the record that is kept
under its identifier if the segment shows it, and null otherwise.  Without any identifier the value is
given as it is, which is the same only if nothing but nulls stands in it. -/
theorem resolve_leaf_by_leaf (registered : context.stores.contains resource = true) (parent : Json)
    (field : String) :
    ((∃ leaf ∈ leaves (parent.get field), (identifier? leaf).isSome) →
      resolve (.reference resource segment) context parent field =
        .ok (pointwise context resource segment (parent.get field))) ∧
    ((∀ leaf ∈ leaves (parent.get field), identifier? leaf = none) →
      resolve (.reference resource segment) context parent field = .ok (parent.get field)) ∧
    (resolve (.reference resource segment) context parent field =
        .ok (pointwise context resource segment (parent.get field)) ↔
      (∃ leaf ∈ leaves (parent.get field), (identifier? leaf).isSome) ∨
        ∀ leaf ∈ leaves (parent.get field), leaf = .null) := by
  have hnone : (∀ leaf ∈ leaves (parent.get field), identifier? leaf = none) ↔
      collectIds (parent.get field) = [] := by
    rw [collectIds_eq, List.filterMap_eq_nil_iff]
  have hsome : (∃ leaf ∈ leaves (parent.get field), (identifier? leaf).isSome) ↔
      collectIds (parent.get field) ≠ [] := by
    rw [Ne, ← hnone]
    simp only [Option.isSome_iff_ne_none, not_forall, exists_prop, ne_eq]
  refine ⟨fun h ↦ resolve_of_collectIds_ne_nil registered (hsome.mp h),
    fun h ↦ resolve_of_collectIds_nil (hnone.mp h), ?_⟩
  by_cases hids : collectIds (parent.get field) = []
  · rw [or_iff_right (mt hsome.mp (not_not_intro hids)), resolve_of_collectIds_nil hids,
      Except.ok.injEq, eq_comm]
    unfold pointwise
    rw [mapLeaves_eq_self_iff]
    refine forall₂_congr fun leaf hleaf ↦ ?_
    rw [leafOutcome_of_none (hnone.mpr hids leaf hleaf), eq_comm]
  · exact iff_of_true (resolve_of_collectIds_ne_nil registered hids) (.inl (hsome.mpr hids))

/-- A number is shown where it stands alone, but it is null next to an identifier. -/
theorem resolve_number_alone :
    let record : Json := .obj [("id", .str "1"), ("owner", .str "ann")]
    let context : RequestContext := ⟨some "ann", ["User"], ⟨[("User", [("1", record)])]⟩⟩
    let friend (value : Json) := resolve (.reference "User" .mixed) context (.obj [("friend", value)]) "friend"
    leafOutcome (recordOf context "User" .mixed) (.int 5) = .null ∧
      friend (.arr [.int 5, .str "1"]) = .ok (.arr [.null, record]) ∧
      friend (.int 5) = .ok (.int 5) ∧
      ¬∀ value, friend value = .ok (pointwise context "User" .mixed value) := by
  intro record context friend
  refine ⟨rfl, rfl, rfl, fun h ↦ ?_⟩
  cases h (.int 5)

/-- A list with an identifier, a list of its own with a record of another owner and a number, and an
identifier that nothing is kept under. -/
theorem resolve_leaf_by_leaf_nested :
    let record (id owner : String) : Json := .obj [("id", .str id), ("owner", .str owner)]
    let context : RequestContext :=
      ⟨some "ann", ["User"], ⟨[("User", [("1", record "1" "ann"), ("2", record "2" "bob")])]⟩⟩
    let parent : Json := .obj [("friends",
      .arr [.str "1", .arr [.obj [("id", .str "2")], .int 5], .str "3"])]
    context.stores.contains "User" = true ∧
      resolve (.reference "User" .own) context parent "friends" =
        .ok (.arr [record "1" "ann", .arr [.null, .null], .null]) := by
  intro record context parent
  refine ⟨by decide, ?_⟩
  have hidentifier : ∃ leaf ∈ leaves (parent.get "friends"), (identifier? leaf).isSome :=
    ⟨.str "1", List.mem_cons_self, rfl⟩
  exact (resolve_leaf_by_leaf (by decide) parent "friends").1 hidentifier

end FieldResolver

end ResourceApi

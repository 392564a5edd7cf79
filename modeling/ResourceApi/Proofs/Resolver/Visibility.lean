import ResourceApi.Proofs.Resolver.Isolation
import ResourceApi.Resolver.Reference

/-!
# The two tests of visibility

A query asks for the records of a segment by a filter, and a reference tests a single record.  The two
agree on every record, whatever stands in its owner field, but for one form: a list of owners that has
the caller among its items.  The filter takes such a list for each of its items, so it counts the record
among the caller's own, while the test looks for a text and counts it among the others.
-/

namespace ResourceApi

/-- The record has a list of owners, and the name is among them. -/
def ListsOwner (record : Json) (name : String) : Prop :=
  ∃ items, record.get? ownerField = some (.arr items) ∧ .str name ∈ items

namespace Filter

theorem segments_ownerField : Path.segments ownerField = [ownerField] := by decide

theorem accepts_owner (record condition : Json) :
    accepts record (.obj [(ownerField, condition)]) =
      matchField (record.get? ownerField) condition := by
  have hplain : Connective.ofKey? ownerField = none := by decide
  cases condition <;>
    simp [accepts, acceptsConditions, acceptsCondition, hplain, lookup_plain segments_ownerField]

theorem equal_str_iff {value : Json} {text : String} :
    value.equal (.str text) = true ↔ value = .str text := by
  cases value <;> simp [Json.equal]

/-- A text is found in a field that holds it, and in a list that has it among its items. -/
theorem equals_str_iff {found : Option Json} {text : String} :
    equals found (.str text) = true ↔
      found.bind Json.str? = some text ∨ ∃ items, found = some (.arr items) ∧ .str text ∈ items := by
  unfold equals
  split
  · simp [Json.isNull]
  · rename_i items
    simp [Json.isArray, Json.str?, equal_str_iff]
  · rename_i value hlist
    have hnone : ∀ items, value ≠ .arr items := fun items heq ↦ hlist items (heq ▸ rfl)
    cases value <;> simp_all [Json.equal, Json.str?]

theorem matchField_ne (found : Option Json) (value : Json) :
    matchField found (.obj [("$ne", value)]) = !equals found value := by
  have hname : isOperatorName "$ne" = true := by decide
  simp [matchField, hname, applyOperator]

end Filter

namespace Segment

variable {segment : Segment} {caller : Option String} {record : Json} {name : String}

/-- A query of the segment reads the record: it meets the filter of the segment.  Where there is no
filter, for want of a caller, nothing is read. -/
def selects (segment : Segment) (record : Json) (caller : Option String) : Bool :=
  match segment.filter? caller with
  | .ok filter => Filter.accepts record filter
  | .error _ => false

theorem selects_own_iff : own.selects record (some name) = true ↔
    own.allows record (some name) = true ∨ ListsOwner record name := by
  change Filter.accepts record (.obj [(ownerField, .str name)]) = true ↔ _
  rw [Filter.accepts_owner]
  change Filter.equals (record.get? ownerField) (.str name) = true ↔ _
  rw [Filter.equals_str_iff]
  simp [allows, ListsOwner]

theorem selects_others_iff : others.selects record (some name) = true ↔
    others.allows record (some name) = true ∧ ¬ListsOwner record name := by
  change Filter.accepts record (.obj [(ownerField, .obj [("$ne", .str name)])]) = true ↔ _
  rw [Filter.accepts_owner, Filter.matchField_ne, Bool.not_eq_true', ← Bool.not_eq_true,
    Filter.equals_str_iff, not_or]
  simp [allows, ListsOwner]

/-- A list is no text, so a record with a list of owners is nobody's own. -/
theorem allows_of_listsOwner (h : ListsOwner record name) :
    own.allows record (some name) = false ∧ others.allows record (some name) = true := by
  obtain ⟨items, howner, -⟩ := h
  simp [allows, howner, Json.str?]

/-- The two tests agree on a record unless it lists the caller among several owners. -/
theorem selects_eq_allows_iff (segment : Segment) (record : Json) (caller : Option String) :
    segment.selects record caller = segment.allows record caller ↔
      segment = .mixed ∨ ∀ name ∈ caller, ¬ListsOwner record name := by
  cases caller with
  | none => cases segment <;> simp [selects, filter?, allows, Filter.accepts, Filter.acceptsConditions]
  | some name =>
    rw [Bool.eq_iff_iff]
    cases segment with
    | mixed => simp [selects, filter?, allows, Filter.accepts, Filter.acceptsConditions]
    | own =>
      rw [selects_own_iff]
      simp only [reduceCtorEq, false_or, Option.mem_def, Option.some.injEq, forall_eq']
      refine ⟨fun h hlist ↦ ?_, fun h ↦ or_iff_left h⟩
      exact Bool.false_ne_true ((allows_of_listsOwner hlist).1.symm.trans (h.mp (.inr hlist)))
    | others =>
      rw [selects_others_iff]
      simp only [reduceCtorEq, false_or, Option.mem_def, Option.some.injEq, forall_eq']
      exact ⟨fun h hlist ↦ (h.mpr (allows_of_listsOwner hlist).2).2 hlist, fun h ↦ and_iff_left h⟩

/-- A query of the segment reads the record. -/
def Reads (segment : Segment) (context : RequestContext) (resource : String) (record : Json) : Prop :=
  ∃ filter, segment.filter? context.caller = .ok filter ∧
    record ∈ context.store.accepted resource filter

/-- A reference of the segment leads to the record that is kept under the identifier. -/
def LeadsTo (segment : Segment) (context : RequestContext) (resource id : String) (record : Json) :
    Prop :=
  ∀ field, FieldResolver.resolve (.reference resource segment) context (.obj [(field, .str id)]) field =
    .ok record

variable {context : RequestContext} {resource id : String}

theorem reads_iff (stored : context.store.find? resource id = some record) :
    segment.Reads context resource record ↔ segment.selects record context.caller = true := by
  have hmem : record ∈ context.store.records resource :=
    List.mem_map_of_mem (Entries.mem_of_get? stored)
  unfold Reads selects Store.accepted
  cases segment.filter? context.caller with
  | error _ => simp
  | ok filter => simp [hmem]

theorem resolve_identifier (registered : context.stores.contains resource = true) (field : String) :
    FieldResolver.resolve (.reference resource segment) context (.obj [(field, .str id)]) field =
      .ok (FieldResolver.shown segment context.caller (context.store.find? resource id)) := by
  have hvalue : (Json.obj [(field, .str id)]).get field = .str id := by
    simp [Json.get, Json.get?]
  unfold FieldResolver.resolve RequestContext.requireStore
  rw [hvalue]
  simp only [FieldResolver.collectIds, if_pos registered]
  rfl

theorem leadsTo_iff (registered : context.stores.contains resource = true)
    (stored : context.store.find? resource id = some record) (object : record ≠ .null) :
    segment.LeadsTo context resource id record ↔ segment.allows record context.caller = true := by
  have hshown : FieldResolver.shown segment context.caller (some record) = record ↔
      segment.allows record context.caller = true := by
    cases hallows : segment.allows record context.caller <;>
      simp [FieldResolver.shown, Option.filter, hallows, Ne.symm object]
  unfold LeadsTo
  simp only [resolve_identifier registered, stored, Except.ok.injEq, hshown, forall_const]

/-- The filter of a segment and its test of a single record agree on a record exactly if the segment is
the mixed one or the record does not list the caller among several owners.  So this is also when a stored
record is read by the queries of a segment exactly if the references of the segment lead to it. -/
theorem reads_iff_leadsTo (segment : Segment) :
    (∀ record caller, segment.selects record caller = segment.allows record caller ↔
      segment = .mixed ∨ ∀ name ∈ caller, ¬ListsOwner record name) ∧
    ∀ context resource id record, context.stores.contains resource = true →
      context.store.find? resource id = some record → record ≠ .null →
      ((segment.Reads context resource record ↔ segment.LeadsTo context resource id record) ↔
        segment = .mixed ∨ ∀ name ∈ context.caller, ¬ListsOwner record name) := by
  refine ⟨selects_eq_allows_iff segment, fun context resource id record registered stored object ↦ ?_⟩
  rw [reads_iff stored, leadsTo_iff registered stored object, ← Bool.eq_iff_iff,
    selects_eq_allows_iff]

/-- A record of two owners is read by the query of the caller's own records, but no reference to the
caller's own records leads to it. -/
theorem reads_not_leadsTo :
    let record : Json := .obj [("id", .str "1"), ("owner", .arr [.str "ann", .str "bob"])]
    let context : RequestContext := ⟨some "ann", ["User"], ⟨[("User", [("1", record)])]⟩⟩
    Store.empty.insert "User" record = .ok context.store ∧
      own.Reads context "User" record ∧ ¬own.LeadsTo context "User" "1" record := by
  intro record context
  have hstored : context.store.find? "User" "1" = some record := rfl
  refine ⟨rfl, (reads_iff hstored).mpr (by decide), fun h ↦ ?_⟩
  have hallowed := (leadsTo_iff (by decide) hstored (by simp [record])).mp h
  exact Bool.false_ne_true hallowed

/-- A record of a single owner, which queries and references of the others show. -/
theorem reads_iff_leadsTo_single :
    let record : Json := .obj [("id", .str "1"), ("owner", .str "bob")]
    let context : RequestContext := ⟨some "ann", ["User"], ⟨[("User", [("1", record)])]⟩⟩
    context.stores.contains "User" = true ∧ context.store.find? "User" "1" = some record ∧
      record ≠ .null ∧
      (others.Reads context "User" record ↔ others.LeadsTo context "User" "1" record) := by
  intro record context
  have hstored : context.store.find? "User" "1" = some record := rfl
  have hobject : record ≠ .null := by simp [record]
  refine ⟨by decide, hstored, hobject, ?_⟩
  refine ((reads_iff_leadsTo others).2 context "User" "1" record (by decide) hstored hobject).mpr
    (.inr fun name _ ⟨items, hlist, _⟩ ↦ ?_)
  cases hlist

end Segment

end ResourceApi

import Mathlib
import ResourceApi.Proofs.Resolver.Isolation

/-!
# Pages

The pages of a query are its result cut into pieces of one length.  Where a page starts is computed in 64
bits and does not grow beyond them, which makes no difference as long as the records can be counted: a
page that starts there or later is empty either way.  So the pages one after another are the whole result,
and the total on each of them is what counting gives.
-/

namespace ResourceApi

/-! ## Pieces of a list -/

section Pieces

variable {α : Type}

/-- The piece that a page shows, cut off where the list ends. -/
theorem take_drop_eq_extract (records : List α) {page : Nat} (limit : Nat) (hpage : 0 < page) :
    (records.drop ((page - 1) * limit)).take limit =
      records.extract ((page - 1) * limit) (min (page * limit) records.length) := by
  have hstop : page * limit = (page - 1) * limit + limit := by
    rw [← Nat.succ_mul, Nat.succ_eq_add_one, Nat.sub_add_cancel hpage]
  rw [List.extract_eq_take_drop, List.take_eq_take_iff, List.length_drop, hstop]
  omega

/-- A start beyond a bound that the list does not exceed may be lowered to it. -/
theorem drop_min {records : List α} {bound : Nat} (h : records.length ≤ bound) (start : Nat) :
    records.drop (min start bound) = records.drop start := by
  rcases Nat.le_total start bound with hstart | hstart
  · rw [Nat.min_eq_left hstart]
  · rw [Nat.min_eq_right hstart, List.drop_eq_nil_of_le h, List.drop_eq_nil_of_le (h.trans hstart)]

theorem flatMap_pieces (records : List α) (limit count : Nat) :
    (List.range count).flatMap (fun page ↦ (records.drop (page * limit)).take limit) =
      records.take (count * limit) := by
  induction count with
  | zero => simp
  | succ count ih =>
    calc (List.range (count + 1)).flatMap (fun page ↦ (records.drop (page * limit)).take limit)
        = records.take (count * limit) ++ (records.drop (count * limit)).take limit := by
          rw [List.range_succ, List.flatMap_append, ih, List.flatMap_singleton]
      _ = records.take ((count + 1) * limit) := by rw [← List.take_add, Nat.succ_mul]

end Pieces

namespace Pagination

variable {pagination : Pagination} {arguments : Json} {page : Nat}

/-! ## Turning pages -/

/-- The same arguments, but for another page. -/
def turnTo (page : Nat) : Json → Json
  | .obj members => .obj (Entries.adjust "pagination" (fun input ↦
      match input with
      | .obj inner => .obj (Entries.put "page" (.ofNat page) inner)
      | other => other) members)
  | other => other

theorem get?_turnTo {key : String} (h : key ≠ "pagination") (arguments : Json) :
    (turnTo page arguments).get? key = arguments.get? key := by
  cases arguments with
  | obj members =>
    change Entries.get? (Entries.adjust _ _ _) key = Entries.get? members key
    rw [Entries.get?_adjust, if_neg h]
  | _ => rfl

theorem positive_eq_ok_iff {input : Json} {key : String} {n : Nat} :
    positive input key = .ok n ↔ 0 < n ∧ (input.get? key).bind Json.unsigned? = some n := by
  unfold positive
  cases h : (input.get? key).bind Json.unsigned? with
  | none => simp
  | some m => cases m <;> simp <;> omega

theorem ofArguments_eq_ok_iff :
    ofArguments arguments = .ok pagination ↔
      ∃ inner, arguments.get? "pagination" = some (.obj inner) ∧
        positive (.obj inner) "page" = .ok pagination.page ∧
        positive (.obj inner) "limit" = .ok pagination.limit ∧
        SortKey.ofDocument ((Json.obj inner).get "sort") = pagination.sort := by
  unfold ofArguments
  split
  · rename_i inner hinner
    simp only [Except.bind_eq_ok_iff, pure, Except.pure, Except.ok.injEq, hinner, Option.some.injEq,
      Json.obj.injEq]
    constructor
    · rintro ⟨page, hpage, limit, hlimit, rfl⟩
      exact ⟨inner, rfl, hpage, hlimit, rfl⟩
    · rintro ⟨_, rfl, hpage, hlimit, hsort⟩
      exact ⟨pagination.page, hpage, pagination.limit, hlimit, by rw [hsort]⟩
  · rename_i hother
    constructor
    · intro h
      cases h
    · rintro ⟨inner, hinner, -⟩
      exact absurd hinner (hother inner)

/-- What is asked of one page can be asked of every other that 64 bits can number. -/
theorem ofArguments_turnTo (h : ofArguments arguments = .ok pagination) (hpage : 0 < page)
    (hbound : page ≤ maxCount) :
    ofArguments (turnTo page arguments) = .ok { pagination with page := page } := by
  obtain ⟨inner, hinner, -, hlimit, hsort⟩ := ofArguments_eq_ok_iff.mp h
  have hsame {key : String} (hkey : key ≠ "page") :
      (Json.obj (Entries.put "page" (.ofNat page) inner)).get? key = (Json.obj inner).get? key :=
    Entries.get?_put_of_ne _ _ hkey _ _
  apply ofArguments_eq_ok_iff.mpr
  refine ⟨Entries.put "page" (.ofNat page) inner, ?_, ?_, ?_, ?_⟩
  · cases arguments with
    | obj members =>
      change Entries.get? (Entries.adjust _ _ _) "pagination" = _
      rw [Entries.get?_adjust, if_pos rfl, show Entries.get? members "pagination" = _ from hinner]
      rfl
    | _ => cases hinner
  · have hunsigned : (Json.ofNat page).unsigned? = some page := by
      have hlt : page < Json.unsignedBound := Nat.lt_of_le_pred (by decide) hbound
      simpa [Json.ofNat, Json.unsigned?] using hlt
    apply positive_eq_ok_iff.mpr ⟨hpage, ?_⟩
    rw [show (Json.obj (Entries.put "page" (.ofNat page) inner)).get? "page" = some (.ofNat page) from
      Entries.get?_put_self ..]
    exact hunsigned
  · rw [positive_eq_ok_iff] at hlimit ⊢
    rwa [hsame (by decide)]
  · rw [← hsort, Json.get, hsame (by decide), Json.get]

end Pagination

namespace QueryResolver

variable {resolver : QueryResolver} {context : RequestContext} {arguments filter : Json}
  {pagination : Pagination}

/-! ## The answer of a page -/

/-- The records that an answered page holds. -/
def docsOf : Except ResolveError Json → List Json
  | .ok page => ((page.get "docs").items?).getD []
  | .error _ => []

/-- The filter of a paginated call is that of a filtered one, whatever the page. -/
theorem filter_turnTo (paginated : resolver.range = .paginated) (caller : Option String) (page : Nat)
    (part : QueryPart) :
    QueryResolver.filter { resolver with range := .filtered, part := part } caller arguments =
        resolver.filter caller arguments ∧
      resolver.filter caller (Pagination.turnTo page arguments) = resolver.filter caller arguments := by
  unfold QueryResolver.filter
  rw [paginated]
  simp only [rangeFilter, Pagination.get?_turnTo (show "filter" ≠ "pagination" by decide), and_self]

theorem find_sorted (store : Store) (resource : String) (sort : List SortKey) :
    store.find resource filter { Store.FindOptions.everything with sort := sort } =
      SortKey.sort sort (store.accepted resource filter) := by
  simp [Store.find, Store.FindOptions.everything, Store.page]

theorem length_sort (keys : List SortKey) (records : List Json) :
    (SortKey.sort keys records).length = records.length :=
  List.length_mergeSort records

/-- The answer to a paginated call, from the whole sorted result. -/
theorem answer_page (paginated : resolver.range = .paginated) (whole : resolver.part = .whole)
    (accepted : Pagination.ofArguments arguments = .ok pagination) (store : Store) :
    resolver.answer store filter arguments =
      .ok (pageJson pagination
        ((((SortKey.sort pagination.sort (store.accepted resolver.resource filter)).drop
          pagination.skip).take pagination.limit).map (Store.project resolver.projection))
        (store.count resolver.resource filter)) := by
  have hfields : resolver.fields = resolver.projection := by simp [fields, whole]
  unfold answer
  rw [whole, paginated, accepted, hfields]
  rfl

theorem docsOf_pageJson (pagination : Pagination) (records : List Json) (total : Nat) :
    docsOf (.ok (pageJson pagination records total)) = records := rfl

/-- The pages of a query are its result cut into pieces.  Here `result` is what the same filter and the
same sort keys find, without a start and without a bound.  A page holds the projections of its piece, the
last one cut off where the result ends, and the length of the result as its total, which is also what
counting under the same filter gives.  The pages up to the last that is not empty are the whole result,
each record once and in order; there are no more of them than can be asked for, and every page after them
is empty.  A length is a 64-bit number, so no result is longer than `countable` allows: past that the
saturated start of a page would fall inside the result. -/
theorem resolve_pages (resolver : QueryResolver) (context : RequestContext) (arguments filter : Json)
    (pagination : Pagination) (paginated : resolver.range = .paginated)
    (whole : resolver.part = .whole)
    (accepted : Pagination.ofArguments arguments = .ok pagination)
    (selects : resolver.filter context.caller arguments = .ok filter)
    (stored : context.stores.contains resolver.resource = true)
    (countable : context.store.count resolver.resource filter ≤ Pagination.maxCount) :
    let result := context.store.find resolver.resource filter
      { Store.FindOptions.everything with sort := pagination.sort }
    let answer page := resolver.resolve context (Pagination.turnTo page arguments)
    let pages := result.length ⌈/⌉ pagination.limit
    (∀ page, 0 < page → page ≤ Pagination.maxCount → answer page =
      .ok (pageJson { pagination with page := page }
        ((result.extract ((page - 1) * pagination.limit)
          (min (page * pagination.limit) result.length)).map (Store.project resolver.projection))
        result.length)) ∧
    QueryResolver.resolve { resolver with range := .filtered, part := .count } context arguments =
      .ok (.ofNat result.length) ∧
    pages ≤ Pagination.maxCount ∧
    (List.range pages).flatMap (fun page ↦ docsOf (answer (page + 1))) =
      result.map (Store.project resolver.projection) ∧
    ∀ page, pages < page → page ≤ Pagination.maxCount → docsOf (answer page) = [] := by
  intro result answer pages
  have hlimit : 0 < pagination.limit := by
    obtain ⟨inner, -, -, hlimit, -⟩ := Pagination.ofArguments_eq_ok_iff.mp accepted
    exact (Pagination.positive_eq_ok_iff.mp hlimit).1
  have hresult : result = SortKey.sort pagination.sort (context.store.accepted resolver.resource filter) :=
    find_sorted ..
  have hlength : context.store.count resolver.resource filter = result.length := by
    rw [hresult, length_sort, Store.count]
  rw [hlength] at countable
  have hanswer (page : Nat) (hpage : 0 < page) (hbound : page ≤ Pagination.maxCount) : answer page =
      .ok (pageJson { pagination with page := page }
        (((result.drop ((page - 1) * pagination.limit)).take pagination.limit).map
          (Store.project resolver.projection)) result.length) := by
    apply resolve_eq_ok_iff.mpr
    refine ⟨filter, (filter_turnTo paginated _ page .whole).2.trans selects, stored, ?_⟩
    rw [answer_page paginated whole (Pagination.ofArguments_turnTo accepted hpage hbound), ← hresult,
      hlength, Pagination.skip, drop_min countable]
  have hcovered (page : Nat) : pages ≤ page ↔ result.length ≤ page * pagination.limit := by
    rw [ceilDiv_le_iff_le_mul hlimit, Nat.mul_comm]
  have hpages : pages ≤ Pagination.maxCount :=
    (hcovered _).mpr (countable.trans (Nat.le_mul_of_pos_right _ hlimit))
  refine ⟨fun page hpage hbound ↦ ?_, ?_, hpages, ?_, fun page hlater hbound ↦ ?_⟩
  · rw [hanswer page hpage hbound, take_drop_eq_extract result _ hpage]
  · apply resolve_eq_ok_iff.mpr
    refine ⟨filter, (filter_turnTo paginated _ 0 .count).1.trans selects, stored, ?_⟩
    rw [← hlength]
    rfl
  · calc (List.range pages).flatMap (fun page ↦ docsOf (answer (page + 1)))
        = (List.range pages).flatMap (fun page ↦
            ((result.drop (page * pagination.limit)).take pagination.limit).map
              (Store.project resolver.projection)) := by
          apply List.flatMap_congr
          intro page hpage
          have hbound : page + 1 ≤ Pagination.maxCount :=
            (Nat.succ_le_of_lt (List.mem_range.mp hpage)).trans hpages
          rw [hanswer (page + 1) (Nat.succ_pos page) hbound, docsOf_pageJson, Nat.add_sub_cancel]
      _ = (result.take (pages * pagination.limit)).map (Store.project resolver.projection) := by
          rw [← flatMap_pieces, List.map_flatMap]
      _ = result.map (Store.project resolver.projection) := by
          rw [List.take_of_length_le ((hcovered pages).mp le_rfl)]
  · have hpage : 0 < page := Nat.zero_lt_of_lt hlater
    have hstart : result.length ≤ (page - 1) * pagination.limit :=
      (hcovered (page - 1)).mp (Nat.le_sub_one_of_lt hlater)
    rw [hanswer page hpage hbound, docsOf_pageJson, List.drop_eq_nil_of_le hstart,
      List.take_nil, List.map_nil]

/-- Three records by falling age on pages of two: the second page holds the youngest, and the last page
that can be asked for is empty although its start does not fit 64 bits. -/
theorem resolve_pages_users :
    let user : ModelHandle := ⟨"User", []⟩
    let store := Store.empty.run [.create user "1" (.obj [("age", .int 30)]) "ann",
      .create user "2" (.obj [("age", .int 20)]) "ann", .create user "3" (.obj [("age", .int 40)]) "bob"]
    let resolver : QueryResolver := ⟨"User", .paginated, .mixed, .whole, ["id"], none⟩
    let context : RequestContext := ⟨none, ["User"], store⟩
    let input := [("page", .ofNat 1), ("limit", .ofNat 2), ("sort", .obj [("age", .int (-1))])]
    let arguments : Json := .obj [("pagination", .obj input)]
    Pagination.ofArguments arguments = .ok ⟨1, 2, [⟨"age", true⟩]⟩ ∧
    docsOf (resolver.resolve context (Pagination.turnTo 2 arguments)) = [.obj [("id", .str "2")]] ∧
    docsOf (resolver.resolve context (Pagination.turnTo Pagination.maxCount arguments)) = [] := by
  intro user store resolver context input arguments
  have accepted : Pagination.ofArguments arguments = .ok ⟨1, 2, [⟨"age", true⟩]⟩ := rfl
  obtain ⟨hpage, -, -, -, hlater⟩ := resolve_pages resolver context arguments (.obj []) _ rfl rfl accepted
    rfl rfl (by decide)
  have hresult : store.find "User" (.obj []) { Store.FindOptions.everything with sort := [⟨"age", true⟩] } =
      [.obj [("age", .int 40), ("id", .str "3"), ("owner", .str "bob")],
        .obj [("age", .int 30), ("id", .str "1"), ("owner", .str "ann")],
        .obj [("age", .int 20), ("id", .str "2"), ("owner", .str "ann")]] := by
    cbv
  refine ⟨accepted, ?_, ?_⟩
  · have hsecond := hpage 2 (by decide) (by decide)
    dsimp only [resolver, context] at hsecond ⊢
    rw [hresult] at hsecond
    rw [hsecond]
    rfl
  · apply hlater Pagination.maxCount _ le_rfl
    dsimp only [resolver, context]
    rw [hresult]
    decide

end QueryResolver

end ResourceApi

import ResourceApi.Proofs.Store.Consistency
import ResourceApi.Resolver.Query

/-!
# Isolation of callers

A query returns exactly the records that its arguments ask for and that its segment shows to the caller,
in every store that calls lead to and for every filter, however it is nested.  The two filters are met
one by one, so no filter of a caller reaches beyond the segment.
-/

namespace ResourceApi

/-! ## Filters -/

namespace Filter

theorem accepts_of_isEmpty {filter : Json} (h : isEmpty filter = true) (record : Json) :
    accepts record filter = true := by
  cases filter with
  | obj members =>
    obtain rfl := List.isEmpty_iff.mp h
    rfl
  | _ => cases h

/-- Dropping an empty filter does not change what the two filters accept together. -/
theorem accepts_both (record left right : Json) :
    accepts record (both left right) = (accepts record left && accepts record right) := by
  unfold both
  by_cases hleft : isEmpty left = true
  · simp [hleft, accepts_of_isEmpty hleft]
  · by_cases hright : isEmpty right = true
    · simp [hleft, hright, accepts_of_isEmpty hright]
    · have hand : Connective.ofKey? "$and" = some .and := rfl
      simp [hleft, hright, accepts, acceptsConditions, acceptsCondition, hand, acceptsAll]

theorem lookup_plain {key : String} (h : Path.segments key = [key]) (record : Json) :
    record.lookup key = record.get? key := by
  unfold Json.lookup
  rw [h]
  cases hget : record.get? key <;> simp [Json.lookupIn, hget]

theorem equals_text (held text : String) : equals (some (.str held)) (.str text) = (held == text) := by
  simp [equals, Json.equal]

/-- A filter that asks for a text under a plain name. -/
theorem accepts_text {record : Json} {key held text : String} (hkey : Path.segments key = [key])
    (hplain : Connective.ofKey? key = none) (hget : record.get? key = some (.str held)) :
    accepts record (.obj [(key, .str text)]) = (held == text) := by
  have hfield : matchField (record.lookup key) (.str text) = (held == text) := by
    rw [lookup_plain hkey, hget]
    exact equals_text held text
  simp only [accepts, acceptsConditions, acceptsCondition, hplain, hfield, Bool.and_true]

theorem accepts_other_text {record : Json} {key held text : String}
    (hkey : Path.segments key = [key]) (hplain : Connective.ofKey? key = none)
    (hget : record.get? key = some (.str held)) :
    accepts record (.obj [(key, .obj [("$ne", .str text)])]) = (held != text) := by
  have hoperator : applyOperator (some (.str held)) "$ne" (.str text) = (held != text) :=
    congrArg not (equals_text held text)
  have hname : isOperatorName "$ne" = true := by decide
  have hfield : matchField (record.lookup key) (.obj [("$ne", .str text)]) = (held != text) := by
    rw [lookup_plain hkey, hget]
    simp only [matchField, List.all_cons, List.all_nil, hname, hoperator, Bool.and_true, if_true]
  simp only [accepts, acceptsConditions, acceptsCondition, hplain, hfield, Bool.and_true]

end Filter

/-! ## What a query selects -/

/-- The arguments ask for the record. -/
def QueryRange.asks (range : QueryRange) (arguments record : Json) : Bool :=
  match range with
  | .all => true
  | .filtered | .paginated => Filter.accepts record (arguments.get "filter")
  | .byId => (record.get? idField).bind Json.str? == (arguments.get? idField).bind Json.str?

/-- The arguments have the form that the range needs. -/
def QueryRange.reads (range : QueryRange) (arguments : Json) : Bool :=
  match range with
  | .all => true
  | .filtered | .paginated => (arguments.get "filter").isNull || (arguments.get "filter").isObject
  | .byId => ((arguments.get? idField).bind Json.str?).isSome

/-- The records that the arguments ask for and the segment shows, in insertion order. -/
def QueryResolver.selected (resolver : QueryResolver) (context : RequestContext)
    (arguments : Json) : List Json :=
  (context.store.records resolver.resource).filter fun record ↦
    resolver.range.asks arguments record && resolver.segment.allows record context.caller

/-- On sound records the filter of a segment is its test of a single record. -/
theorem Segment.accepts_filter {segment : Segment} {caller : Option String} {filter record : Json}
    {id : String} (hfilter : segment.filter? caller = .ok filter)
    (hrecord : Store.RecordSound id record) :
    Filter.accepts record filter = segment.allows record caller := by
  obtain ⟨owner, howner⟩ := hrecord.owner
  have hkey : Path.segments ownerField = [ownerField] := by decide
  have hplain : Filter.Connective.ofKey? ownerField = none := by decide
  cases segment with
  | mixed =>
    cases hfilter
    rfl
  | own =>
    cases caller with
    | none => cases hfilter
    | some name =>
      cases hfilter
      rw [Filter.accepts_text hkey hplain howner]
      simp [Segment.allows, howner, Json.str?]
  | others =>
    cases caller with
    | none => cases hfilter
    | some name =>
      cases hfilter
      rw [Filter.accepts_other_text hkey hplain howner]
      simp [Segment.allows, howner, Json.str?, bne]

theorem QueryRange.accepts_filter {range : QueryRange} {arguments filter record : Json}
    {id : String} (hfilter : QueryResolver.rangeFilter range arguments = .ok filter)
    (hrecord : Store.RecordSound id record) :
    Filter.accepts record filter = range.asks arguments record := by
  cases range with
  | all =>
    cases hfilter
    rfl
  | byId =>
    simp only [QueryResolver.rangeFilter] at hfilter
    split at hfilter
    · rename_i wanted hwanted
      cases hfilter
      rw [Filter.accepts_text (by decide) (by decide) hrecord.id]
      simp [QueryRange.asks, hrecord.id, hwanted, Json.str?]
    · cases hfilter
  | _ =>
    simp only [QueryResolver.rangeFilter] at hfilter
    split at hfilter <;> rename_i hget <;> cases hfilter <;>
      simp [QueryRange.asks, Json.get, hget, Filter.accepts, Filter.acceptsConditions]

/-! ## What the store gives -/

namespace Store

variable {store : Store} {resource : String}

theorem sort_nil (records : List Json) : SortKey.sort [] records = records :=
  List.mergeSort_of_pairwise (List.pairwise_of_forall fun _ _ ↦ rfl)

theorem find_everything (filter : Json) (fields : List String) :
    store.find resource filter { FindOptions.everything with projection := some fields } =
      (store.accepted resource filter).map (project fields) := by
  simp [Store.find, FindOptions.everything, page, sort_nil]

theorem find_first (filter : Json) (fields : List String) :
    (store.find resource filter
      { FindOptions.everything with projection := some fields, limit := some 1 }).head? =
      (store.accepted resource filter).head?.map (project fields) := by
  simp [Store.find, FindOptions.everything, page, sort_nil, List.head?_take]

end Store

/-- The record with a given identifier is the one kept under it. -/
theorem Collection.Sound.filter_values {collection : Collection} (h : collection.Sound) (id : String)
    (p : Json → Bool) :
    collection.values.filter
        (fun record ↦ (record.get? idField).bind Json.str? == some id && p record) =
      ((collection.get? id).filter p).toList := by
  induction collection with
  | nil => rfl
  | cons entry rest ih =>
    obtain ⟨key, record⟩ := entry
    obtain ⟨hkey, hdistinct⟩ := List.nodup_cons.mp h.distinct
    have hrest : Collection.Sound rest :=
      ⟨hdistinct, fun other held hmem ↦ h.records other held (List.mem_cons_of_mem _ hmem)⟩
    have hid := (h.records key record List.mem_cons_self).id
    have hvalues : Entries.values ((key, record) :: rest) = record :: Entries.values rest := rfl
    rw [hvalues, List.filter_cons, ih hrest, Entries.get?_cons, hid]
    by_cases heq : id = key
    · subst heq
      have hnone : Entries.get? rest id = none := Entries.get?_eq_none_iff.mpr hkey
      cases hp : p record <;> simp [hnone, hp, Json.str?, Option.filter]
    · simp [heq, Ne.symm heq, Json.str?]

/-! ## What a query returns -/

namespace QueryResolver

variable {resolver : QueryResolver} {context : RequestContext} {arguments filter value : Json}

theorem filter_eq_ok_iff {caller : Option String} :
    resolver.filter caller arguments = .ok filter ↔
      ∃ visible asked, resolver.segment.filter? caller = .ok visible ∧
        rangeFilter resolver.range arguments = .ok asked ∧ Filter.both visible asked = filter := by
  unfold QueryResolver.filter
  simp only [Except.bind_eq_ok_iff, pure, Except.pure, Except.ok.injEq]
  constructor
  · rintro ⟨visible, hvisible, asked, hasked, hboth⟩
    exact ⟨visible, asked, hvisible, hasked, hboth⟩
  · rintro ⟨visible, asked, hvisible, hasked, hboth⟩
    exact ⟨visible, hvisible, asked, hasked, hboth⟩

theorem filter?_isOk_iff (segment : Segment) (caller : Option String) :
    (∃ visible, segment.filter? caller = .ok visible) ↔ segment = .mixed ∨ caller.isSome = true := by
  cases segment <;> cases caller <;> simp [Segment.filter?]

theorem rangeFilter_isOk_iff (range : QueryRange) (arguments : Json) :
    (∃ asked, rangeFilter range arguments = .ok asked) ↔ range.reads arguments = true := by
  cases range with
  | all => simp [rangeFilter, QueryRange.reads]
  | byId => cases h : (arguments.get? idField).bind Json.str? <;> simp [rangeFilter, QueryRange.reads, h]
  | _ =>
    simp only [rangeFilter, QueryRange.reads, Json.get]
    split <;> rename_i h <;> simp_all [Json.isNull, Json.isObject]

/-- A call has a filter when its segment can be queried and its arguments have the form needed. -/
theorem filter_isOk_iff (caller : Option String) :
    (∃ filter, resolver.filter caller arguments = .ok filter) ↔
      (resolver.segment = .mixed ∨ caller.isSome = true) ∧
        resolver.range.reads arguments = true := by
  rw [← filter?_isOk_iff, ← rangeFilter_isOk_iff]
  constructor
  · rintro ⟨filter, hfilter⟩
    obtain ⟨visible, asked, hvisible, hasked, -⟩ := filter_eq_ok_iff.mp hfilter
    exact ⟨⟨visible, hvisible⟩, asked, hasked⟩
  · rintro ⟨⟨visible, hvisible⟩, asked, hasked⟩
    exact ⟨_, filter_eq_ok_iff.mpr ⟨visible, asked, hvisible, hasked, rfl⟩⟩

/-- On the records of a sound collection the filter of a call selects what its two parts do. -/
theorem accepted_eq_selected (hfilter : resolver.filter context.caller arguments = .ok filter)
    (hsound : (context.store.collection resolver.resource).Sound) :
    context.store.accepted resolver.resource filter = resolver.selected context arguments := by
  obtain ⟨visible, asked, hvisible, hasked, rfl⟩ := filter_eq_ok_iff.mp hfilter
  refine List.filter_congr fun record hmem ↦ ?_
  obtain ⟨⟨id, held⟩, hentry, rfl⟩ := List.mem_map.mp hmem
  have hrecord : Store.RecordSound id held := hsound.records id held hentry
  rw [Filter.accepts_both, Segment.accepts_filter hvisible hrecord,
    QueryRange.accepts_filter hasked hrecord, Bool.and_comm]

theorem selected_byId {id : String} (hrange : resolver.range = .byId)
    (hid : arguments.get? idField = some (.str id))
    (hsound : (context.store.collection resolver.resource).Sound) :
    resolver.selected context arguments =
      ((context.store.find? resolver.resource id).filter
        (resolver.segment.allows · context.caller)).toList := by
  rw [Store.find?, ← hsound.filter_values, selected, hrange]
  simp only [QueryRange.asks, hid, Option.bind_some, Json.str?]
  rfl

/-- What an answered call returns, by the records that it selects. -/
theorem answer_selected (hfilter : resolver.filter context.caller arguments = .ok filter)
    (hsound : (context.store.collection resolver.resource).Sound)
    (hok : resolver.answer context.store filter arguments = .ok value) :
    (resolver.part = .count → value = .ofNat (resolver.selected context arguments).length) ∧
    (resolver.part = .whole → resolver.range = .all ∨ resolver.range = .filtered →
      value = .arr ((resolver.selected context arguments).map (Store.project resolver.projection))) ∧
    (resolver.part ≠ .count → resolver.range = .byId →
      value = ((resolver.selected context arguments).head?.map
        (Store.project resolver.fields)).getD .null) := by
  have haccepted := accepted_eq_selected hfilter hsound
  refine ⟨fun hpart ↦ ?_, fun hpart hrange ↦ ?_, fun hpart hrange ↦ ?_⟩
  · simp only [answer, hpart, Store.count, haccepted] at hok
    exact (Except.ok.inj hok).symm
  · have hfields : resolver.fields = resolver.projection := by simp [fields, hpart]
    rcases hrange with hrange | hrange <;>
    · simp only [answer, hpart, hrange, shape, hfields, Store.find_everything, haccepted] at hok
      exact (Except.ok.inj hok).symm
  · simp only [answer, beq_eq_false_iff_ne.mpr hpart, hrange, Store.find_first, haccepted] at hok
    exact (Except.ok.inj hok).symm

/-- Apart from the form of the pagination, nothing fails once the call has its filter. -/
theorem answer_isOk (h : resolver.range ≠ .paginated ∨ resolver.part = .count) (store : Store) :
    ∃ value, resolver.answer store filter arguments = .ok value := by
  unfold answer
  by_cases hpart : resolver.part = .count
  · simp [hpart]
  · have hrange := h.resolve_right hpart
    cases hcase : resolver.range <;> simp_all

theorem resolve_eq_ok_iff :
    resolver.resolve context arguments = .ok value ↔
      ∃ filter, resolver.filter context.caller arguments = .ok filter ∧
        context.stores.contains resolver.resource = true ∧
        resolver.answer context.store filter arguments = .ok value := by
  unfold resolve RequestContext.requireStore
  simp only [Except.bind_eq_ok_iff]
  constructor
  · rintro ⟨filter, hfilter, ⟨⟩, hstore, hok⟩
    split at hstore
    · exact ⟨filter, hfilter, by assumption, hok⟩
    · cases hstore
  · rintro ⟨filter, hfilter, hstore, hok⟩
    exact ⟨filter, hfilter, (), if_pos hstore, hok⟩

theorem resolve_without_caller (hsegment : resolver.segment ≠ .mixed) (hcaller : context.caller = none) :
    resolver.resolve context arguments = .error (.queryNeedsCaller resolver.segment.key) := by
  unfold resolve QueryResolver.filter
  rw [hcaller]
  cases h : resolver.segment with
  | mixed => exact absurd h hsegment
  | _ => rfl

/-- After every run of store calls a query returns what its arguments ask for and its segment shows, no
more and no less.  Without a caller only the mixed segment answers; apart from that a query that is not
paginated fails only for arguments of another form and for a resource without a store. -/
theorem resolve_isolates (calls : List Store.Call) (wellFormed : ∀ call ∈ calls, call.WellFormed)
    (resolver : QueryResolver) (context : RequestContext)
    (reached : context.store = Store.empty.run calls) (arguments : Json) :
    (resolver.segment ≠ .mixed → context.caller = none →
      ∃ error, resolver.resolve context arguments = .error error ∧
        error.code = "UNAUTHENTICATED") ∧
    (resolver.range ≠ .paginated ∨ resolver.part = .count →
      ((∃ value, resolver.resolve context arguments = .ok value) ↔
        (resolver.segment = .mixed ∨ context.caller.isSome = true) ∧
        resolver.range.reads arguments = true ∧
        context.stores.contains resolver.resource = true)) ∧
    ∀ value, resolver.resolve context arguments = .ok value →
      (resolver.part = .count →
        value = .ofNat (resolver.selected context arguments).length) ∧
      (resolver.part = .whole → resolver.range = .all ∨ resolver.range = .filtered →
        value = .arr ((resolver.selected context arguments).map
          (Store.project resolver.projection))) ∧
      (resolver.part ≠ .count → resolver.range = .byId →
        ∀ id, arguments.get? idField = some (.str id) →
          value = (((context.store.find? resolver.resource id).filter
            (resolver.segment.allows · context.caller)).map
              (Store.project resolver.fields)).getD .null) := by
  have hsound : (context.store.collection resolver.resource).Sound := by
    rw [reached]
    exact Store.sound_run wellFormed resolver.resource
  refine ⟨fun hsegment hcaller ↦ ?_, fun hrange ↦ ?_, fun value hok ↦ ?_⟩
  · exact ⟨_, resolve_without_caller hsegment hcaller, rfl⟩
  · rw [← and_assoc, ← filter_isOk_iff]
    constructor
    · rintro ⟨value, hok⟩
      obtain ⟨filter, hfilter, hstore, -⟩ := resolve_eq_ok_iff.mp hok
      exact ⟨⟨filter, hfilter⟩, hstore⟩
    · rintro ⟨⟨filter, hfilter⟩, hstore⟩
      obtain ⟨value, hanswer⟩ := answer_isOk hrange context.store
      exact ⟨value, resolve_eq_ok_iff.mpr ⟨filter, hfilter, hstore, hanswer⟩⟩
  · obtain ⟨filter, hfilter, -, hanswer⟩ := resolve_eq_ok_iff.mp hok
    obtain ⟨hcount, hwhole, hbyId⟩ := answer_selected hfilter hsound hanswer
    refine ⟨hcount, hwhole, fun hpart hrange id hid ↦ ?_⟩
    rw [hbyId hpart hrange, selected_byId hrange hid hsound]
    cases (context.store.find? resolver.resource id).filter _ <;> rfl

/-- The filter below asks for all records, and the caller gets the one that the segment shows. -/
theorem resolve_isolates_disjunction :
    let user : ModelHandle := ⟨"User", []⟩
    let calls : List Store.Call := [.create user "1" (.obj []) "ann", .create user "2" (.obj []) "bob"]
    let resolver : QueryResolver := ⟨"User", .filtered, .own, .whole, ["id"], none⟩
    let context : RequestContext := ⟨some "ann", ["User"], Store.empty.run calls⟩
    let filter : Json :=
      .obj [("$or", .arr [.obj [("owner", .str "bob")], .obj [("id", .str "1")]])]
    (∀ call ∈ calls, call.WellFormed) ∧
      resolver.resolve context (.obj [("filter", filter)]) = .ok (.arr [.obj [("id", .str "1")]]) := by
  intro user calls resolver context filter
  have wellFormed : ∀ call ∈ calls, call.WellFormed := by
    simp [calls, Store.Call.WellFormed, Json.WellFormed, Json.WellFormedMembers]
  refine ⟨wellFormed, ?_⟩
  obtain ⟨-, hreturns, hvalue⟩ :=
    resolve_isolates calls wellFormed resolver context rfl (.obj [("filter", filter)])
  obtain ⟨value, hok⟩ := (hreturns (.inl (by decide))).mpr ⟨.inr rfl, rfl, rfl⟩
  have hwhole := (hvalue value hok).2.1 rfl (.inr rfl)
  rw [hok, hwhole]
  rfl

end QueryResolver

end ResourceApi

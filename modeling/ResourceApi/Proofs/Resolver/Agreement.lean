import ResourceApi.Proofs.Except
import ResourceApi.Proofs.Store.Agreement
import ResourceApi.Resolver.Query

/-!
# Queries on stores that agree

A query looks at the owner and the identifier of a record, at the fields that it returns, and at those
that its arguments name in a filter or a sort document.  On two stores whose records agree on these
fields it gives equal answers, or fails for the same reason.
-/

namespace ResourceApi

/-- Two calls give equal values, or they fail with the same error. -/
def SameResult {ε : Type} : Except ε Json → Except ε Json → Prop
  | .ok value, .ok value' => value.equal value' = true
  | .error error, .error error' => error = error'
  | _, _ => False

/-- The fields of a record that the arguments of a query name: those in its filter and, for pages, in
its sort document. -/
def QueryRange.consults (range : QueryRange) (arguments : Json) : List String :=
  match range with
  | .all | .byId => []
  | .filtered => Filter.fields (arguments.get "filter")
  | .paginated => Filter.fields (arguments.get "filter") ++
      SortKey.fields (SortKey.ofDocument ((arguments.get "pagination").get "sort"))

/-! ## The filter of a call -/

theorem Filter.fields_both (left right : Json) :
    fields (both left right) ⊆ fields left ++ fields right := by
  unfold both
  split
  · exact List.subset_append_right _ _
  · split
    · exact List.subset_append_left _ _
    · have hand : (Connective.ofKey? "$and").isSome = true := rfl
      simp [fields, fieldsOfConditions, fieldsOfCondition, hand, fieldsOfAll]

theorem Segment.fields_filter? {segment : Segment} {caller : Option String} {filter : Json}
    (h : segment.filter? caller = .ok filter) : Filter.fields filter ⊆ [ownerField] := by
  have howner : ∀ condition : Json, condition.isArray = false →
      Filter.fields (.obj [(ownerField, condition)]) = [ownerField] := by
    intro condition hcondition
    cases condition with
    | arr items => cases hcondition
    | _ => rfl
  cases segment with
  | mixed =>
    cases h
    exact List.nil_subset _
  | own =>
    cases caller with
    | none => cases h
    | some name =>
      cases h
      rw [howner _ rfl]
      exact List.Subset.refl _
  | others =>
    cases caller with
    | none => cases h
    | some name =>
      cases h
      rw [howner _ rfl]
      exact List.Subset.refl _

namespace QueryResolver

variable {resolver : QueryResolver} {range : QueryRange} {caller : Option String}
  {arguments filter : Json} {shown : List String} {store store' : Store}

theorem fields_rangeFilter (h : rangeFilter range arguments = .ok filter) :
    Filter.fields filter ⊆ idField :: range.consults arguments := by
  cases range with
  | all =>
    cases h
    exact List.nil_subset _
  | byId =>
    simp only [rangeFilter] at h
    split at h <;> cases h
    exact List.Subset.refl _
  | filtered =>
    simp only [rangeFilter] at h
    split at h <;> rename_i hget <;> cases h <;>
      simp [QueryRange.consults, Json.get, hget, Filter.fields, Filter.fieldsOfConditions]
  | paginated =>
    simp only [rangeFilter] at h
    split at h <;> rename_i hget <;> cases h <;>
      simp [QueryRange.consults, Json.get, hget, Filter.fields, Filter.fieldsOfConditions]

theorem fields_filter (h : resolver.filter caller arguments = .ok filter) :
    Filter.fields filter ⊆ ownerField :: idField :: resolver.range.consults arguments := by
  obtain ⟨visible, hvisible, h⟩ := Except.bind_eq_ok_iff.mp h
  obtain ⟨asked, hasked, h⟩ := Except.bind_eq_ok_iff.mp h
  cases h
  intro field hfield
  rcases List.mem_append.mp (Filter.fields_both _ _ hfield) with hsegment | hrange
  · have howner := List.mem_singleton.mp (Segment.fields_filter? hvisible hsegment)
    exact howner ▸ List.mem_cons_self
  · exact List.mem_cons_of_mem _ (fields_rangeFilter hasked hrange)

theorem fields_sort {pagination : Pagination}
    (h : Pagination.ofArguments arguments = .ok pagination) :
    SortKey.fields pagination.sort ⊆ QueryRange.paginated.consults arguments := by
  unfold Pagination.ofArguments at h
  split at h
  · rename_i members hget
    obtain ⟨page, -, h⟩ := Except.bind_eq_ok_iff.mp h
    obtain ⟨limit, -, h⟩ := Except.bind_eq_ok_iff.mp h
    cases h
    have hpagination : arguments.get "pagination" = .obj members := by
      simp [Json.get, hget]
    unfold QueryRange.consults
    rw [hpagination]
    exact List.subset_append_right _ _
  · cases h

/-! ## Answers -/

theorem wellFormed_get {record : Json} (h : record.WellFormed) (key : String) :
    (record.get key).WellFormed := by
  unfold Json.get
  cases hget : record.get? key with
  | none => trivial
  | some value => exact h.get? hget

theorem nameAndIdOf_congr {label : Option String} {record record' : Json}
    (h : Json.AgreeOn (idField :: label.toList) record record') :
    nameAndIdOf label record = nameAndIdOf label record' := by
  unfold nameAndIdOf
  rw [h.get List.mem_cons_self]
  cases label with
  | none => rfl
  | some field => rw [Option.bind_some, Option.bind_some, h field (by simp)]

theorem wellFormed_nameAndIdOf {record : Json} (h : record.WellFormed) (label : Option String) :
    (nameAndIdOf label record).WellFormed := by
  have hkeys : [idField, nameField].Nodup := by decide
  refine Json.wellFormed_obj.mpr ⟨hkeys, ?_⟩
  simp only [List.forall_mem_cons, List.not_mem_nil, false_imp_iff, implies_true, and_true]
  refine ⟨wellFormed_get h _, ?_⟩
  cases label with
  | none => trivial
  | some field => exact wellFormed_get h field

/-- Names and identifiers of records that agree on both are the same. -/
theorem equal_nameAndIdOf {label : Option String} {record record' : Json}
    (h : Json.Alike shown record record') (hsub : idField :: label.toList ⊆ shown) :
    (nameAndIdOf label (Store.project (idField :: label.toList) record)).equal
      (nameAndIdOf label (Store.project (idField :: label.toList) record')) = true := by
  have hprojected : ∀ {record : Json}, record.IsRecord →
      nameAndIdOf label (Store.project (idField :: label.toList) record) =
        nameAndIdOf label record :=
    fun hrecord ↦ nameAndIdOf_congr fun _ hfield ↦ Store.get?_project hrecord hfield
  rw [hprojected h.left, hprojected h.right, nameAndIdOf_congr (h.agree.mono hsub)]
  exact Json.equal_refl (wellFormed_nameAndIdOf h.right.wellFormed label)

/-- The fields that the resolver reads are among those that are shown. -/
def Within (resolver : QueryResolver) (shown : List String) : Prop :=
  idField :: (resolver.label.toList ++ resolver.projection) ⊆ shown

theorem fields_of_nameAndId (h : resolver.part = .nameAndId) :
    resolver.fields = idField :: resolver.label.toList := by
  unfold fields
  rw [h]

theorem fields_of_ne (h : resolver.part ≠ .nameAndId) : resolver.fields = resolver.projection := by
  unfold fields
  split
  · contradiction
  · rfl

theorem Within.fields_subset (h : resolver.Within shown) : resolver.fields ⊆ shown := by
  obtain ⟨hid, hrest⟩ := List.cons_subset.mp h
  obtain ⟨hlabel, hprojection⟩ := List.append_subset.mp hrest
  by_cases hpart : resolver.part = .nameAndId
  · rw [fields_of_nameAndId hpart]
    exact List.cons_subset.mpr ⟨hid, hlabel⟩
  · rwa [fields_of_ne hpart]

theorem equalItems_project (h : resolver.Within shown) {records records' : List Json}
    (alike : List.Forall₂ (Json.Alike shown) records records') :
    Json.equalItems (records.map (Store.project resolver.fields))
      (records'.map (Store.project resolver.fields)) = true := by
  rw [Json.equalItems_iff, List.forall₂_map_left_iff, List.forall₂_map_right_iff]
  exact alike.imp fun _ _ halike ↦ Store.equal_project halike h.fields_subset

theorem equal_shape (h : resolver.Within shown) {records records' : List Json}
    (alike : List.Forall₂ (Json.Alike shown) records records') :
    (resolver.shape (records.map (Store.project resolver.fields))).equal
      (resolver.shape (records'.map (Store.project resolver.fields))) = true := by
  unfold shape
  rw [Json.equal]
  by_cases hpart : resolver.part = .nameAndId
  · have hfields := h.fields_subset
    rw [if_pos (beq_iff_eq.mpr hpart), if_pos (beq_iff_eq.mpr hpart), Json.equalItems_iff]
    rw [fields_of_nameAndId hpart] at hfields ⊢
    simp only [List.forall₂_map_left_iff, List.forall₂_map_right_iff]
    exact alike.imp fun _ _ halike ↦ equal_nameAndIdOf halike hfields
  · rw [if_neg (by simpa using hpart), if_neg (by simpa using hpart)]
    exact equalItems_project h alike

theorem equal_head {records records' : List Json} (h : Json.equalItems records records' = true) :
    (records.head?.getD .null).equal (records'.head?.getD .null) = true := by
  cases Json.equalItems_iff.mp h with
  | nil => rfl
  | cons hfirst _ => exact hfirst

theorem equal_pageJson {records records' : List Json} (pagination : Pagination) (total : Nat)
    (h : Json.equalItems records records' = true) :
    (pageJson pagination records total).equal (pageJson pagination records' total) = true := by
  simp [pageJson, Json.equal, Json.equalMembers, List.lookup_cons, Json.ofNat, h]

/-- On stores whose records agree on the fields that a call looks at and on those that it returns, the
call gives equal answers. -/
theorem sameResult_answer (h : resolver.Within shown)
    (alike : store.Alike shown resolver.resource store')
    (hfilter : Filter.fields filter ⊆ shown)
    (consulted : resolver.range.consults arguments ⊆ shown) :
    SameResult (resolver.answer store filter arguments)
      (resolver.answer store' filter arguments) := by
  have hread := fun (options : Store.FindOptions) ↦ alike.read hfilter options
  unfold answer
  dsimp only
  by_cases hcount : resolver.part = .count
  · rw [if_pos (beq_iff_eq.mpr hcount), if_pos (beq_iff_eq.mpr hcount), alike.count hfilter]
    exact Json.equal_refl trivial
  · rw [if_neg (by simpa using hcount), if_neg (by simpa using hcount)]
    cases hrange : resolver.range with
    | all | filtered =>
      dsimp only
      rw [Store.find_eq_map _ _ _ rfl, Store.find_eq_map _ _ _ rfl]
      exact equal_shape h (hread _ (List.nil_subset _))
    | byId =>
      dsimp only
      rw [Store.find_eq_map _ _ _ rfl, Store.find_eq_map _ _ _ rfl]
      exact equal_head (equalItems_project h (hread _ (List.nil_subset _)))
    | paginated =>
      dsimp only
      cases hpagination : Pagination.ofArguments arguments with
      | error error => exact rfl
      | ok pagination =>
        rw [hrange] at consulted
        have hsort := List.Subset.trans (fields_sort hpagination) consulted
        rw [Except.ok_bind, Except.ok_bind]
        rw [Store.find_eq_map _ _ _ rfl, Store.find_eq_map _ _ _ rfl, alike.count hfilter]
        by_cases hwhole : resolver.part = .whole
        · rw [if_pos (beq_iff_eq.mpr hwhole), if_pos (beq_iff_eq.mpr hwhole)]
          exact equal_pageJson pagination _ (equalItems_project h (hread _ hsort))
        · rw [if_neg (by simpa using hwhole), if_neg (by simpa using hwhole)]
          exact equal_shape h (hread _ hsort)

/-- Calls by one caller with one set of arguments, on stores whose records agree on the owner, the
identifier, the fields that the resolver returns and those that the arguments name. -/
theorem sameResult_resolve {context context' : RequestContext} (h : resolver.Within shown)
    (owner : ownerField ∈ shown) (consulted : resolver.range.consults arguments ⊆ shown)
    (caller : context.caller = context'.caller) (stores : context.stores = context'.stores)
    (alike : context.store.Alike shown resolver.resource context'.store) :
    SameResult (resolver.resolve context arguments) (resolver.resolve context' arguments) := by
  unfold resolve RequestContext.requireStore
  rw [caller, stores]
  cases hfilter : resolver.filter context'.caller arguments with
  | error error => exact rfl
  | ok filter =>
    rw [Except.ok_bind, Except.ok_bind]
    split
    · have hfields := List.Subset.trans (fields_filter hfilter)
        (List.cons_subset.mpr ⟨owner, List.cons_subset.mpr ⟨(List.cons_subset.mp h).1, consulted⟩⟩)
      exact sameResult_answer h alike hfields consulted
    · exact rfl

end QueryResolver
end ResourceApi

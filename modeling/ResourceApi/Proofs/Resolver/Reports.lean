import ResourceApi.Proofs.Resolver.Failure
import ResourceApi.Proofs.Store.Objects

/-!
# Mutations of several records

A mutation of several records that is not ended by a failure answers for each of its items what a mutation
of that item alone answers in the store that the items before it leave.  An item whose failure is reported
has null for its data and leaves the store as it was, so the store in the end is the one that the other
items lead to by themselves.
-/

namespace ResourceApi

namespace MutationResolver

variable {resolver : MutationResolver} {ids : Nat → String} {caller : String} {store last : Store}
  {context : RequestContext} {arguments item : Json} {items data : List Json}
  {errors : List ReportedError} {index : Nat}

/-- An item is applied by a call that the store accepts. -/
theorem accepted_of_apply {next : Store} {freshId : String} {record : Json}
    (applied : resolver.apply store freshId caller item = .ok (next, record)) :
    ∃ call, Store.Accepted store call next record := by
  rw [apply_eq] at applied
  split at applied
  · exact ⟨_, Store.accepted_of_call applied⟩
  · cases applied

/-! ## Runs that no failure ends -/

/-- A run over items, from a position on, that no failure ends: the data and the reported failures of the
items, and the store that is left. -/
inductive Reports (resolver : MutationResolver) (ids : Nat → String) (caller : String) :
    Nat → Store → List Json → List Json → List ReportedError → Store → Prop
  | done {index : Nat} {store : Store} : Reports resolver ids caller index store [] [] [] store
  | accepted {index : Nat} {store next last : Store} {item record : Json} {items data : List Json}
      {errors : List ReportedError}
      (applied : resolver.apply store (ids index) caller item = .ok (next, record))
      (rest : Reports resolver ids caller (index + 1) next items data errors last) :
      Reports resolver ids caller index store (item :: items) (record :: data) errors last
  | reported {index : Nat} {store last : Store} {item : Json} {items data : List Json}
      {errors : List ReportedError} {failure : StorageError}
      (refused : resolver.apply store (ids index) caller item = .error failure)
      (reportable : isReportable failure = true)
      (rest : Reports resolver ids caller (index + 1) store items data errors last) :
      Reports resolver ids caller index store (item :: items) (.null :: data)
        (.of index (.ofStorage failure) :: errors) last

theorem reports_of_applyFrom {progress : Progress} (start : progress.ended = none)
    (h : (resolver.applyFrom ids caller index progress items).ended = none) :
    ∃ data errors, (resolver.applyFrom ids caller index progress items).data = progress.data ++ data ∧
      (resolver.applyFrom ids caller index progress items).errors = progress.errors ++ errors ∧
      Reports resolver ids caller index progress.store items data errors
        (resolver.applyFrom ids caller index progress items).store := by
  induction items generalizing index progress with
  | nil => exact ⟨[], [], (List.append_nil _).symm, (List.append_nil _).symm, .done⟩
  | cons item rest ih =>
    rw [applyFrom_cons] at h ⊢
    cases happly : resolver.apply progress.store (ids index) caller item with
    | ok result =>
      obtain ⟨next, record⟩ := result
      simp only [happly] at h ⊢
      obtain ⟨data, errors, hdata, herrors, hrest⟩ := ih (by exact start) h
      exact ⟨record :: data, errors, by simpa using hdata, herrors, .accepted happly hrest⟩
    | error failure =>
      simp only [happly] at h ⊢
      cases hreportable : isReportable failure with
      | true =>
        simp only [hreportable, if_true] at h ⊢
        obtain ⟨data, errors, hdata, herrors, hrest⟩ := ih (by exact start) h
        exact ⟨.null :: data, .of index (.ofStorage failure) :: errors, by simpa using hdata,
          by simpa using herrors, .reported happly hreportable hrest⟩
      | false =>
        simp only [hreportable, Bool.false_eq_true, if_false] at h
        cases h

namespace Reports

theorem length_data (h : Reports resolver ids caller index store items data errors last) :
    data.length = items.length := by
  induction h with
  | done => rfl
  | accepted applied rest ih => rw [List.length_cons, List.length_cons, ih]
  | reported refused reportable rest ih => rw [List.length_cons, List.length_cons, ih]

theorem bounds (h : Reports resolver ids caller index store items data errors last) :
    ∀ error ∈ errors, index ≤ error.index ∧ error.index < index + items.length := by
  induction h with
  | done => exact fun _ hmem ↦ (List.not_mem_nil hmem).elim
  | accepted applied rest ih =>
    intro error hmem
    have hbounds := ih error hmem
    rw [List.length_cons]
    omega
  | reported refused reportable rest ih =>
    intro error hmem
    rw [List.length_cons]
    rcases List.mem_cons.mp hmem with rfl | hlater
    · dsimp only [ReportedError.of]
      omega
    · have hbounds := ih error hlater
      omega

theorem increasing (h : Reports resolver ids caller index store items data errors last) :
    (errors.map ReportedError.index).Pairwise (· < ·) := by
  induction h with
  | done => exact List.Pairwise.nil
  | accepted applied rest ih => exact ih
  | reported refused reportable rest ih =>
    rw [List.map_cons]
    refine List.pairwise_cons.mpr ⟨fun later hlater ↦ ?_, ih⟩
    obtain ⟨error, hmem, rfl⟩ := List.mem_map.mp hlater
    exact Nat.lt_of_succ_le (rest.bounds error hmem).1

/-- The store before an item of a run: what the calls for the items before it leave. -/
def storeAt (resolver : MutationResolver) (ids : Nat → String) (caller : String) (index : Nat)
    (store : Store) (items : List Json) (position : Nat) : Store :=
  store.run (resolver.callsFrom ids caller index (items.take position))

theorem storeAt_cons (position : Nat) :
    storeAt resolver ids caller index store (item :: items) (position + 1) =
      storeAt resolver ids caller (index + 1)
        (store.run (resolver.call? (ids index) caller item).toList) items position := by
  unfold storeAt
  rw [List.take_succ_cons, callsFrom, Store.run_append]

theorem run_of_applied {next : Store} {record : Json}
    (applied : resolver.apply store (ids index) caller item = .ok (next, record)) :
    store.run (resolver.call? (ids index) caller item).toList = next := by
  rw [run_call? fun error herror ↦ (by cases applied.symm.trans herror), applied]

theorem run_of_refused {failure : StorageError}
    (refused : resolver.apply store (ids index) caller item = .error failure)
    (reportable : isReportable failure = true) :
    store.run (resolver.call? (ids index) caller item).toList = store := by
  rw [run_call? fun error herror ↦ (by
    rwa [Except.error.inj (herror.symm.trans refused)]), refused]

/-- What becomes of one item: it is applied, and nothing is reported at its place, or its failure is
reported there and nothing else happens. -/
inductive Answered (resolver : MutationResolver) (freshId caller : String) (errors : List ReportedError)
    (index : Nat) (item value : Json) (before after : Store) : Prop
  | accepted (applied : resolver.apply before freshId caller item = .ok (after, value))
      (unreported : ∀ error ∈ errors, error.index ≠ index)
  | reported {failure : StorageError}
      (refused : resolver.apply before freshId caller item = .error failure)
      (reportable : isReportable failure = true) (null : value = .null) (same : after = before)
      (mem : .of index (.ofStorage failure) ∈ errors)

theorem Answered.cons {freshId : String} {value : Json} {before after : Store} {error : ReportedError}
    (h : Answered resolver freshId caller errors index item value before after)
    (hother : error.index ≠ index) :
    Answered resolver freshId caller (error :: errors) index item value before after := by
  cases h with
  | accepted applied unreported => exact .accepted applied (List.forall_mem_cons.mpr ⟨hother, unreported⟩)
  | reported refused reportable null same mem =>
    exact .reported refused reportable null same (List.mem_cons_of_mem _ mem)

theorem answered (h : Reports resolver ids caller index store items data errors last) {position : Nat}
    {value : Json} (hitem : items[position]? = some item) (hvalue : data[position]? = some value) :
    Answered resolver (ids (index + position)) caller errors (index + position) item value
      (storeAt resolver ids caller index store items position)
      (storeAt resolver ids caller index store items (position + 1)) := by
  induction h generalizing position with
  | done => cases hitem
  | accepted applied rest ih =>
    have hnext := run_of_applied applied
    cases position with
    | zero =>
      cases hitem
      cases hvalue
      rw [storeAt_cons, hnext]
      refine .accepted applied fun error hmem ↦ ?_
      exact Nat.ne_of_gt (rest.bounds error hmem).1
    | succ position =>
      rw [storeAt_cons, storeAt_cons, hnext, ← Nat.succ_add_eq_add_succ]
      exact ih hitem hvalue
  | reported refused reportable rest ih =>
    have hsame := run_of_refused refused reportable
    cases position with
    | zero =>
      cases hitem
      cases hvalue
      rw [storeAt_cons, hsame]
      exact .reported refused reportable rfl rfl List.mem_cons_self
    | succ position =>
      rw [storeAt_cons, storeAt_cons, hsame, ← Nat.succ_add_eq_add_succ]
      refine (ih hitem hvalue).cons ?_
      dsimp only [ReportedError.of]
      omega

/-- The calls for the items of a run, from a position on, that are not reported. -/
def callsExcept (resolver : MutationResolver) (ids : Nat → String) (caller : String)
    (errors : List ReportedError) (index : Nat) (items : List Json) : List Store.Call :=
  ((items.zipIdx index).filter fun (_, position) ↦ !errors.any (·.index == position)).flatMap
    fun (item, position) ↦ (resolver.call? (ids position) caller item).toList

theorem store_eq (h : Reports resolver ids caller index store items data errors last) :
    last = store.run (callsExcept resolver ids caller errors index items) := by
  induction h with
  | done => rfl
  | @accepted index store next last item record items data errors applied rest ih =>
    have hunreported : errors.any (·.index == index) = false := by
      apply List.any_eq_false.mpr
      intro error hmem
      have hbounds := rest.bounds error hmem
      rw [beq_iff_eq]
      omega
    rw [ih]
    unfold callsExcept
    simp only [List.zipIdx_cons, List.filter_cons, hunreported, Bool.not_false, if_true, List.flatMap_cons]
    rw [Store.run_append, run_of_applied applied]
  | @reported index store last item items data errors failure refused reportable rest ih =>
    rw [ih]
    unfold callsExcept
    simp only [List.zipIdx_cons, List.filter_cons, List.any_cons, ReportedError.of, BEq.rfl, Bool.true_or,
      Bool.not_true, Bool.false_eq_true, if_false]
    congr 2
    apply List.filter_congr
    intro entry hmem
    have hlater := List.le_snd_of_mem_zipIdx hmem
    have hother : (index == entry.2) = false := beq_false_of_ne (by omega)
    rw [hother, Bool.false_or]

/-- A value of a run is a record, or it is null and a failure has been reported. -/
theorem isObject_or_reported (h : Reports resolver ids caller index store items data errors last)
    (objects : store.HoldsObjects) :
    ∀ value ∈ data, value.isObject = true ∨ value = .null ∧ errors ≠ [] := by
  induction h with
  | done => exact fun _ hmem ↦ (List.not_mem_nil hmem).elim
  | accepted applied rest ih =>
    obtain ⟨call, accepted⟩ := accepted_of_apply applied
    exact List.forall_mem_cons.mpr ⟨.inl (accepted.isObject objects), ih (accepted.holdsObjects objects)⟩
  | reported refused reportable rest ih =>
    refine List.forall_mem_cons.mpr ⟨.inr ⟨rfl, List.cons_ne_nil _ _⟩, fun value hmem ↦ ?_⟩
    exact (ih objects value hmem).imp id fun ⟨hnull, _⟩ ↦ ⟨hnull, List.cons_ne_nil _ _⟩

end Reports

/-! ## Stores of objects -/

theorem holdsObjects_applyFrom {progress : Progress} (h : progress.store.HoldsObjects) :
    (resolver.applyFrom ids caller index progress items).store.HoldsObjects := by
  induction items generalizing index progress with
  | nil => exact h
  | cons item rest ih =>
    rw [applyFrom_cons]
    split
    · rename_i applied
      obtain ⟨call, accepted⟩ := accepted_of_apply applied
      exact ih (accepted.holdsObjects h)
    · split
      · exact ih h
      · exact h

/-- A mutation leads from a store of objects to a store of objects, whatever it answers. -/
theorem holdsObjects_resolve (h : context.store.HoldsObjects) :
    (resolver.resolve ids context arguments).1.HoldsObjects := by
  unfold resolve
  split
  · unfold run
    dsimp only
    split <;> exact holdsObjects_applyFrom h
  · exact h

/-! ## Single targets -/

theorem validateFrom_eq_ok_iff :
    resolver.validateFrom index items = .ok () ↔ ∀ item ∈ items, resolver.failingCheck? item = none := by
  induction items generalizing index with
  | nil => simp [validateFrom]
  | cons item rest ih =>
    rw [validateFrom]
    cases hcheck : resolver.failingCheck? item with
    | none => simp [ih, hcheck]
    | some check => simp [hcheck]

/-- A call is prepared when it has a caller, and items of the right form whose values pass. -/
theorem prepare_eq_ok_iff :
    resolver.prepare context arguments = .ok (caller, items) ↔
      context.caller = some caller ∧ resolver.items arguments = .ok items ∧
        (resolver.action ≠ .delete → ∀ item ∈ items, resolver.failingCheck? item = none) := by
  unfold prepare RequestContext.requireCaller
  cases hcaller : context.caller with
  | none => simp [bind, Except.bind]
  | some name =>
    rw [Except.ok_bind]
    cases hitems : resolver.items arguments with
    | error error => simp [bind, Except.bind]
    | ok found =>
      rw [Except.ok_bind]
      have hvalid : resolver.validate found = .ok () ↔
          ∀ item ∈ found, resolver.failingCheck? item = none := validateFrom_eq_ok_iff
      by_cases haction : resolver.action = .delete
      · simp [haction, pure, Except.pure]
      · have hchecks : (resolver.action != .delete) = true := bne_iff_ne.mpr haction
        rw [if_pos hchecks]
        cases hchecked : resolver.validate found with
        | error error =>
          have hfails : ¬ ∀ item ∈ found, resolver.failingCheck? item = none := fun hpasses ↦
            nomatch hchecked.symm.trans (hvalid.mpr hpasses)
          constructor
          · exact fun h ↦ by cases h
          · rintro ⟨-, hfound, hpasses⟩
            cases hfound
            exact absurd (hpasses haction) hfails
        | ok checked =>
          have hpasses := hvalid.mp hchecked
          constructor
          · intro h
            cases h
            exact ⟨rfl, rfl, fun _ ↦ hpasses⟩
          · rintro ⟨hname, hfound, -⟩
            cases hname
            cases hfound
            rfl

/-- The resolver of the same mutation of a single record. -/
def single (resolver : MutationResolver) : MutationResolver := { resolver with target := .single }

/-- A mutation of one record answers for its item. -/
theorem resolve_single (resolver : MutationResolver) (freshId : String) (context : RequestContext)
    (hcaller : context.caller = some caller)
    (hitem : item ≠ .null)
    (passes : resolver.action ≠ .delete → resolver.failingCheck? item = none) :
    resolver.single.resolve (fun _ ↦ freshId) context (.obj [(resolver.single.argument, item)]) =
      match resolver.apply context.store freshId caller item with
      | .ok (next, record) => (next, .ok ⟨record, []⟩)
      | .error failure =>
        if isReportable failure then (context.store, .ok ⟨.null, [.of 0 (.ofStorage failure)]⟩)
        else (context.store, .error (.ofStorage failure)) := by
  have hitems : resolver.single.items (.obj [(resolver.single.argument, item)]) = .ok [item] := by
    have hget : (Json.obj [(resolver.single.argument, item)]).get? resolver.single.argument = some item := by
      simp [Json.get?]
    unfold MutationResolver.items
    rw [hget]
    cases item <;> first | rfl | exact absurd rfl hitem
  have hprepare : resolver.single.prepare context (.obj [(resolver.single.argument, item)]) =
      .ok (caller, [item]) :=
    prepare_eq_ok_iff.mpr ⟨hcaller, hitems, fun haction ↦ List.forall_mem_singleton.mpr (passes haction)⟩
  unfold resolve
  rw [hprepare]
  have happly : ∀ store, resolver.single.apply store freshId caller item =
      resolver.apply store freshId caller item := fun _ ↦ rfl
  simp only [run, applyFrom_cons, happly]
  cases resolver.apply context.store freshId caller item with
  | ok result => rfl
  | error failure =>
    cases hreportable : isReportable failure with
    | true =>
      simp only [hreportable, if_true]
      rfl
    | false =>
      simp only [hreportable]
      rfl

/-! ## Item by item -/

/-- No mutation applies null. -/
theorem apply_null (store : Store) (freshId caller : String) :
    ∃ fault, resolver.apply store freshId caller .null = .error (.invalidRecord fault) := by
  unfold apply access
  cases resolver.action with
  | create => exact ⟨_, rfl⟩
  | update => exact ⟨_, rfl⟩
  | delete => exact ⟨_, rfl⟩

theorem Reports.Answered.ne_null {freshId : String} {value : Json} {before after : Store}
    (h : Reports.Answered resolver freshId caller errors index item value before after) :
    item ≠ .null := by
  rintro rfl
  obtain ⟨fault, hfault⟩ : ∃ fault, resolver.apply before freshId caller .null =
      .error (.invalidRecord fault) := apply_null before freshId caller
  cases h with
  | accepted applied => cases hfault.symm.trans applied
  | reported refused reportable =>
    cases hfault.symm.trans refused
    cases reportable

/-- A call that answers has run over its items. -/
theorem reports_of_resolve {outcome : MutationOutcome}
    (h : (resolver.resolve ids context arguments).2 = .ok outcome) :
    ∃ caller items data, resolver.prepare context arguments = .ok (caller, items) ∧
      outcome.data = resolver.dataOf data ∧
      Reports resolver ids caller 0 context.store items data outcome.errors
        (resolver.resolve ids context arguments).1 := by
  unfold resolve at h ⊢
  cases hprepare : resolver.prepare context arguments with
  | error error =>
    rw [hprepare] at h
    cases h
  | ok prepared =>
    obtain ⟨caller, items⟩ := prepared
    simp only [hprepare, run] at h ⊢
    cases hended : (resolver.applyFrom ids caller 0 ⟨context.store, [], [], none⟩ items).ended with
    | some failure =>
      simp only [hended] at h
      cases h
    | none =>
      simp only [hended] at h ⊢
      obtain ⟨data, errors, hdata, herrors, hreports⟩ := reports_of_applyFrom rfl hended
      cases h
      refine ⟨caller, items, data, rfl, ?_, ?_⟩
      · rw [hdata, List.nil_append]
      · rw [herrors, List.nil_append]
        exact hreports

/-- The items of a list that a mutation answers with are records, or null when a failure is reported. -/
theorem item_cases_of_resolve {outcome : MutationOutcome} (objects : context.store.HoldsObjects)
    (h : (resolver.resolve ids context arguments).2 = .ok outcome) (hlist : outcome.data = .arr data) :
    ∀ value ∈ data, value.isObject = true ∨ value = .null ∧ outcome.errors ≠ [] := by
  obtain ⟨caller, items, found, -, hdata, hreports⟩ := reports_of_resolve h
  have hcases := hreports.isObject_or_reported objects
  rw [hlist, dataOf] at hdata
  split at hdata
  · cases found with
    | nil => cases hdata
    | cons first rest =>
      rcases hcases first List.mem_cons_self with hfirst | ⟨hfirst, -⟩
      · rw [show first = .arr data from hdata.symm] at hfirst
        cases hfirst
      · cases hdata.trans hfirst
  · cases hdata
    exact hcases

/-- A mutation of several records that answers has one value for each item, in their order.  The failures
that it reports come in the order of the items, and are those of the items whose value is null.  An item
that has a value has the one that the mutation of this item alone returns, in the store that the items
before it leave; alone, an item that is reported fails in the same way and changes nothing.  So the store
in the end is what the calls for the items lead to that are not reported. -/
theorem resolve_item_by_item (resolver : MutationResolver) (multi : resolver.target = .multi)
    (ids : Nat → String) (calls : List Store.Call) (context : RequestContext)
    (reached : context.store = Store.empty.run calls) (arguments : Json) (outcome : MutationOutcome)
    (h : (resolver.resolve ids context arguments).2 = .ok outcome) :
    ∃ caller items data, context.caller = some caller ∧ resolver.items arguments = .ok items ∧
      outcome.data = .arr data ∧ data.length = items.length ∧
      (outcome.errors.map ReportedError.index).Pairwise (· < ·) ∧
      (∀ index, (∃ error ∈ outcome.errors, error.index = index) ↔ data[index]? = some .null) ∧
      (let before index := context.store.run (resolver.callsFrom ids caller 0 (items.take index))
       let alone index item := resolver.single.resolve (fun _ ↦ ids index)
         { context with store := before index } (.obj [(resolver.single.argument, item)])
       (∀ index item value, items[index]? = some item → data[index]? = some value → value ≠ .null →
         alone index item = (before (index + 1), .ok ⟨value, []⟩)) ∧
       (∀ error ∈ outcome.errors, ∀ item, items[error.index]? = some item →
         alone error.index item = (before error.index, .ok ⟨.null, [{ error with index := 0 }]⟩) ∧
         before (error.index + 1) = before error.index)) ∧
      (resolver.resolve ids context arguments).1 =
        context.store.run (Reports.callsExcept resolver ids caller outcome.errors 0 items) := by
  obtain ⟨caller, items, data, hprepare, hdata, hreports⟩ := reports_of_resolve h
  obtain ⟨hcaller, hitems, hpasses⟩ := prepare_eq_ok_iff.mp hprepare
  have hlength := hreports.length_data
  have hanswered {index : Nat} {item value : Json} (hitem : items[index]? = some item)
      (hvalue : data[index]? = some value) :
      Reports.Answered resolver (ids index) caller outcome.errors index item value
        (context.store.run (resolver.callsFrom ids caller 0 (items.take index)))
        (context.store.run (resolver.callsFrom ids caller 0 (items.take (index + 1)))) := by
    have hanswered := hreports.answered hitem hvalue
    rwa [Nat.zero_add] at hanswered
  have hobjects (index : Nat) :
      (context.store.run (resolver.callsFrom ids caller 0 (items.take index))).HoldsObjects := by
    rw [reached]
    exact (Store.holdsObjects_empty.run calls).run _
  have halone {index : Nat} {item : Json} (hitem : items[index]? = some item) (hnull : item ≠ .null) :=
    resolve_single resolver (ids index)
      { context with store := context.store.run (resolver.callsFrom ids caller 0 (items.take index)) }
      hcaller hnull fun haction ↦ hpasses haction item (List.mem_of_getElem? hitem)
  refine ⟨caller, items, data, hcaller, hitems, ?_, hlength, hreports.increasing, fun index ↦ ⟨?_, ?_⟩,
    ⟨fun index item value hitem hvalue hnull ↦ ?_, fun error hmem item hitem ↦ ?_⟩, hreports.store_eq⟩
  · rw [hdata, dataOf, multi]
  · rintro ⟨error, hmem, rfl⟩
    have hbound := (hreports.bounds error hmem).2
    rw [Nat.zero_add] at hbound
    have hvalue := List.getElem?_eq_getElem (hlength.symm ▸ hbound : error.index < data.length)
    cases hanswered (List.getElem?_eq_getElem hbound) hvalue with
    | accepted applied unreported => exact absurd rfl (unreported error hmem)
    | reported refused reportable null same mem => rw [hvalue, null]
  · intro hvalue
    have hbound : index < items.length := hlength ▸ (List.getElem?_eq_some_iff.mp hvalue).1
    cases hanswered (List.getElem?_eq_getElem hbound) hvalue with
    | accepted applied unreported =>
      obtain ⟨call, accepted⟩ := accepted_of_apply applied
      cases accepted.isObject (hobjects index)
    | reported refused reportable null same mem => exact ⟨_, mem, rfl⟩
  · have hanswer := hanswered hitem hvalue
    refine (halone hitem hanswer.ne_null).trans ?_
    cases hanswer with
    | accepted applied unreported => simp only [applied]
    | reported refused reportable null same mem => exact absurd null hnull
  · have hbound := (List.getElem?_eq_some_iff.mp hitem).1
    have hvalue := List.getElem?_eq_getElem (hlength.symm ▸ hbound : error.index < data.length)
    have hanswer := hanswered hitem hvalue
    have hitemNull := hanswer.ne_null
    cases hanswer with
    | accepted applied unreported => exact absurd rfl (unreported error hmem)
    | @reported failure refused reportable null same mem =>
      have herror : error = .of error.index (.ofStorage failure) :=
        List.inj_on_of_nodup_map hreports.increasing.nodup hmem mem rfl
      refine ⟨(halone hitem hitemNull).trans ?_, same⟩
      rw [herror]
      simp only [refused, reportable, if_true, ReportedError.of]

/-- A record is deleted twice by one mutation: the second item is reported, and the store in the end is
the one that the first item leads to by itself. -/
theorem resolve_item_by_item_deleted_twice :
    let user : ModelHandle := ⟨"User", []⟩
    let ann : Json := .obj [("name", .str "Ann"), ("id", .str "1"), ("owner", .str "u1")]
    let store := Store.empty.run [.create user "1" (.obj [("name", .str "Ann")]) "u1"]
    let resolver : MutationResolver := ⟨user, .delete, .multi, [], ⟨[]⟩⟩
    let context : RequestContext := ⟨some "u1", ["User"], store⟩
    let result := resolver.resolve (fun _ ↦ "fresh") context (.obj [("ids", .arr [.str "1", .str "1"])])
    ∃ outcome, result.2 = .ok outcome ∧ outcome.data = .arr [ann, .null] ∧
      outcome.errors.map ReportedError.index = [1] ∧ result.1 = store.run [.delete user "1" "u1"] := by
  intro user ann store resolver context result
  obtain ⟨outcome, hanswer, hdata, herrors⟩ : ∃ outcome, result.2 = .ok outcome ∧
      outcome.data = .arr [ann, .null] ∧ outcome.errors.map ReportedError.index = [1] :=
    ⟨_, rfl, rfl, rfl⟩
  obtain ⟨caller, items, data, hcaller, hitems, -, -, -, -, -, hlast⟩ :=
    resolve_item_by_item resolver rfl (fun _ ↦ "fresh") _ context rfl _ outcome hanswer
  refine ⟨outcome, hanswer, hdata, herrors, hlast.trans ?_⟩
  cases hcaller
  cases hitems
  obtain ⟨error, herror, hindex⟩ := List.map_eq_singleton_iff.mp herrors
  rw [herror]
  simp [Reports.callsExcept, hindex, List.zipIdx_cons]
  rfl

end MutationResolver

end ResourceApi

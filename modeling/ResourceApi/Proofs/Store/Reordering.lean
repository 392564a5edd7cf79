import ResourceApi.Proofs.Json.Reordering
import ResourceApi.Proofs.Store.Agreement
import ResourceApi.Proofs.Store.Consistency

/-!
# Filters and the order of members

Neither filters nor unique fields see the order in which the members of objects are written.  What is found
at a path of a reordered record is a reordering of what is found in the record, equality and the order of
scalars do not tell reorderings apart, and the conditions and operators of an object are all asked for,
whatever their order.
-/

namespace ResourceApi

open Json (Reordered)

variable {x y record record' filter filter' : Json} {found found' : Option Json}

namespace Json.Reordered

theorem isArray_eq (h : Reordered x y) : x.isArray = y.isArray := by
  cases h <;> rfl

theorem isNull_eq (h : Reordered x y) : x.isNull = y.isNull := by
  cases h <;> rfl

theorem bool?_eq (h : Reordered x y) : x.bool? = y.bool? := by
  cases h <;> rfl

theorem order?_eq {x' y' : Json} (hx : Reordered x x') (hy : Reordered y y') :
    x.order? y = x'.order? y' := by
  have harr : ∀ (value : Json) (items : List Json), value.order? (.arr items) = none := by
    intro value items
    cases value <;> rfl
  have hobj : ∀ (value : Json) (members : List (String × Json)), value.order? (.obj members) = none := by
    intro value members
    cases value <;> rfl
  cases hy with
  | arr => rw [harr, harr]
  | obj => rw [hobj, hobj]
  | leaf => cases hx <;> rfl

theorem lookupIn (h : Reordered x y) (segments : List String) :
    Option.Rel Reordered (Json.lookupIn segments x) (Json.lookupIn segments y) := by
  induction segments generalizing x y with
  | nil => exact .some h
  | cons segment rest ih =>
    have hfirst := h.get? segment
    unfold Json.lookupIn
    generalize x.get? segment = next, y.get? segment = next' at hfirst
    cases hfirst with
    | none => exact .none
    | some hnext => exact ih hnext

/-- The members of an object pass a test if those of a reordering pass one that agrees with it. -/
theorem all_members {xs ys zs : List (String × Json)} {p q : String × Json → Bool}
    (names : Entries.keys xs = Entries.keys ys)
    (values : List.Forall₂ Reordered (Entries.values xs) (Entries.values ys)) (order : ys.Perm zs)
    (agree : ∀ member ∈ xs, ∀ value, Reordered member.2 value → p member = q (member.1, value)) :
    xs.all p = zs.all q := by
  rw [← order.all_eq]
  clear order
  induction xs generalizing ys with
  | nil =>
    cases ys with
    | nil => rfl
    | cons => cases names
  | cons x xs ih =>
    cases ys with
    | nil => cases names
    | cons y ys =>
      obtain ⟨hname, hnames⟩ := List.cons.inj names
      obtain ⟨hvalue, hvalues⟩ := List.forall₂_cons.mp values
      obtain ⟨hfirst, hrest⟩ := List.forall_mem_cons.mp agree
      change x.1 = y.1 at hname
      rw [List.all_cons, List.all_cons, hfirst _ hvalue, hname, ih hnames hvalues hrest]

end Json.Reordered

namespace Filter

theorem any_congr {α : Type} {R : α → α → Prop} {xs ys : List α} {p q : α → Bool}
    (h : List.Forall₂ R xs ys) (agree : ∀ x ∈ xs, ∀ y, R x y → p x = q y) : xs.any p = ys.any q := by
  induction h with
  | nil => rfl
  | cons hfirst _ ih =>
    obtain ⟨hhead, htail⟩ := List.forall_mem_cons.mp agree
    rw [List.any_cons, List.any_cons, hhead _ hfirst, ih htail]

/-! ## Conditions on a field -/

theorem equals_single {value : Json} (single : value.isArray = false) (expected : Json) :
    equals (some value) expected = value.equal expected := by
  cases value with
  | arr items => cases single
  | _ => rfl

theorem equals_arr (items : List Json) (expected : Json) :
    equals (some (.arr items)) expected =
      if expected.isArray then Json.equal (.arr items) expected
      else items.any fun item ↦ item.equal expected := rfl

theorem equals_reordered (hfound : Option.Rel Reordered found found') (h : Reordered x y) :
    equals found x = equals found' y := by
  cases hfound with
  | none => exact h.isNull_eq
  | @some value value' hvalue =>
    have hequal := Json.equal_congr hvalue h
    cases hvalue with
    | leaf single plain => rwa [equals_single single, equals_single single]
    | obj => exact hequal
    | arr items =>
      rw [equals_arr, equals_arr, h.isArray_eq, hequal,
        any_congr items fun item _ item' hitem ↦ Json.equal_congr hitem h]

theorem compareTo_reordered (hfound : Option.Rel Reordered found found') (h : Reordered x y) :
    compareTo found x = compareTo found' y := by
  cases hfound with
  | none => rfl
  | some hvalue => exact hvalue.order?_eq h

theorem any_equals_reordered (hfound : Option.Rel Reordered found found') {xs ys : List Json}
    (h : List.Forall₂ Reordered xs ys) : xs.any (equals found) = ys.any (equals found') :=
  any_congr h fun _ _ _ hitem ↦ equals_reordered hfound hitem

/-- What asks for a list sees the items only. -/
theorem onItems_reordered {p q : List Json → Bool}
    (agree : ∀ xs ys, List.Forall₂ Reordered xs ys → p xs = q ys) : Reordered x y →
    (match x with | .arr items => p items | _ => false) =
      match y with | .arr items => q items | _ => false := by
  intro h
  cases h with
  | leaf single plain =>
    cases x with
    | arr items => cases single
    | _ => rfl
  | arr items => exact agree _ _ items
  | obj => rfl

theorem applyOperator_reordered (hfound : Option.Rel Reordered found found') (h : Reordered x y)
    (operator : String) : applyOperator found operator x = applyOperator found' operator y := by
  have hequals := equals_reordered hfound h
  have hcompare := compareTo_reordered hfound h
  unfold applyOperator
  split
  · exact hequals
  · exact congrArg not hequals
  · exact onItems_reordered (fun _ _ ↦ any_equals_reordered hfound) h
  · exact onItems_reordered (fun _ _ hitems ↦ congrArg not (any_equals_reordered hfound hitems)) h
  · rw [hcompare]
  · rw [hcompare]
  · rw [hcompare]
  · rw [hcompare]
  · cases hfound with
    | none => rw [h.bool?_eq]
    | some hvalue => simp only [h.bool?_eq, hvalue.isNull_eq]
  · rfl

theorem matchField_single {condition : Json} (plain : condition.isObject = false) :
    matchField found condition = equals found condition := by
  cases condition with
  | obj members => cases plain
  | _ => rfl

theorem matchField_obj (found : Option Json) (members : List (String × Json)) :
    matchField found (.obj members) =
      if !members.isEmpty && members.all (fun member ↦ isOperatorName member.1) then
        members.all fun member ↦ applyOperator found member.1 member.2
      else equals found (.obj members) := by
  cases members <;> rfl

theorem matchField_reordered (hfound : Option.Rel Reordered found found') (h : Reordered x y) :
    matchField found x = matchField found' y := by
  have hequals := equals_reordered hfound h
  cases h with
  | leaf single plain => rwa [matchField_single plain, matchField_single plain]
  | arr items => exact hequals
  | @obj xs ys zs distinct names values order =>
    have hempty : xs.isEmpty = zs.isEmpty := by
      have hlength := (congrArg List.length names).trans (order.map Prod.fst).length_eq
      simp only [Entries.keys, List.length_map] at hlength
      rw [Bool.eq_iff_iff, List.isEmpty_iff_length_eq_zero, List.isEmpty_iff_length_eq_zero, hlength]
    have hnames : xs.all (fun member ↦ isOperatorName member.1) =
        zs.all fun member ↦ isOperatorName member.1 :=
      Reordered.all_members names values order fun _ _ _ _ ↦ rfl
    have hoperators : xs.all (fun member ↦ applyOperator found member.1 member.2) =
        zs.all fun member ↦ applyOperator found' member.1 member.2 :=
      Reordered.all_members names values order fun _ _ _ hvalue ↦
        applyOperator_reordered hfound hvalue _
    rw [matchField_obj, matchField_obj, hempty, hnames, hoperators, hequals]

/-! ## Filters -/

theorem acceptsConditions_eq (record : Json) (conditions : List (String × Json)) :
    acceptsConditions record conditions =
      conditions.all fun condition ↦ acceptsCondition record condition.1 condition.2 := by
  induction conditions with
  | nil => rfl
  | cons condition rest ih => rw [acceptsConditions, ih, List.all_cons]

theorem acceptsAll_eq (record : Json) (filters : List Json) :
    acceptsAll record filters = !filters.any fun filter ↦ !accepts record filter := by
  induction filters with
  | nil => rfl
  | cons filter rest ih => rw [acceptsAll, ih, List.any_cons, Bool.not_or, Bool.not_not]

theorem acceptsAny_eq (record : Json) (filters : List Json) :
    acceptsAny record filters = filters.any (accepts record) := by
  induction filters with
  | nil => rfl
  | cons filter rest ih => rw [acceptsAny, ih, List.any_cons]

/-- A filter and a record may be reordered: as a filter, and as the condition of a key, the reordering
does the same to the reordered record. -/
theorem accepts_reordered (hrecord : Reordered record record') (h : Reordered filter filter') :
    accepts record filter = accepts record' filter' ∧
      ∀ key, acceptsCondition record key filter = acceptsCondition record' key filter' := by
  have hfield : ∀ {x y : Json}, Reordered x y → ∀ key,
      matchField (record.lookup key) x = matchField (record'.lookup key) y :=
    fun h key ↦ matchField_reordered (hrecord.lookupIn (Path.segments key)) h
  have hsingle : ∀ {x y : Json}, Reordered x y → x.isArray = false → ∀ key,
      acceptsCondition record key x = acceptsCondition record' key y := by
    intro x y h single key
    rw [acceptsCondition_single single, acceptsCondition_single (h.isArray_eq ▸ single), hfield h]
  induction filter using Json.induction generalizing filter' with
  | leaf value single plain =>
    refine ⟨?_, hsingle h single⟩
    cases h with
    | leaf =>
      cases value with
      | obj members => cases plain
      | _ => rfl
    | arr => cases single
    | obj => cases plain
  | arr filters ih =>
    cases h with
    | leaf single => cases single
    | @arr _ filters' items =>
      refine ⟨rfl, fun key ↦ ?_⟩
      have hall : acceptsAll record filters = acceptsAll record' filters' := by
        rw [acceptsAll_eq, acceptsAll_eq, any_congr items fun filter hfilter _ h ↦
          congrArg not (ih filter hfilter h).1]
      have hany : acceptsAny record filters = acceptsAny record' filters' := by
        rw [acceptsAny_eq, acceptsAny_eq, any_congr items fun filter hfilter _ h ↦
          (ih filter hfilter h).1]
      rw [acceptsCondition, acceptsCondition, hall, hany, hfield (.arr items)]
  | obj conditions ih =>
    refine ⟨?_, hsingle h rfl⟩
    cases h with
    | leaf _ plain => cases plain
    | obj distinct names values order =>
      rw [accepts, accepts, acceptsConditions_eq, acceptsConditions_eq]
      exact Reordered.all_members names values order fun condition hcondition _ h ↦
        (ih condition hcondition h).2 condition.1

end Filter

/-! ## Unique fields -/

namespace Store

variable {collection collection' : Collection} {candidate candidate' value value' : Json}

/-- Whether a value clashes does not depend on how it and the records are written. -/
theorem clashes_reordered (names : collection.keys = collection'.keys)
    (records : List.Forall₂ Reordered collection.values collection'.values)
    (h : Reordered value value') (id field : String) :
    clashes collection id field value = clashes collection' id field value' := by
  unfold clashes
  rw [List.any_eq_not_all_not, List.any_eq_not_all_not]
  refine congrArg not (Reordered.all_members names records (.refl _) ?_)
  rintro ⟨other, held⟩ - record hrecord
  have hfound := hrecord.get? field
  dsimp only at hfound ⊢
  generalize held.get? field = found, record.get? field = found' at hfound ⊢
  cases hfound with
  | none => rfl
  | some hfound => simp only [Json.equal_congr hfound h]

theorem clash?_eq (model : ModelHandle) (collection : Collection) (id : String) (candidate : Json) :
    clash? model collection id candidate = model.unique.findSome? fun field ↦
      (candidate.get? field).bind fun value ↦
        if !value.isNull && clashes collection id field value then some (field, value) else none := by
  unfold clash?
  congr 1
  funext field
  cases candidate.get? field with
  | none => rfl
  | some value => cases value <;> rfl

/-- Nor does the field that clashes first. -/
theorem clash?_reordered (names : collection.keys = collection'.keys)
    (records : List.Forall₂ Reordered collection.values collection'.values)
    (h : Reordered candidate candidate') (model : ModelHandle) (id : String) :
    (clash? model collection id candidate).map Prod.fst =
      (clash? model collection' id candidate').map Prod.fst := by
  rw [clash?_eq, clash?_eq, List.map_findSome?, List.map_findSome?]
  congr 1
  funext field
  have hvalue := h.get? field
  dsimp only [Function.comp_apply]
  generalize candidate.get? field = found, candidate'.get? field = found' at hvalue ⊢
  cases hvalue with
  | none => rfl
  | some hvalue =>
    dsimp only [Option.bind_some]
    rw [hvalue.isNull_eq, clashes_reordered names records hvalue id field]
    split <;> rfl

/-- A candidate that has a reordering of a value that another record holds in a unique field is refused. -/
theorem checkUnique_of_reordered {store : Store} {model : ModelHandle} {id other field : String}
    {record held : Json} (mem : (other, record) ∈ store.collection model.resource)
    (apart : other ≠ id) (unique : field ∈ model.unique) (found : record.get? field = some held)
    (asked : candidate.get? field = some value) (present : value ≠ .null)
    (h : Reordered held value) : ∃ taken ∈ model.unique, ∃ text,
      store.checkUnique model id candidate = .error (.alreadyExists model.resource taken text) := by
  unfold checkUnique
  cases hclash : clash? model (store.collection model.resource) id candidate with
  | none =>
    have hfree := clashes_eq_false hclash unique asked present
    have hdiffers := equal_eq_false_of_clashes hfree mem apart found
    cases hdiffers.symm.trans (Json.equal_of_reordered h)
  | some clash =>
    refine ⟨clash.1, ?_, clash.2.compact, rfl⟩
    rw [clash?_eq] at hclash
    obtain ⟨taken, htaken, hfound⟩ := List.exists_of_findSome?_eq_some hclash
    obtain ⟨_, -, hheld⟩ := Option.bind_eq_some_iff.mp hfound
    split at hheld
    · cases hheld
      exact htaken
    · cases hheld

/-- Filters and unique fields ignore the order of members, at any depth.  Reorderings of a filter and of a
record give the same answer, values are equal if their reorderings are, and reorderings of the records and
of a candidate give the same verdict on the candidate.  So a value of a unique field cannot be taken a
second time by writing it in another order. -/
theorem accepts_ignores_order :
    (∀ filter filter' record record', Reordered filter filter' → Reordered record record' →
      Filter.accepts record filter = Filter.accepts record' filter') ∧
    (∀ held held' value value', Reordered held held' → Reordered value value' →
      held.equal value = held'.equal value') ∧
    (∀ model id (collection collection' : Collection) candidate candidate',
      collection.keys = collection'.keys →
      List.Forall₂ Reordered collection.values collection'.values → Reordered candidate candidate' →
      (clash? model collection id candidate).map Prod.fst =
        (clash? model collection' id candidate').map Prod.fst) ∧
    ∀ (store : Store) model id other record candidate field held value,
      (other, record) ∈ store.collection model.resource → other ≠ id → field ∈ model.unique →
      record.get? field = some held → candidate.get? field = some value → value ≠ .null →
      Reordered held value → ∃ taken ∈ model.unique, ∃ text,
        store.checkUnique model id candidate = .error (.alreadyExists model.resource taken text) := by
  refine ⟨fun filter filter' record record' hfilter hrecord ↦ ?_, fun held held' value value' ↦ ?_,
    fun model id collection collection' candidate candidate' names records h ↦ ?_, ?_⟩
  · exact (Filter.accepts_reordered hrecord hfilter).1
  · exact Json.equal_congr
  · exact clash?_reordered names records h model id
  · intro store model id other record candidate field held value mem apart unique found asked present h
    exact checkUnique_of_reordered mem apart unique found asked present h

/-- An address written in two orders: operators and embedded addresses in a nested filter match alike,
and the second user with the address is refused. -/
theorem accepts_ignores_order_addresses :
    let address : Json := .obj [("city", .str "Oslo"), ("zip", .int 1)]
    let address' : Json := .obj [("zip", .int 1), ("city", .str "Oslo")]
    let range : Json := .obj [("$gte", .int 1), ("$lt", .int 5)]
    let range' : Json := .obj [("$lt", .int 5), ("$gte", .int 1)]
    let filter (range address : Json) : Json :=
      .obj [("$or", .arr [.obj [("age", range)], .obj [("home", address)]])]
    let user (id : String) (address : Json) : Json := .obj [("id", .str id), ("home", address)]
    let model : ModelHandle := ⟨"User", ["home"]⟩
    Reordered address address' ∧ Reordered range range' ∧
    Filter.accepts (user "1" address) (filter range address') =
      Filter.accepts (user "1" address') (filter range' address) ∧
    ∃ taken ∈ model.unique, ∃ text,
      (empty.write "User" "1" (user "1" address)).checkUnique model "2" (user "2" address') =
        .error (.alreadyExists "User" taken text) := by
  intro address address' range range' filter user model
  have hpair : ∀ {first second : String} {x y : Json}, first ≠ second → Reordered x x → Reordered y y →
      Reordered (.obj [(first, x), (second, y)]) (.obj [(second, y), (first, x)]) :=
    fun hne hx hy ↦ .obj (by simp [Entries.keys, hne]) rfl (.cons hx (.cons hy .nil)) (.swap ..)
  have hscalar : ∀ value : Json, value.isArray = false → value.isObject = false → Reordered value value :=
    fun _ ↦ .leaf
  have haddress : Reordered address address' :=
    hpair (by decide) (hscalar _ rfl rfl) (hscalar _ rfl rfl)
  have hback : Reordered address' address :=
    hpair (by decide) (hscalar _ rfl rfl) (hscalar _ rfl rfl)
  have hrange : Reordered range range' :=
    hpair (by decide) (hscalar _ rfl rfl) (hscalar _ rfl rfl)
  have hsingle : ∀ {name : String} {x y : Json}, Reordered x y →
      Reordered (.obj [(name, x)]) (.obj [(name, y)]) :=
    fun {name _ y} h ↦
      @Reordered.obj _ [(name, y)] _ (by simp [Entries.keys]) rfl (.cons h .nil) (.refl _)
  have hfilter : Reordered (filter range address') (filter range' address) :=
    hsingle (.arr (.cons (hsingle hrange) (.cons (hsingle hback) .nil)))
  have huser : Reordered (user "1" address) (user "1" address') :=
    @Reordered.obj _ [("id", _), ("home", address')] _ (by simp [Entries.keys]) rfl
      (.cons (hscalar _ rfl rfl) (.cons haddress .nil)) (.refl _)
  obtain ⟨haccepts, -, -, hunique⟩ := accepts_ignores_order
  refine ⟨haddress, hrange, haccepts _ _ _ _ hfilter huser, ?_⟩
  exact hunique _ model "2" "1" (user "1" address) _ "home" address address' List.mem_cons_self
    (by decide) List.mem_cons_self rfl rfl (by simp) haddress

end Store
end ResourceApi

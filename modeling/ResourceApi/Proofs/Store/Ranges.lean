import ResourceApi.Proofs.Number.Rounding
import ResourceApi.Proofs.Store.Reordering

/-!
# Ranges of integers

Two integers are equal only if they are the same number, but their order is that of the floats they are
rounded to.  Ranges and sorting therefore never turn two integers around, and they tell integers apart as
long as rounding does; integers that are rounded to one float fall into one range, and no sort key tells
them apart.
-/

namespace ResourceApi

open Number (roundInt roundInt_mono roundInt_lt_of_apart)

/-! ## The order of integers -/

/-- The comparison of the two integers is that of the numbers. -/
def Json.OrderedExactly (x y : Int) : Prop :=
  (Json.int x).order? (.int y) = some (compare x y)

theorem Json.orderedExactly_of_lt {x y : Int} (h : x < y) (rounded : roundInt x < roundInt y) :
    OrderedExactly x y := by
  unfold OrderedExactly
  rw [order?_roundInt, Int.compare_eq_lt.mpr rounded, Int.compare_eq_lt.mpr h]

theorem Json.orderedExactly_of_gt {x y : Int} (h : y < x) (rounded : roundInt y < roundInt x) :
    OrderedExactly x y := by
  unfold OrderedExactly
  rw [order?_roundInt, Int.compare_eq_gt.mpr rounded, Int.compare_eq_gt.mpr h]

/-- What rounding tells apart is ordered as the numbers are. -/
theorem Json.orderedExactly_iff (x y : Int) :
    OrderedExactly x y ↔ x = y ∨ roundInt x ≠ roundInt y := by
  constructor
  · intro h
    by_contra hnot
    obtain ⟨hne, hrounded⟩ := not_or.mp hnot
    unfold OrderedExactly at h
    rw [order?_roundInt, not_not.mp hrounded, Std.ReflOrd.compare_self, Option.some.injEq] at h
    exact hne (Int.compare_eq_eq.mp h.symm)
  · rintro (rfl | hrounded)
    · unfold OrderedExactly
      rw [order?_roundInt, Std.ReflOrd.compare_self, Std.ReflOrd.compare_self]
    · rcases Int.lt_trichotomy x y with hlt | rfl | hgt
      · exact orderedExactly_of_lt hlt (lt_of_le_of_ne (roundInt_mono hlt.le) hrounded)
      · exact absurd rfl hrounded
      · exact orderedExactly_of_gt hgt (lt_of_le_of_ne (roundInt_mono hgt.le) hrounded.symm)

theorem Json.orderedExactly_of_apart {x y : Int} (hx : x.natAbs < unsignedBound)
    (hy : y.natAbs < unsignedBound) (apart : 2 ^ 11 < (y - x).natAbs) : OrderedExactly x y := by
  rcases Int.lt_trichotomy x y with hlt | rfl | hgt
  · exact orderedExactly_of_lt hlt (roundInt_lt_of_apart hx hy (by omega))
  · exact (orderedExactly_iff x x).mpr (.inl rfl)
  · exact orderedExactly_of_gt hgt (roundInt_lt_of_apart hy hx (by omega))

/-! ## Operators -/

namespace Filter

inductive RangeOperator where
  | gt
  | gte
  | lt
  | lte
deriving DecidableEq, Repr

namespace RangeOperator

def name : RangeOperator → String
  | .gt => "$gt"
  | .gte => "$gte"
  | .lt => "$lt"
  | .lte => "$lte"

/-- How the operator wants the number found to stand to its argument. -/
def Relates : RangeOperator → Int → Int → Prop
  | .gt, found, bound => bound < found
  | .gte, found, bound => bound ≤ found
  | .lt, found, bound => found < bound
  | .lte, found, bound => found ≤ bound

end RangeOperator

theorem compareTo_int (x n : Int) :
    compareTo (some (.int x)) (.int n) = some (compare (roundInt x) (roundInt n)) :=
  Json.order?_roundInt x n

theorem applyOperator_range (operator : RangeOperator) (x n : Int) :
    applyOperator (some (.int x)) operator.name (.int n) = true ↔
      operator.Relates (roundInt x) (roundInt n) := by
  cases operator <;>
    simp only [RangeOperator.name, RangeOperator.Relates, applyOperator, compareTo_int]
  case gt => simp [Int.compare_eq_gt]
  case gte =>
    rw [← Int.isGE_compare]
    cases compare (roundInt x) (roundInt n) <;> simp
  case lt => simp [Int.compare_eq_lt]
  case lte =>
    rw [← Int.isLE_compare]
    cases compare (roundInt x) (roundInt n) <;> simp

theorem applyOperator_eq (x n : Int) :
    applyOperator (some (.int x)) "$eq" (.int n) = true ↔ x = n := by
  change (x == n) = true ↔ x = n
  exact beq_iff_eq

/-- A field has to meet all of its operators; no record meets operators on a connective. -/
theorem accepts_operators (record : Json) (field : String) (operators : List (String × Json))
    (nonempty : operators ≠ []) (named : ∀ entry ∈ operators, isOperatorName entry.1 = true) :
    accepts record (.obj [(field, .obj operators)]) = true ↔
      Connective.ofKey? field = none ∧
        ∀ entry ∈ operators, applyOperator (record.lookup field) entry.1 entry.2 = true := by
  have hoperators : (!operators.isEmpty && operators.all fun entry ↦ isOperatorName entry.1) = true := by
    rw [List.all_eq_true.mpr named, Bool.and_true, Bool.not_eq_true', List.isEmpty_eq_false_iff]
    exact nonempty
  rw [accepts, acceptsConditions, acceptsConditions, Bool.and_true, acceptsCondition_single rfl,
    matchField_obj, if_pos hoperators, Bool.and_eq_true, Option.isNone_iff_eq_none, List.all_eq_true]

theorem accepts_operator (record : Json) (field operator : String) (argument : Json)
    (named : isOperatorName operator = true) :
    accepts record (.obj [(field, .obj [(operator, argument)])]) = true ↔
      Connective.ofKey? field = none ∧
        applyOperator (record.lookup field) operator argument = true := by
  rw [accepts_operators record field [(operator, argument)] (List.cons_ne_nil _ _)
    (List.forall_mem_singleton.mpr named), List.forall_mem_singleton]

theorem isOperatorName_range (operator : RangeOperator) : isOperatorName operator.name = true := by
  cases operator <;> decide

variable {record : Json} {field : String} {x : Int}

theorem accepts_range (found : record.lookup field = some (.int x)) (operator : RangeOperator) (n : Int) :
    accepts record (.obj [(field, .obj [(operator.name, .int n)])]) = true ↔
      Connective.ofKey? field = none ∧ operator.Relates (roundInt x) (roundInt n) := by
  rw [accepts_operator record field _ _ (isOperatorName_range operator), found, applyOperator_range]

/-- The range from a number to itself holds what is rounded as the number is. -/
theorem accepts_point (found : record.lookup field = some (.int x)) (n : Int) :
    accepts record (.obj [(field, .obj [("$gte", .int n), ("$lte", .int n)])]) = true ↔
      Connective.ofKey? field = none ∧ roundInt x = roundInt n := by
  have hgte : applyOperator (some (.int x)) "$gte" (.int n) = true ↔ roundInt n ≤ roundInt x :=
    applyOperator_range .gte x n
  have hlte : applyOperator (some (.int x)) "$lte" (.int n) = true ↔ roundInt x ≤ roundInt n :=
    applyOperator_range .lte x n
  have hnamed : ∀ entry ∈ [("$gte", Json.int n), ("$lte", Json.int n)], isOperatorName entry.1 = true :=
    List.forall_mem_cons.mpr ⟨isOperatorName_range .gte,
      List.forall_mem_singleton.mpr (isOperatorName_range .lte)⟩
  rw [accepts_operators record field _ (List.cons_ne_nil _ _) hnamed, List.forall_mem_cons,
    List.forall_mem_singleton, found, hgte, hlte, and_comm (a := roundInt n ≤ roundInt x),
    ← le_antisymm_iff]

theorem accepts_eq (found : record.lookup field = some (.int x)) (n : Int) :
    accepts record (.obj [(field, .obj [("$eq", .int n)])]) = true ↔
      Connective.ofKey? field = none ∧ x = n := by
  rw [accepts_operator record field "$eq" (.int n) (by decide), found, applyOperator_eq]

/-- The range from a number to itself and equality with the number agree where the order is exact. -/
theorem accepts_point_eq (found : record.lookup field = some (.int x)) (n : Int)
    (plain : Connective.ofKey? field = none) :
    accepts record (.obj [(field, .obj [("$gte", .int n), ("$lte", .int n)])]) =
      accepts record (.obj [(field, .obj [("$eq", .int n)])]) ↔ Json.OrderedExactly x n := by
  have hsame : x = n → roundInt x = roundInt n := congrArg roundInt
  rw [Bool.eq_iff_iff, accepts_point found, accepts_eq found, Json.orderedExactly_iff]
  tauto

end Filter

/-! ## Sorting -/

theorem SortKey.order_integers {key : SortKey} {record record' : Json} {x y : Int}
    (found : record.lookup key.field = some (.int x)) (found' : record'.lookup key.field = some (.int y)) :
    key.order record record' = if key.descending then compare (roundInt y) (roundInt x)
      else compare (roundInt x) (roundInt y) := by
  have hascending : orderFound (some (.int x)) (some (.int y)) = compare (roundInt x) (roundInt y) := by
    rw [orderFound, Json.order?_roundInt, Option.getD_some]
  unfold order
  rw [found, found', hascending, Std.OrientedOrd.eq_swap (a := roundInt y)]

namespace Filter

/-- Operators and sort keys see integers as they are rounded to 53 significant bits.  Rounding keeps their
order; the comparison is exact for equal integers and for those that rounding tells apart, which are all
up to `2 ^ 53`, and in 64 bits all that lie further apart than `2 ^ 11`.  The range from a number to
itself holds every integer that is rounded as the number is, while equality asks for the number itself;
so it is the exact comparisons for which the two agree. -/
theorem ranges_round (x n : Int) :
    (Json.int x).order? (.int n) = some (compare (roundInt x) (roundInt n)) ∧
    (x ≤ n → roundInt x ≤ roundInt n) ∧
    (Json.OrderedExactly x n ↔ x = n ∨ roundInt x ≠ roundInt n) ∧
    (x.natAbs ≤ 2 ^ 53 → n.natAbs ≤ 2 ^ 53 → Json.OrderedExactly x n) ∧
    (x.natAbs < Json.unsignedBound → n.natAbs < Json.unsignedBound → 2 ^ 11 < (n - x).natAbs →
      Json.OrderedExactly x n) ∧
    (∀ (key : SortKey) (record record' : Json),
      record.lookup key.field = some (.int x) → record'.lookup key.field = some (.int n) →
      key.order record record' = if key.descending then compare (roundInt n) (roundInt x)
        else compare (roundInt x) (roundInt n)) ∧
    ∀ (record : Json) (field : String), record.lookup field = some (.int x) →
      (∀ operator : RangeOperator,
        accepts record (.obj [(field, .obj [(operator.name, .int n)])]) = true ↔
          Connective.ofKey? field = none ∧ operator.Relates (roundInt x) (roundInt n)) ∧
      (accepts record (.obj [(field, .obj [("$gte", .int n), ("$lte", .int n)])]) = true ↔
        Connective.ofKey? field = none ∧ roundInt x = roundInt n) ∧
      (accepts record (.obj [(field, .obj [("$eq", .int n)])]) = true ↔
        Connective.ofKey? field = none ∧ x = n) ∧
      (Connective.ofKey? field = none →
        (accepts record (.obj [(field, .obj [("$gte", .int n), ("$lte", .int n)])]) =
            accepts record (.obj [(field, .obj [("$eq", .int n)])]) ↔ Json.OrderedExactly x n)) := by
  refine ⟨Json.order?_roundInt x n, roundInt_mono, Json.orderedExactly_iff x n, Json.order?_int,
    Json.orderedExactly_of_apart, fun key record record' ↦ SortKey.order_integers,
    fun record field found ↦ ?_⟩
  exact ⟨fun operator ↦ accepts_range found operator n, accepts_point found n, accepts_eq found n,
    accepts_point_eq found n⟩

/-- The first integer that is rounded, and its neighbour. -/
theorem ranges_round_neighbours :
    let record : Json := .obj [("n", .int 9007199254740993)]
    let n : Json := .int 9007199254740992
    (Json.int 9007199254740993).order? n = some .eq ∧
      accepts record (.obj [("n", .obj [("$gt", n)])]) = false ∧
      accepts record (.obj [("n", .obj [("$gte", n), ("$lte", n)])]) = true ∧
      accepts record (.obj [("n", .obj [("$eq", n)])]) = false ∧
      ¬∀ x y : Int, x.natAbs < Json.signedBound → y.natAbs < Json.signedBound →
        Json.OrderedExactly x y := by
  intro record n
  have hsame : (Json.int 9007199254740993).order? n = some .eq := by decide +kernel
  refine ⟨hsame, by decide +kernel, by decide +kernel, by decide +kernel, fun h ↦ ?_⟩
  have hexact := h 9007199254740993 9007199254740992 (by decide) (by decide)
  unfold Json.OrderedExactly at hexact
  rw [hsame] at hexact
  exact absurd hexact (by decide)

/-- An integer beyond `2 ^ 53` lies in the range of its neighbour, while an integer that is far enough away
does not. -/
theorem ranges_round_beyond :
    let record : Json := .obj [("n", .int 9007199254740993)]
    let point (n : Int) : Json := .obj [("n", .obj [("$gte", .int n), ("$lte", .int n)])]
    record.lookup "n" = some (.int 9007199254740993) ∧
      accepts record (point 9007199254740992) = true ∧
      accepts record (point 9007199254740994) = false ∧
      Json.OrderedExactly 9007199254740993 9007199254743042 := by
  intro record point
  have hfound : record.lookup "n" = some (.int 9007199254740993) := by rfl
  obtain ⟨-, -, -, -, -, -, hfield⟩ := ranges_round 9007199254740993 9007199254740992
  obtain ⟨-, -, -, -, -, -, hother⟩ := ranges_round 9007199254740993 9007199254740994
  obtain ⟨-, -, -, -, hapart, -⟩ := ranges_round 9007199254740993 9007199254743042
  refine ⟨hfound, (hfield record "n" hfound).2.1.mpr (by decide +kernel), ?_,
    hapart (by decide) (by decide) (by decide)⟩
  rw [← Bool.not_eq_true, (hother record "n" hfound).2.1]
  decide +kernel

end Filter
end ResourceApi

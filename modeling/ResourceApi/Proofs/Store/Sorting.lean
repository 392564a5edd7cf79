import Mathlib.Data.List.Perm.Basic
import ResourceApi.Proofs.Number.Rounding
import ResourceApi.Proofs.Store.Agreement

/-!
# Sorted records

Sort keys order records lexicographically: by the first key whose values differ, where a missing value
comes before all others and a descending key turns its order around.  `Smaller` states this order on its
own.  If the values at each key are of one kind, texts, booleans or integers that need no rounding, then
the comparison of records decides it, which makes the comparison a total preorder, and sorting is a stable
sort by it.
-/

namespace ResourceApi

/-! ## Sorting by a preorder of the elements -/

section Preorder

open Std

variable {α : Type} {xs : List α} {order : α → α → Ordering}

theorem map_val_mergeSort (xs : List α) (le : α → α → Bool) :
    (xs.attach.mergeSort fun x y ↦ le x.1 y.1).map Subtype.val = xs.mergeSort le := by
  rw [List.map_mergeSort (f := Subtype.val) (s := le) fun _ _ _ _ ↦ rfl, List.attach_map_subtype_val]

theorem le_trans_of_transCmp {β : Type} {order : β → β → Ordering} [TransCmp order] (x y z : β)
    (hxy : (order x y != .gt) = true) (hyz : (order y z != .gt) = true) :
    (order x z != .gt) = true := by
  simp only [bne_iff_ne, ne_eq, ← Ordering.isLE_iff_ne_gt] at hxy hyz ⊢
  exact TransCmp.isLE_trans hxy hyz

theorem le_total_of_transCmp {β : Type} (order : β → β → Ordering) [TransCmp order] (x y : β) :
    (order x y != .gt || order y x != .gt) = true := by
  rw [(OrientedCmp.eq_swap : order y x = _)]
  cases order x y <;> rfl

/-- Sorting by a comparison that is a preorder on the elements puts no element before a smaller one. -/
theorem pairwise_mergeSort_of_transCmp
    (h : TransCmp fun x y : { x // x ∈ xs } ↦ order x.1 y.1) :
    (xs.mergeSort fun x y ↦ order x y != .gt).Pairwise fun x y ↦ order x y ≠ .gt := by
  rw [← map_val_mergeSort, List.pairwise_map]
  have hsorted := List.pairwise_mergeSort le_trans_of_transCmp
    (le_total_of_transCmp fun x y : { x // x ∈ xs } ↦ order x.1 y.1) xs.attach
  exact hsorted.imp fun hle ↦ by simpa using hle

/-- Sorting by a comparison that is a preorder on the elements keeps the order of those that are equal to
one of them. -/
theorem filter_mergeSort_of_transCmp (h : TransCmp fun x y : { x // x ∈ xs } ↦ order x.1 y.1) {x : α}
    (mem : x ∈ xs) :
    (xs.mergeSort fun x y ↦ order x y != .gt).filter (fun y ↦ order x y == .eq) =
      xs.filter fun y ↦ order x y == .eq := by
  let alike := xs.attach.filter fun y ↦ order x y.1 == .eq
  have halike : alike.map Subtype.val = xs.filter fun y ↦ order x y == .eq := by
    conv_rhs => rw [← List.attach_map_subtype_val xs, List.filter_map]
    rfl
  -- elements that are equal to one element are equal to each other, so they are sorted as they stand
  have hsorted : alike.Pairwise fun y z ↦ (order y.1 z.1 != .gt) = true := by
    refine List.pairwise_of_forall_mem_list fun y hy z hz ↦ ?_
    have hxy : order x y.1 = .eq := beq_iff_eq.mp (List.mem_filter.mp hy).2
    have hxz : order x z.1 = .eq := beq_iff_eq.mp (List.mem_filter.mp hz).2
    have hyz := h.eq_trans (h.eq_symm (a := ⟨x, mem⟩) hxy) hxz
    exact bne_iff_ne.mpr (hyz.trans_ne nofun)
  have hkept := (List.sublist_mergeSort le_trans_of_transCmp (le_total_of_transCmp _) hsorted
    List.filter_sublist).map Subtype.val
  rw [map_val_mergeSort xs fun x y ↦ order x y != .gt, halike] at hkept
  have hsublist := hkept.filter fun y ↦ order x y == .eq
  rw [List.filter_filter] at hsublist
  simp only [Bool.and_self] at hsublist
  have hlength := ((List.mergeSort_perm xs fun x y ↦ order x y != .gt).filter
    fun y ↦ order x y == .eq).length_eq
  exact (hsublist.eq_of_length hlength.symm).symm

end Preorder

namespace SortKey

variable {key : SortKey} {keys : List SortKey} {records : List Json} {x y z : Json}

/-! ## Values -/

/-- The order of the values at a path, by kind; nothing is between values of different kinds. -/
inductive Less : Option Json → Option Json → Prop
  | missing (value : Json) : Less none (some value)
  | text {x y : String} (less : x < y) : Less (some (.str x)) (some (.str y))
  | bool : Less (some (.bool false)) (some (.bool true))
  | int {x y : Int} (less : x < y) : Less (some (.int x)) (some (.int y))

theorem Less.trans {x y z : Option Json} (hxy : Less x y) (hyz : Less y z) : Less x z := by
  cases hxy with
  | missing => cases hyz <;> exact .missing _
  | text hless =>
    cases hyz with
    | text hless' => exact .text (String.lt_trans hless hless')
  | bool => cases hyz
  | int hless =>
    cases hyz with
    | int hless' => exact .int (Int.lt_trans hless hless')

/-- The kinds of values that keys sort by. -/
inductive Kind where
  | text
  | bool
  | int

/-- Integers are admitted as far as floats represent all of them. -/
def Kind.admits : Kind → Json → Bool
  | .text, .str _ => true
  | .bool, .bool _ => true
  | .int, .int n => n.natAbs ≤ 2 ^ 53
  | _, _ => false

theorem less_str {x y : String} : Less (some (.str x)) (some (.str y)) ↔ x < y :=
  ⟨fun h ↦ by cases h; assumption, .text⟩

theorem less_bool {x y : Bool} :
    Less (some (.bool x)) (some (.bool y)) ↔ x = false ∧ y = true :=
  ⟨fun h ↦ by cases h; exact ⟨rfl, rfl⟩, fun ⟨hx, hy⟩ ↦ hx ▸ hy ▸ .bool⟩

theorem less_int {x y : Int} : Less (some (.int x)) (some (.int y)) ↔ x < y :=
  ⟨fun h ↦ by cases h; assumption, .int⟩

theorem orderFound_of_order? {x y : Json} {order : Ordering} (h : x.order? y = some order) :
    orderFound (some x) (some y) = order := by
  rw [orderFound, h]
  rfl

/-- The comparison of values of one kind decides their order. -/
theorem orderFound_spec {kind : Kind} {x y : Option Json} (hx : x.all kind.admits = true)
    (hy : y.all kind.admits = true) : (orderFound x y = .lt ↔ Less x y) ∧
      (orderFound x y = .eq ↔ x = y) ∧ orderFound x y = (orderFound y x).swap := by
  match x, y with
  | none, none => exact ⟨⟨nofun, nofun⟩, by simp [orderFound], rfl⟩
  | none, some y => exact ⟨by simp [orderFound, Less.missing], by simp [orderFound], rfl⟩
  | some x, none => exact ⟨⟨nofun, nofun⟩, by simp [orderFound], rfl⟩
  | some x, some y =>
    change kind.admits x = true at hx
    change kind.admits y = true at hy
    cases kind with
    | text =>
      cases x with
      | str x =>
        cases y with
        | str y =>
          rw [orderFound_of_order? (x := .str x) (y := .str y) rfl,
            orderFound_of_order? (x := .str y) (y := .str x) rfl, less_str]
          exact ⟨compareOfLessAndEq_eq_lt, by simp, Std.OrientedOrd.eq_swap⟩
        | _ => cases hy
      | _ => cases hx
    | bool =>
      cases x with
      | bool x =>
        cases y with
        | bool y =>
          rw [orderFound_of_order? (x := .bool x) (y := .bool y) rfl,
            orderFound_of_order? (x := .bool y) (y := .bool x) rfl, less_bool]
          cases x <;> cases y <;> simp <;> decide
        | _ => cases hy
      | _ => cases hx
    | int =>
      cases x with
      | int x =>
        cases y with
        | int y =>
          have hx := of_decide_eq_true hx
          have hy := of_decide_eq_true hy
          rw [orderFound_of_order? (Json.order?_int hx hy), orderFound_of_order? (Json.order?_int hy hx),
            less_int]
          exact ⟨Int.compare_eq_lt, by simp, Std.OrientedOrd.eq_swap⟩
        | _ => cases hy
      | _ => cases hx

/-! ## Keys -/

/-- By the key, the first record comes before the second. -/
def Precedes (key : SortKey) (x y : Json) : Prop :=
  if key.descending then Less (y.lookup key.field) (x.lookup key.field)
  else Less (x.lookup key.field) (y.lookup key.field)

theorem Precedes.trans (hxy : key.Precedes x y) (hyz : key.Precedes y z) : key.Precedes x z := by
  unfold Precedes at *
  split at hxy
  · rename_i hdescending
    rw [if_pos hdescending] at hyz ⊢
    exact Less.trans hyz hxy
  · rename_i hascending
    rw [if_neg hascending] at hyz ⊢
    exact Less.trans hxy hyz

theorem order_spec {kind : Kind} (hx : (x.lookup key.field).all kind.admits = true)
    (hy : (y.lookup key.field).all kind.admits = true) :
    (key.order x y = .lt ↔ key.Precedes x y) ∧
      (key.order x y = .eq ↔ x.lookup key.field = y.lookup key.field) ∧
      key.order x y = (key.order y x).swap := by
  obtain ⟨hless, hsame, hswap⟩ := orderFound_spec hx hy
  unfold order Precedes
  cases key.descending with
  | false => exact ⟨hless, hsame, hswap⟩
  | true =>
    obtain ⟨hgreater, -, hback⟩ := orderFound_spec hy hx
    simp only [if_true, ← hback, ← hswap]
    exact ⟨hgreater, by rw [hback, Ordering.swap_eq_eq, hsame], trivial⟩

/-- A key with values of one kind compares records by a preorder. -/
theorem transCmp_order {kind : Kind}
    (h : ∀ record ∈ records, (record.lookup key.field).all kind.admits = true) :
    Std.TransCmp fun x y : { record // record ∈ records } ↦ key.order x.1 y.1 where
  eq_swap {x y} := (order_spec (h x.1 x.2) (h y.1 y.2)).2.2
  isLE_trans {x y z} hxy hyz := by
    have hle : ∀ x y : { record // record ∈ records }, (key.order x.1 y.1).isLE = true ↔
        key.Precedes x.1 y.1 ∨ x.1.lookup key.field = y.1.lookup key.field := by
      intro x y
      obtain ⟨hless, hsame, -⟩ := order_spec (h x.1 x.2) (h y.1 y.2)
      rw [Ordering.isLE_iff_eq_lt_or_eq_eq, hless, hsame]
    rw [hle] at hxy hyz ⊢
    rcases hxy with hxy | hxy
    · rcases hyz with hyz | hyz
      · exact .inl (hxy.trans hyz)
      · exact .inl (by unfold Precedes at hxy ⊢; rwa [← hyz])
    · rcases hyz with hyz | hyz
      · exact .inl (by unfold Precedes at hyz ⊢; rwa [hxy])
      · exact .inr (hxy.trans hyz)

/-! ## Lists of keys -/

/-- The values that the records have at the path of a key are of one kind, for every key. -/
def Homogeneous (keys : List SortKey) (records : List Json) : Prop :=
  ∀ key ∈ keys, ∃ kind : Kind, ∀ record ∈ records, (record.lookup key.field).all kind.admits = true

/-- The records have the same value, or none, at the path of every key. -/
def SameOn (keys : List SortKey) (x y : Json) : Prop :=
  ∀ key ∈ keys, x.lookup key.field = y.lookup key.field

theorem sameOn_cons {rest : List SortKey} :
    SameOn (key :: rest) x y ↔ x.lookup key.field = y.lookup key.field ∧ SameOn rest x y :=
  List.forall_mem_cons

/-- The first record comes before the second by some key, and they have the same values at those before
it. -/
inductive Smaller : List SortKey → Json → Json → Prop
  | first {key : SortKey} {rest : List SortKey} {x y : Json} (precedes : key.Precedes x y) :
      Smaller (key :: rest) x y
  | later {key : SortKey} {rest : List SortKey} {x y : Json}
      (same : x.lookup key.field = y.lookup key.field) (smaller : Smaller rest x y) :
      Smaller (key :: rest) x y

theorem transCmp_orderBy (h : Homogeneous keys records) :
    Std.TransCmp fun x y : { record // record ∈ records } ↦ orderBy keys x.1 y.1 := by
  induction keys with
  | nil => exact { eq_swap := rfl, isLE_trans := fun _ _ ↦ rfl }
  | cons key rest ih =>
    obtain ⟨⟨kind, hkind⟩, hrest⟩ := List.forall_mem_cons.mp h
    have hfirst := transCmp_order hkind
    have hlater := ih hrest
    exact inferInstanceAs (Std.TransCmp (compareLex
      (fun x y : { record // record ∈ records } ↦ key.order x.1 y.1)
      (fun x y : { record // record ∈ records } ↦ orderBy rest x.1 y.1)))

/-- The comparison decides the lexicographic order. -/
theorem orderBy_spec (h : Homogeneous keys records) (hx : x ∈ records) (hy : y ∈ records) :
    (orderBy keys x y = .lt ↔ Smaller keys x y) ∧ (orderBy keys x y = .eq ↔ SameOn keys x y) := by
  induction keys with
  | nil => exact ⟨⟨nofun, nofun⟩, ⟨fun _ _ ↦ nofun, fun _ ↦ rfl⟩⟩
  | cons key rest ih =>
    obtain ⟨⟨kind, hkind⟩, hrest⟩ := List.forall_mem_cons.mp h
    obtain ⟨hless, hsame, -⟩ := order_spec (hkind x hx) (hkind y hy)
    obtain ⟨hsmaller, hequal⟩ := ih hrest
    rw [orderBy_cons, Ordering.then_eq_lt, Ordering.then_eq_eq, hless, hsame, hsmaller, hequal]
    refine ⟨⟨?_, ?_⟩, sameOn_cons.symm⟩
    · rintro (hprecedes | ⟨hsame, hlater⟩)
      · exact .first hprecedes
      · exact .later hsame hlater
    · rintro (hprecedes | ⟨hsame, hlater⟩)
      · exact .inl hprecedes
      · exact .inr ⟨hsame, hlater⟩

/-- If the values at each key are of one kind, the comparison of records is reflexive, turns around when
they are swapped, is transitive, and decides the lexicographic order of the keys.  Sorting rearranges the
records so that none stands before a smaller one, and those that are equal on all keys stay in their
order. -/
theorem sort_stable (keys : List SortKey) (records : List Json)
    (homogeneous : Homogeneous keys records) :
    (∀ x ∈ records, orderBy keys x x = .eq) ∧
    (∀ x ∈ records, ∀ y ∈ records, orderBy keys y x = (orderBy keys x y).swap) ∧
    (∀ x ∈ records, ∀ y ∈ records, ∀ z ∈ records,
      orderBy keys x y ≠ .gt → orderBy keys y z ≠ .gt → orderBy keys x z ≠ .gt) ∧
    (∀ x ∈ records, ∀ y ∈ records, (orderBy keys x y = .lt ↔ Smaller keys x y) ∧
      (orderBy keys x y = .eq ↔ SameOn keys x y)) ∧
    (sort keys records).Perm records ∧
    (sort keys records).Pairwise (fun earlier later ↦ ¬Smaller keys later earlier) ∧
    ∀ x ∈ records, (sort keys records).filter (fun y ↦ orderBy keys x y == .eq) =
      records.filter fun y ↦ orderBy keys x y == .eq := by
  have hpreorder := transCmp_orderBy homogeneous
  refine ⟨fun x hx ↦ ?_, fun x hx y hy ↦ ?_, fun x hx y hy z hz hxy hyz ↦ ?_,
    fun x hx y hy ↦ orderBy_spec homogeneous hx hy, List.mergeSort_perm .., ?_,
    fun x hx ↦ filter_mergeSort_of_transCmp hpreorder hx⟩
  · exact (orderBy_spec homogeneous hx hx).2.mpr fun _ _ ↦ rfl
  · exact hpreorder.eq_swap (a := ⟨y, hy⟩) (b := ⟨x, hx⟩)
  · rw [ne_eq, ← Ordering.isLE_iff_ne_gt] at *
    exact hpreorder.isLE_trans (a := ⟨x, hx⟩) (b := ⟨y, hy⟩) (c := ⟨z, hz⟩) hxy hyz
  · refine (pairwise_mergeSort_of_transCmp hpreorder).imp_of_mem fun {x y} hx hy hle hsmaller ↦ hle ?_
    have hx := List.mem_mergeSort.mp hx
    have hy := List.mem_mergeSort.mp hy
    have hless := (orderBy_spec homogeneous hy hx).1.mpr hsmaller
    rw [hpreorder.eq_swap (a := ⟨x, hx⟩) (b := ⟨y, hy⟩), hless]
    rfl

/-- Users by falling age and then by name: the one without an age comes last, and the twins stay as they
are. -/
theorem sort_stable_users :
    let user (id : String) (rest : List (String × Json)) : Json := .obj (("id", .str id) :: rest)
    let twin : Json := user "1" [("age", .int 2), ("name", .str "b")]
    let other : Json := user "2" [("age", .int 2), ("name", .str "b")]
    let ageless : Json := user "3" [("name", .str "a")]
    let elder : Json := user "4" [("age", .int 9)]
    let keys : List SortKey := [⟨"age", true⟩, ⟨"name", false⟩]
    let records := [ageless, twin, elder, other]
    Homogeneous keys records ∧ Smaller keys elder twin ∧ Smaller keys twin ageless ∧
    (sort keys records).Perm records ∧
    (sort keys records).Pairwise (fun earlier later ↦ ¬Smaller keys later earlier) ∧
    (sort keys records).filter (fun record ↦ orderBy keys twin record == .eq) = [twin, other] := by
  intro user twin other ageless elder keys records
  have hkinds : ∀ key ∈ keys, ∃ kind ∈ [Kind.text, .bool, .int], ∀ record ∈ records,
      (record.lookup key.field).all kind.admits = true := by decide +kernel
  have homogeneous : Homogeneous keys records := fun key hkey ↦
    (hkinds key hkey).imp fun kind hkind ↦ hkind.2
  obtain ⟨-, -, -, hspec, hperm, hsorted, hkept⟩ := sort_stable keys records homogeneous
  have hless : orderBy keys elder twin = .lt ∧ orderBy keys twin ageless = .lt := by decide +kernel
  refine ⟨homogeneous, ?_, ?_, hperm, hsorted, ?_⟩
  · exact (hspec elder (by simp [records]) twin (by simp [records])).1.mp hless.1
  · exact (hspec twin (by simp [records]) ageless (by simp [records])).1.mp hless.2
  · rw [hkept twin (by simp [records])]
    rfl

end SortKey
end ResourceApi

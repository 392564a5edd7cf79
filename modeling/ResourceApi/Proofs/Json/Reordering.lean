import ResourceApi.Proofs.Json.Equality

/-!
# Reordered values

Two values are reorderings of each other if they differ in the order of object members only, at any depth.
Equality of well-formed values does not see the difference: a value equals its reorderings, and equality
is transitive.
-/

namespace ResourceApi

namespace Entries

variable {α β : Type} {R : α → β → Prop} {xs : Entries α} {ys : Entries β} {key : String}

/-- Entries with the same names and related values give related values. -/
theorem rel_get? (names : xs.keys = ys.keys) (h : List.Forall₂ R xs.values ys.values) (key : String) :
    Option.Rel R (xs.get? key) (ys.get? key) := by
  induction xs generalizing ys with
  | nil =>
    cases ys with
    | nil => exact .none
    | cons => cases names
  | cons x xs ih =>
    cases ys with
    | nil => cases names
    | cons y ys =>
      obtain ⟨hname, hnames⟩ := List.cons.inj names
      obtain ⟨hvalue, hvalues⟩ := List.forall₂_cons.mp h
      change x.1 = y.1 at hname
      rw [get?_cons, get?_cons, hname]
      split
      · exact .some hvalue
      · exact ih hnames hvalues

/-- The order of entries with distinct names does not matter for what a name gives. -/
theorem get?_of_perm {xs ys : Entries α} (distinct : xs.keys.Nodup) (h : xs.Perm ys) (key : String) :
    xs.get? key = ys.get? key := by
  have hdistinct : ys.keys.Nodup := (h.map Prod.fst).nodup_iff.mp distinct
  refine Option.ext fun value ↦ ?_
  rw [get?_eq_some_iff distinct, get?_eq_some_iff hdistinct, h.mem_iff]

end Entries

/-- What each element of a list has for all that it is related to holds of the related lists. -/
theorem forall₂_imp_of_mem {α β : Type} {R S : α → β → Prop} {xs : List α} {ys : List β}
    (h : List.Forall₂ R xs ys) (imp : ∀ x ∈ xs, ∀ y, R x y → S x y) : List.Forall₂ S xs ys :=
  ((List.forall₂_and_left _ _).mpr ⟨imp, h⟩).imp fun _ y hxy ↦ hxy.1 y hxy.2

theorem forall_and_of_forall₂ {α β : Type} {p : α → Prop} {q : β → Prop} {xs : List α} {ys : List β}
    (h : List.Forall₂ (fun x y ↦ p x ∧ q y) xs ys) : (∀ x ∈ xs, p x) ∧ ∀ y ∈ ys, q y := by
  induction h with
  | nil => exact ⟨nofun, nofun⟩
  | cons hfirst _ ih =>
    exact ⟨List.forall_mem_cons.mpr ⟨hfirst.1, ih.1⟩, List.forall_mem_cons.mpr ⟨hfirst.2, ih.2⟩⟩

theorem forall₂_trans_of_mem {α : Type} {R : α → α → Prop} {xs ys zs : List α}
    (hxy : List.Forall₂ R xs ys) (hyz : List.Forall₂ R ys zs)
    (trans : ∀ x ∈ xs, ∀ y z, R x y → R y z → R x z) : List.Forall₂ R xs zs := by
  induction hxy generalizing zs with
  | nil => exact hyz
  | cons hfirst _ ih =>
    obtain ⟨hhead, htail⟩ := List.forall_mem_cons.mp trans
    cases hyz with
    | cons hsecond hrest => exact .cons (hhead _ _ hfirst hsecond) (ih hrest htail)

theorem Number.Binary64.equal_trans {a b c : Binary64} (hab : a.equal b = true)
    (hbc : b.equal c = true) : a.equal c = true := by
  simp only [Binary64.equal, Bool.or_eq_true, Bool.and_eq_true, beq_iff_eq] at hab hbc ⊢
  rcases hab with ⟨ha, hb⟩ | rfl
  · rcases hbc with ⟨-, hc⟩ | rfl
    · exact .inl ⟨ha, hc⟩
    · exact .inl ⟨ha, hb⟩
  · exact hbc

namespace Json

variable {x y z x' y' : Json} {xs ys zs : List (String × Json)}

theorem wellFormed_leaf {value : Json} (single : value.isArray = false)
    (plain : value.isObject = false) : value.WellFormed := by
  cases value with
  | arr items => cases single
  | obj members => cases plain
  | _ => trivial

/-- The values are well formed and differ in the order of object members only, at any depth. -/
inductive Reordered : Json → Json → Prop
  | leaf {value : Json} (single : value.isArray = false) (plain : value.isObject = false) :
      Reordered value value
  | arr {xs ys : List Json} (items : List.Forall₂ Reordered xs ys) : Reordered (.arr xs) (.arr ys)
  | obj {xs ys zs : List (String × Json)} (distinct : (Entries.keys xs).Nodup)
      (names : Entries.keys xs = Entries.keys ys)
      (values : List.Forall₂ Reordered (Entries.values xs) (Entries.values ys)) (order : ys.Perm zs) :
      Reordered (.obj xs) (.obj zs)

namespace Reordered

theorem refl {value : Json} (h : value.WellFormed) : Reordered value value := by
  induction value using Json.induction with
  | leaf value single plain => exact .leaf single plain
  | arr items ih =>
    have hitems := wellFormedItems_iff.mp h
    exact .arr (List.forall₂_same.mpr fun value hvalue ↦ ih value hvalue (hitems value hvalue))
  | obj members ih =>
    obtain ⟨distinct, hmembers⟩ := wellFormed_obj.mp h
    refine .obj distinct rfl (List.forall₂_same.mpr fun value hvalue ↦ ?_) (.refl _)
    obtain ⟨member, hmember, rfl⟩ := List.mem_map.mp hvalue
    exact ih member hmember (hmembers member hmember)

/-- A member has a reordering among the members of the other object. -/
theorem rel_members (distinct : (Entries.keys xs).Nodup) (names : Entries.keys xs = Entries.keys ys)
    (values : List.Forall₂ Reordered (Entries.values xs) (Entries.values ys)) (order : ys.Perm zs)
    (key : String) : Option.Rel Reordered (Entries.get? xs key) (Entries.get? zs key) := by
  rw [← Entries.get?_of_perm (names ▸ distinct) order]
  exact Entries.rel_get? names values key

theorem get? (h : Reordered x y) (key : String) :
    Option.Rel Reordered (x.get? key) (y.get? key) := by
  cases h with
  | leaf single plain =>
    cases x with
    | obj members => cases plain
    | _ => exact .none
  | arr items => exact .none
  | obj distinct names values order => exact rel_members distinct names values order key

theorem wellFormed (h : Reordered x y) : x.WellFormed ∧ y.WellFormed := by
  induction x using Json.induction generalizing y with
  | leaf value single plain =>
    cases h with
    | leaf => exact ⟨wellFormed_leaf single plain, wellFormed_leaf single plain⟩
    | arr => cases single
    | obj => cases plain
  | arr items ih =>
    cases h with
    | leaf single => cases single
    | arr related =>
      simp only [WellFormed, wellFormedItems_iff]
      exact forall_and_of_forall₂ (forall₂_imp_of_mem related fun value hvalue _ ↦ ih value hvalue)
  | obj members ih =>
    cases h with
    | leaf _ plain => cases plain
    | @obj _ ys zs distinct names values order =>
      have hvalues := forall_and_of_forall₂ (forall₂_imp_of_mem values fun value hvalue _ ↦ by
        obtain ⟨member, hmember, rfl⟩ := List.mem_map.mp hvalue
        exact ih member hmember)
      refine ⟨wellFormed_obj.mpr ⟨distinct, fun member hmember ↦ ?_⟩,
        wellFormed_obj.mpr ⟨?_, fun member hmember ↦ ?_⟩⟩
      · exact hvalues.1 _ (List.mem_map_of_mem hmember)
      · exact (order.map Prod.fst).nodup_iff.mp (names ▸ distinct : (Entries.keys ys).Nodup)
      · exact hvalues.2 _ (List.mem_map_of_mem (order.mem_iff.mpr hmember))

end Reordered

/-! ## Equality -/

theorem equal_of_reordered (h : Reordered x y) : x.equal y = true := by
  induction x using Json.induction generalizing y with
  | leaf value single plain =>
    cases h with
    | leaf => exact equal_refl (wellFormed_leaf single plain)
    | arr => cases single
    | obj => cases plain
  | arr items ih =>
    cases h with
    | leaf single => cases single
    | arr related =>
      rw [equal, equalItems_iff]
      exact forall₂_imp_of_mem related fun value hvalue _ ↦ ih value hvalue
  | obj members ih =>
    cases h with
    | leaf _ plain => cases plain
    | @obj _ ys zs distinct names values order =>
      have hlength : members.length = ys.length := by
        simpa [Entries.keys] using congrArg List.length names
      rw [equal, Bool.and_eq_true, beq_iff_eq, equalMembers_iff]
      refine ⟨hlength.trans order.length_eq, fun member hmember ↦ ?_⟩
      have hrel := Reordered.rel_members distinct names values order member.1
      rw [Entries.get?_of_mem distinct hmember] at hrel
      cases hfound : Entries.get? zs member.1 with
      | none =>
        rw [hfound] at hrel
        cases hrel
      | some found =>
        rw [hfound] at hrel
        cases hrel with
        | some hreordered => exact ⟨found, rfl, ih member hmember hreordered⟩

theorem equal_trans (hxy : x.equal y = true) (hyz : y.equal z = true) : x.equal z = true := by
  induction x using Json.induction generalizing y z with
  | leaf value single plain =>
    cases value with
    | arr items => cases single
    | obj members => cases plain
    | float a =>
      cases y with
      | float b =>
        cases z with
        | float c => exact Number.Binary64.equal_trans hxy hyz
        | _ => simp [equal] at hyz
      | _ => simp [equal] at hxy
    | null =>
      cases y with
      | null => exact hyz
      | _ => simp [equal] at hxy
    | bool v =>
      cases y with
      | bool w => exact (beq_iff_eq.mp hxy : v = w) ▸ hyz
      | _ => simp [equal] at hxy
    | int v =>
      cases y with
      | int w => exact (beq_iff_eq.mp hxy : v = w) ▸ hyz
      | _ => simp [equal] at hxy
    | str v =>
      cases y with
      | str w => exact (beq_iff_eq.mp hxy : v = w) ▸ hyz
      | _ => simp [equal] at hxy
  | arr items ih =>
    cases y with
    | arr ys =>
      cases z with
      | arr zs =>
        rw [equal, equalItems_iff] at hxy hyz ⊢
        exact forall₂_trans_of_mem hxy hyz fun value hvalue _ _ ↦ ih value hvalue
      | _ => simp [equal] at hyz
    | _ => simp [equal] at hxy
  | obj members ih =>
    cases y with
    | obj ys =>
      cases z with
      | obj zs =>
        rw [equal, Bool.and_eq_true, beq_iff_eq, equalMembers_iff] at hxy hyz ⊢
        refine ⟨hxy.1.trans hyz.1, fun member hmember ↦ ?_⟩
        obtain ⟨middle, hmiddle, hfirst⟩ := hxy.2 member hmember
        obtain ⟨last, hlast, hsecond⟩ := hyz.2 _ (Entries.mem_of_get? hmiddle)
        exact ⟨last, hlast, ih member hmember hfirst hsecond⟩
      | _ => simp [equal] at hyz
    | _ => simp [equal] at hxy

/-- Equality of values does not see the order of members. -/
theorem equal_congr (hx : Reordered x x') (hy : Reordered y y') : x.equal y = x'.equal y' := by
  have hback : ∀ {v w : Json}, Reordered v w → w.equal v = true := fun h ↦
    equal_symm h.wellFormed.1 h.wellFormed.2 (equal_of_reordered h)
  rw [Bool.eq_iff_iff]
  constructor
  · exact fun h ↦ equal_trans (equal_trans (hback hx) h) (equal_of_reordered hy)
  · exact fun h ↦ equal_trans (equal_trans (equal_of_reordered hx) h) (hback hy)

end Json
end ResourceApi

import Mathlib.Data.List.Forall2
import Mathlib.Data.List.Perm.Subperm
import ResourceApi.Json
import ResourceApi.Proofs.Entries

/-!
# Equality of JSON values

A value is well formed when no object in it names a member twice; these are the values that JSON texts
denote.  On well-formed values equality is reflexive and symmetric: two objects of the same size of which
one has every member of the other have the same members.
-/

namespace ResourceApi.Json

/-- Induction on values, through the items of lists and the values of members. -/
theorem induction {motive : Json → Prop}
    (leaf : ∀ value : Json, value.isArray = false → value.isObject = false → motive value)
    (arr : ∀ items, (∀ value ∈ items, motive value) → motive (.arr items))
    (obj : ∀ members : List (String × Json), (∀ member ∈ members, motive member.2) →
      motive (.obj members)) : ∀ value : Json, motive value
  | .arr items => arr items fun value _ ↦ induction leaf arr obj value
  | .obj members => obj members fun member hmember ↦
      have : sizeOf member.2 < sizeOf members := by
        have hmem := List.sizeOf_lt_of_mem hmember
        have hpair : sizeOf member = 1 + sizeOf member.1 + sizeOf member.2 := rfl
        omega
      induction leaf arr obj member.2
  | .null | .bool _ | .int _ | .float _ | .str _ => leaf _ rfl rfl

/-! ## Well-formed values -/

mutual

/-- No object in the value names a member twice. -/
def WellFormed : Json → Prop
  | .arr items => WellFormedItems items
  | .obj members => (Entries.keys members).Nodup ∧ WellFormedMembers members
  | _ => True

def WellFormedItems : List Json → Prop
  | [] => True
  | value :: rest => WellFormed value ∧ WellFormedItems rest

def WellFormedMembers : List (String × Json) → Prop
  | [] => True
  | (_, value) :: rest => WellFormed value ∧ WellFormedMembers rest

end

@[simp]
theorem wellFormed_str (text : String) : (Json.str text).WellFormed := trivial

theorem wellFormedItems_iff {items : List Json} :
    WellFormedItems items ↔ ∀ value ∈ items, value.WellFormed := by
  induction items with
  | nil => simp [WellFormedItems]
  | cons value rest ih => simp [WellFormedItems, ih]

theorem wellFormedMembers_iff {members : List (String × Json)} :
    WellFormedMembers members ↔ ∀ member ∈ members, member.2.WellFormed := by
  induction members with
  | nil => simp [WellFormedMembers]
  | cons member rest ih => simp [WellFormedMembers, ih]

theorem wellFormed_obj {members : List (String × Json)} :
    (Json.obj members).WellFormed ↔
      (Entries.keys members).Nodup ∧ ∀ member ∈ members, member.2.WellFormed := by
  rw [WellFormed, wellFormedMembers_iff]

theorem WellFormed.put {members : List (String × Json)} {key : String} {value : Json}
    (h : (Json.obj members).WellFormed) (hvalue : value.WellFormed) :
    (Json.obj (Entries.put key value members)).WellFormed := by
  obtain ⟨distinct, hmembers⟩ := wellFormed_obj.mp h
  refine wellFormed_obj.mpr ⟨Entries.nodup_keys_put distinct, ?_⟩
  rintro ⟨other, held⟩ hmem
  rcases (Entries.mem_put distinct).mp hmem with ⟨-, rfl⟩ | ⟨-, hold⟩
  · exact hvalue
  · exact hmembers _ hold

theorem WellFormed.get? {value member : Json} {key : String} (h : value.WellFormed)
    (hget : value.get? key = some member) : member.WellFormed := by
  cases value with
  | obj members => exact (wellFormed_obj.mp h).2 _ (Entries.mem_of_get? hget)
  | _ => cases hget

/-! ## Repeated names -/

mutual

theorem wellFormed_distinct : ∀ value : Json, value.distinct.WellFormed
  | .null | .bool _ | .int _ | .float _ | .str _ => trivial
  | .arr items => by
      rw [distinct, WellFormed, wellFormedItems_iff]
      exact wellFormed_distinctItems items
  | .obj members => by
      obtain ⟨hnames, hmem⟩ := Entries.ofList_spec (distinctMembers members)
      rw [distinct, wellFormed_obj]
      exact ⟨hnames, fun member h ↦ wellFormed_distinctMembers members member (hmem member h)⟩

theorem wellFormed_distinctItems : ∀ items : List Json, ∀ value ∈ distinctItems items, value.WellFormed
  | [], _, h => nomatch h
  | first :: rest, value, h => by
      rcases List.mem_cons.mp h with rfl | hrest
      · exact wellFormed_distinct first
      · exact wellFormed_distinctItems rest value hrest

theorem wellFormed_distinctMembers : ∀ members : List (String × Json),
    ∀ member ∈ distinctMembers members, member.2.WellFormed
  | [], _, h => nomatch h
  | (_, first) :: rest, member, h => by
      rcases List.mem_cons.mp h with rfl | hrest
      · exact wellFormed_distinct first
      · exact wellFormed_distinctMembers rest member hrest

end

mutual

/-- Where no name is repeated there is nothing to drop. -/
theorem distinct_of_wellFormed : ∀ {value : Json}, value.WellFormed → value.distinct = value
  | .null, _ | .bool _, _ | .int _, _ | .float _, _ | .str _, _ => rfl
  | .arr items, h => by
      rw [distinct, distinctItems_of_wellFormed (wellFormedItems_iff.mp h)]
  | .obj members, h => by
      obtain ⟨hnames, hmembers⟩ := wellFormed_obj.mp h
      rw [distinct, distinctMembers_of_wellFormed hmembers, Entries.ofList_of_nodup hnames]

theorem distinctItems_of_wellFormed : ∀ {items : List Json}, (∀ value ∈ items, value.WellFormed) →
    distinctItems items = items
  | [], _ => rfl
  | _ :: _, h => by
      rw [distinctItems, distinct_of_wellFormed (h _ List.mem_cons_self),
        distinctItems_of_wellFormed fun value hvalue ↦ h value (List.mem_cons_of_mem _ hvalue)]

theorem distinctMembers_of_wellFormed : ∀ {members : List (String × Json)},
    (∀ member ∈ members, member.2.WellFormed) → distinctMembers members = members
  | [], _ => rfl
  | (_, _) :: _, h => by
      rw [distinctMembers, distinct_of_wellFormed (h _ List.mem_cons_self),
        distinctMembers_of_wellFormed fun member hmember ↦ h member (List.mem_cons_of_mem _ hmember)]

end

/-! ## Reflexivity -/

theorem equalItems_iff {xs ys : List Json} :
    equalItems xs ys = true ↔ List.Forall₂ (fun x y ↦ x.equal y = true) xs ys := by
  induction xs generalizing ys with
  | nil => cases ys <;> simp [equalItems]
  | cons x rest ih =>
    cases ys with
    | nil => simp [equalItems]
    | cons y more => simp [equalItems, ih]

theorem equalMembers_iff {xs ys : List (String × Json)} :
    equalMembers xs ys = true ↔
      ∀ member ∈ xs, ∃ y, Entries.get? ys member.1 = some y ∧ member.2.equal y = true := by
  induction xs with
  | nil => simp [equalMembers]
  | cons member rest ih =>
    obtain ⟨key, x⟩ := member
    rw [equalMembers, Bool.and_eq_true, ih, List.forall_mem_cons]
    refine and_congr_left fun _ ↦ ?_
    change _ ↔ ∃ y, ys.lookup key = some y ∧ _
    cases ys.lookup key <;> simp

mutual

theorem equal_refl : ∀ {x : Json}, x.WellFormed → x.equal x = true
  | .null, _ => rfl
  | .bool _, _ | .int _, _ | .str _, _ => by
      rw [equal, beq_iff_eq]
  | .float _, _ => by
      simp [equal, Number.Binary64.equal]
  | .arr _, h => by
      rw [equal]
      exact equalItems_refl (wellFormedItems_iff.mp h)
  | .obj members, h => by
      obtain ⟨distinct, hmembers⟩ := wellFormed_obj.mp h
      rw [equal, Bool.and_eq_true, equalMembers_iff]
      exact ⟨beq_self_eq_true _, fun member hmember ↦ ⟨member.2, Entries.get?_of_mem distinct hmember,
        equalMembers_refl members hmembers member hmember⟩⟩

theorem equalItems_refl : ∀ {xs : List Json}, (∀ x ∈ xs, x.WellFormed) → equalItems xs xs = true
  | [], _ => rfl
  | _ :: _, h => by
      rw [equalItems, Bool.and_eq_true]
      exact ⟨equal_refl (h _ List.mem_cons_self),
        equalItems_refl fun x hx ↦ h x (List.mem_cons_of_mem _ hx)⟩

theorem equalMembers_refl : ∀ (xs : List (String × Json)), (∀ member ∈ xs, member.2.WellFormed) →
    ∀ member ∈ xs, member.2.equal member.2 = true
  | (_, _) :: rest, hxs, member, hmem => by
      rcases List.mem_cons.mp hmem with rfl | hrest
      · exact equal_refl (hxs _ List.mem_cons_self)
      · exact equalMembers_refl rest (fun m hm ↦ hxs m (List.mem_cons_of_mem _ hm)) member hrest

end

/-! ## Symmetry -/

/-- A list of distinct names that are all among as many others has all of these. -/
theorem keys_subset_of_length {xs ys : List (String × Json)} (hxs : (Entries.keys xs).Nodup)
    (hlength : xs.length = ys.length) (hsub : Entries.keys xs ⊆ Entries.keys ys) :
    Entries.keys ys ⊆ Entries.keys xs := by
  have hle : (Entries.keys ys).length ≤ (Entries.keys xs).length := by
    simp [Entries.keys, hlength]
  exact ((hxs.subperm hsub).perm_of_length_le hle).symm.subset

mutual

theorem equal_symm : ∀ {x y : Json}, x.WellFormed → y.WellFormed → x.equal y = true →
    y.equal x = true
  | .null, .null, _, _, _ => rfl
  | .bool _, .bool _, _, _, h => by
      rw [equal, beq_iff_eq] at h ⊢
      exact h.symm
  | .int _, .int _, _, _, h => by
      rw [equal, beq_iff_eq] at h ⊢
      exact h.symm
  | .float x, .float y, _, _, h => by
      simp only [equal, Number.Binary64.equal, Bool.or_eq_true, Bool.and_eq_true, beq_iff_eq] at h ⊢
      exact h.imp And.symm Eq.symm
  | .str _, .str _, _, _, h => by
      rw [equal, beq_iff_eq] at h ⊢
      exact h.symm
  | .arr xs, .arr ys, hx, hy, h => by
      rw [equal] at h ⊢
      exact equalItems_symm (wellFormedItems_iff.mp hx) (wellFormedItems_iff.mp hy) h
  | .obj xs, .obj ys, hx, hy, h => by
      obtain ⟨hxkeys, hxmembers⟩ := wellFormed_obj.mp hx
      obtain ⟨hykeys, hymembers⟩ := wellFormed_obj.mp hy
      rw [equal, Bool.and_eq_true, beq_iff_eq, equalMembers_iff] at h ⊢
      obtain ⟨hlength, hsub⟩ := h
      have hkeys : Entries.keys xs ⊆ Entries.keys ys := by
        intro key hkey
        obtain ⟨member, hmem, rfl⟩ := List.mem_map.mp hkey
        obtain ⟨y, hy, -⟩ := hsub member hmem
        exact Entries.mem_keys_of_mem (Entries.mem_of_get? hy)
      refine ⟨hlength.symm, ?_⟩
      rintro ⟨key, y⟩ hmem
      have hback := keys_subset_of_length hxkeys hlength hkeys (Entries.mem_keys_of_mem hmem)
      obtain ⟨⟨_, x⟩, hxmem, rfl⟩ := List.mem_map.mp hback
      obtain ⟨y', hy', hequal⟩ := hsub _ hxmem
      rw [Entries.get?_of_mem hykeys hmem] at hy'
      obtain rfl : y = y' := Option.some.inj hy'
      exact ⟨x, Entries.get?_of_mem hxkeys hxmem,
        equalMembers_symm xs hxmembers _ hxmem (hymembers _ hmem) hequal⟩

theorem equalItems_symm : ∀ {xs ys : List Json}, (∀ x ∈ xs, x.WellFormed) →
    (∀ y ∈ ys, y.WellFormed) → equalItems xs ys = true → equalItems ys xs = true
  | [], [], _, _, _ => rfl
  | _ :: _, _ :: _, hxs, hys, h => by
      rw [equalItems, Bool.and_eq_true] at h ⊢
      exact ⟨equal_symm (hxs _ List.mem_cons_self) (hys _ List.mem_cons_self) h.1,
        equalItems_symm (fun x hx ↦ hxs x (List.mem_cons_of_mem _ hx))
          (fun y hy ↦ hys y (List.mem_cons_of_mem _ hy)) h.2⟩

/-- The members of an object are smaller than the object, so symmetry may be used of them. -/
theorem equalMembers_symm : ∀ (xs : List (String × Json)), (∀ member ∈ xs, member.2.WellFormed) →
    ∀ member ∈ xs, ∀ {y : Json}, y.WellFormed → member.2.equal y = true →
      y.equal member.2 = true
  | (_, x) :: rest, hxs, member, hmem, y, hy, h => by
      rcases List.mem_cons.mp hmem with rfl | hrest
      · exact equal_symm (hxs _ List.mem_cons_self) hy h
      · exact equalMembers_symm rest (fun m hm ↦ hxs m (List.mem_cons_of_mem _ hm)) member hrest
          hy h

end

end ResourceApi.Json

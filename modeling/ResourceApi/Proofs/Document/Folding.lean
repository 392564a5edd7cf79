import ResourceApi.Proofs.Document.Merge

/-!
# Folded definitions

All definitions and extensions of a name are folded into the first of them.  What it brings itself is kept
as it is; of what the others bring, the first of each name is kept that is not there yet.  So nothing is
repeated unless the first definition repeats it, which is how a type gets two fields of one name.
-/

namespace ResourceApi

/-! ## First occurrences -/

section Firsts

variable {α : Type} (key : α → String)

/-- The elements whose keys do not occur before, in order. -/
def firstsBy (all : List α) : List α := all.eraseDupsBy (key · == key ·)

/-- The elements whose keys do not occur among the present ones. -/
def absentBy (present more : List α) : List α :=
  more.filter fun x ↦ !present.any (key · == key x)

/-- Appends elements one after another, unless their keys are there already. -/
def appendNew (present more : List α) : List α :=
  more.foldl (fun all x ↦ if all.any (key · == key x) then all else all ++ [x]) present

theorem firstsBy_cons (x : α) (rest : List α) :
    firstsBy key (x :: rest) = x :: firstsBy key (rest.filter fun y ↦ !(key x == key y)) := by
  unfold firstsBy
  rw [List.eraseDupsBy_cons]
  congr 2
  refine List.filter_congr fun y _ ↦ ?_
  by_cases hkey : key x = key y
  · simp [hkey]
  · simp [hkey, Ne.symm hkey]

theorem appendNew_append (present more last : List α) :
    appendNew key present (more ++ last) = appendNew key (appendNew key present more) last :=
  List.foldl_append

/-- What is appended is what is new, each key once. -/
theorem appendNew_eq (present more : List α) :
    appendNew key present more = present ++ firstsBy key (absentBy key present more) := by
  induction more generalizing present with
  | nil => exact (List.append_nil _).symm
  | cons x rest ih =>
    unfold appendNew absentBy at ih ⊢
    rw [List.foldl_cons, List.filter_cons]
    by_cases hpresent : present.any (key · == key x) = true
    · simp only [hpresent, if_true, Bool.not_true, Bool.false_eq_true, if_false]
      exact ih present
    · simp only [hpresent, Bool.false_eq_true, if_false, Bool.not_false, if_true]
      rw [ih, firstsBy_cons, List.append_assoc, List.filter_filter]
      simp [Bool.and_comm]

theorem firstsBy_eq (all : List α) : firstsBy key all = appendNew key [] all := by
  rw [appendNew_eq, List.nil_append]
  unfold absentBy
  simp

theorem any_appendNew (present more : List α) (name : String) :
    (appendNew key present more).any (key · == name) =
      (present ++ more).any (key · == name) := by
  induction more generalizing present with
  | nil => simp [appendNew]
  | cons x rest ih =>
    rw [← List.singleton_append, appendNew_append, ih, ← List.append_assoc, List.any_append,
      List.any_append]
    congr 1
    unfold appendNew
    rw [List.foldl_cons, List.foldl_nil]
    split
    · rename_i hpresent
      by_cases hname : key x = name <;> simp_all
    · rfl

/-- What is kept of a list after another one is what the first does not have. -/
theorem firstsBy_append (front back : List α) :
    firstsBy key (front ++ back) = firstsBy key front ++ firstsBy key (absentBy key front back) := by
  rw [firstsBy_eq, appendNew_append, ← firstsBy_eq, appendNew_eq]
  congr 2
  unfold absentBy
  simp only [firstsBy_eq, any_appendNew, List.nil_append]

theorem nodup_appendNew {present : List α} (distinct : (present.map key).Nodup) (more : List α) :
    ((appendNew key present more).map key).Nodup := by
  unfold appendNew
  induction more generalizing present with
  | nil => exact distinct
  | cons x rest ih =>
    rw [List.foldl_cons]
    apply ih
    split
    · exact distinct
    · rename_i hfresh
      have habsent : key x ∉ present.map key := by
        intro hmem
        obtain ⟨y, hy, hkey⟩ := List.mem_map.mp hmem
        exact hfresh (List.any_eq_true.mpr ⟨y, hy, beq_iff_eq.mpr hkey⟩)
      simpa using List.Nodup.concat habsent distinct

theorem nodup_firstsBy (all : List α) : ((firstsBy key all).map key).Nodup := by
  have hnil : (([] : List α).map key).Nodup := List.nodup_nil
  rw [firstsBy_eq]
  exact nodup_appendNew key hnil all

theorem firstsBy_eq_self_iff (all : List α) : firstsBy key all = all ↔ (all.map key).Nodup := by
  constructor
  · intro h
    rw [← h]
    exact nodup_firstsBy key all
  · intro distinct
    induction all with
    | nil => rfl
    | cons x rest ih =>
      obtain ⟨hfresh, hrest⟩ := List.nodup_cons.mp distinct
      have hkept : rest.filter (fun y ↦ !(key x == key y)) = rest :=
        List.filter_eq_self.mpr fun y hy ↦ by
          simpa using fun hkey ↦ hfresh (List.mem_map.mpr ⟨y, hy, hkey.symm⟩)
      rw [firstsBy_cons, hkept, ih hrest]

/-- A list that others are folded into.  Its own elements stay as they are, and the later ones are kept
whose keys are new; so these are the first elements of all keys exactly if the own elements have keys
apart, and only then no key is repeated. -/
structure Folds (own later kept : List α) : Prop where
  appended : kept = own ++ firstsBy key (absentBy key own later)
  firsts : kept = firstsBy key (own ++ later) ↔ (own.map key).Nodup
  distinct : (kept.map key).Nodup ↔ (own.map key).Nodup

theorem folds_appendNew (own later : List α) : Folds key own later (appendNew key own later) where
  appended := appendNew_eq key own later
  firsts := by
    rw [appendNew_eq, firstsBy_append, List.append_left_inj, ← firstsBy_eq_self_iff, eq_comm]
  distinct := by
    refine ⟨fun h ↦ ?_, fun h ↦ nodup_appendNew key h later⟩
    rw [appendNew_eq, List.map_append] at h
    exact h.of_append_left

end Firsts

namespace TypeDocument

variable {document : TypeDocument} {merged : List Definition} {definition : Definition}

theorem addMissing_eq (present more : List String) :
    addMissing present more = appendNew id present more := by
  unfold addMissing appendNew
  congr 1
  funext all text
  have hsame : all.contains text = all.any (id · == id text) := by
    rw [Bool.eq_iff_iff, List.contains_iff_mem, List.any_eq_true]
    simp
  rw [hsame]

/-! ## Merging again -/

/-- Folding a definition into others of other names appends it. -/
theorem foldInto_of_not_mem (h : definition.name ∉ merged.map (·.name)) :
    foldInto definition merged = merged ++ [{ definition with extending := false }] := by
  induction merged with
  | nil => rfl
  | cons first rest ih =>
    rw [List.map_cons, List.mem_cons, not_or] at h
    unfold TypeDocument.foldInto
    rw [if_neg (by simpa using Ne.symm h.1), ih h.2]
    rfl

/-- Definitions of different names are merged as they are. -/
theorem merge_of_nodup (distinct : (merged.map (·.name)).Nodup)
    (defined : ∀ held ∈ merged, held.extending = false) : merge merged = merged := by
  unfold merge
  induction merged using List.reverseRecOn with
  | nil => rfl
  | append_singleton front last ih =>
    rw [List.map_append] at distinct
    obtain ⟨hfront, -, hdisjoint⟩ := List.nodup_append.mp distinct
    have hlast : last.name ∉ front.map (·.name) := fun hmem ↦
      hdisjoint _ hmem _ (List.mem_singleton_self _) rfl
    rw [List.foldl_append, ih hfront fun held hheld ↦ defined held (List.mem_append_left _ hheld),
      List.foldl_cons, List.foldl_nil, foldInto_of_not_mem hlast]
    rw [← defined last (List.mem_append_right _ (List.mem_singleton_self _))]

/-- Merging leaves one definition of each name, in order of first occurrence and none of them an extension,
and merging again changes nothing.  The fields, members and values of a definition are those of the first
part of its name, followed by those of the later parts that are new; so no field is repeated, and all but
the first field of each name are dropped, exactly if the first part repeats none. -/
theorem merge_folds (document : TypeDocument) :
    document.merge.map (·.name) = (document.map (·.name)).eraseDups ∧
    merge document.merge = document.merge ∧
    ∀ held ∈ document.merge, held.extending = false ∧
      ∃ first rest, document.allNamed held.name = first :: rest ∧
        Folds (·.name) first.fields (rest.flatMap (·.fields)) held.fields ∧
        Folds id first.members (rest.flatMap (·.members)) held.members ∧
        Folds id first.values (rest.flatMap (·.values)) held.values := by
  have hfolded := foldedOf_merge document
  have hdefined : ∀ held ∈ document.merge, held.extending = false := by
    intro held hheld
    obtain ⟨first, rest, -, rfl⟩ := exists_parts hheld
    exact (foldl_fold _ rest).1
  refine ⟨hfolded.names, merge_of_nodup hfolded.distinct hdefined, fun held hheld ↦ ?_⟩
  obtain ⟨first, rest, hparts, hfold⟩ := exists_parts hheld
  obtain ⟨-, hfields, hmembers, hvalues⟩ := foldl_fold { first with extending := false } rest
  rw [addMissing_eq] at hmembers hvalues
  refine ⟨hdefined held hheld, first, rest, hparts, ?_⟩
  rw [hfold, hfields, hmembers, hvalues]
  exact ⟨folds_appendNew _ _ _, folds_appendNew _ _ _, folds_appendNew _ _ _⟩

/-- The creation and the update of users are renamed alike: the root extension that the resource brings has
two fields of one name, and the merged root has both. -/
theorem merge_folds_renamed :
    let names : OperationNames := ⟨"User", "Users", [("createUser", "save"), ("updateUser", "save")]⟩
    let signatures := [names.signature (.mutation .create .single),
      names.signature (.mutation .update .single)]
    let document : TypeDocument := rootExtension "User" .mutation signatures
    ∃ held ∈ document.merge,
      held.fields ≠ firstsBy (·.name) ((document.allNamed held.name).flatMap (·.fields)) ∧
      ¬(held.fields.map (·.name)).Nodup := by
  decide +kernel

end TypeDocument

end ResourceApi

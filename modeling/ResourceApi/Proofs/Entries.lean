import Mathlib.Data.List.Nodup
import ResourceApi.Entries

/-!
# Ordered maps without repeated names

As long as no name occurs twice, looking a name up and finding its entry in the list are the same.
`put` keeps the names it finds, in their places, and adds a new name at the end; `erase` removes one
name and keeps the order of the others.  Both keep the names distinct.
-/

namespace ResourceApi.Entries

variable {α : Type} {entries : Entries α} {key other : String} {value held : α}

/-! ## Names and look-up -/

@[simp]
theorem keys_nil : keys ([] : Entries α) = [] := rfl

@[simp]
theorem keys_cons (entry : String × α) (rest : Entries α) :
    keys (entry :: rest) = entry.1 :: keys rest := rfl

@[simp]
theorem keys_append (front back : Entries α) : keys (front ++ back) = keys front ++ keys back := by
  simp [keys]

theorem mem_keys_of_mem (h : (key, value) ∈ entries) : key ∈ entries.keys :=
  List.mem_map_of_mem h

/-- If the values tell the keys that they stand under, the keys are read off the values. -/
theorem map_values_eq_keys {keyOf : α → String} (told : ∀ entry ∈ entries, entry.1 = keyOf entry.2) :
    entries.values.map keyOf = entries.keys := by
  unfold values keys
  rw [List.map_map]
  exact List.map_congr_left fun entry hentry ↦ (told entry hentry).symm

theorem get?_eq_none_iff : entries.get? key = none ↔ key ∉ entries.keys := by
  induction entries with
  | nil => simp
  | cons entry rest ih =>
    obtain ⟨k, v⟩ := entry
    rw [get?_cons]
    by_cases h : key = k <;> simp [h, ih]

theorem has_iff : entries.has key = true ↔ key ∈ entries.keys := by
  rw [has, Option.isSome_iff_ne_none, Ne, get?_eq_none_iff, not_not]

theorem mem_of_get? (h : entries.get? key = some value) : (key, value) ∈ entries := by
  induction entries with
  | nil => simp at h
  | cons entry rest ih =>
    obtain ⟨k, v⟩ := entry
    rw [get?_cons] at h
    by_cases hk : key = k
    · simp_all
    · simp only [beq_iff_eq, hk, if_false] at h
      exact List.mem_cons_of_mem _ (ih h)

theorem get?_of_mem (distinct : entries.keys.Nodup) (h : (key, value) ∈ entries) :
    entries.get? key = some value := by
  induction entries with
  | nil => simp at h
  | cons entry rest ih =>
    obtain ⟨k, v⟩ := entry
    obtain ⟨hk, hrest⟩ := List.nodup_cons.mp distinct
    rw [get?_cons]
    rcases List.mem_cons.mp h with heq | hmem
    · simp_all
    · have hne : key ≠ k := fun heq ↦ hk (heq ▸ mem_keys_of_mem hmem)
      simpa [hne] using ih hrest hmem

theorem get?_eq_some_iff (distinct : entries.keys.Nodup) :
    entries.get? key = some value ↔ (key, value) ∈ entries :=
  ⟨mem_of_get?, get?_of_mem distinct⟩

theorem get?_append (front back : Entries α) (key : String) :
    get? (front ++ back) key = (get? front key).or (get? back key) := by
  induction front with
  | nil => rfl
  | cons entry rest ih =>
    obtain ⟨k, v⟩ := entry
    rw [List.cons_append, get?_cons, get?_cons, ih]
    by_cases h : key = k <;> simp [h]

/-! ## Writing -/

theorem put_of_mem (h : key ∈ entries.keys) : (put key value entries).keys = entries.keys := by
  induction entries with
  | nil => simp at h
  | cons entry rest ih =>
    obtain ⟨k, v⟩ := entry
    by_cases hk : k = key
    · simp [put, hk]
    · have hrest : key ∈ keys rest := by simpa [Ne.symm hk] using h
      simp [put, hk, ih hrest]

theorem put_of_not_mem (h : key ∉ entries.keys) :
    put key value entries = entries ++ [(key, value)] := by
  induction entries with
  | nil => rfl
  | cons entry rest ih =>
    obtain ⟨k, v⟩ := entry
    simp only [keys_cons, List.mem_cons, not_or] at h
    simp [put, Ne.symm h.1, ih h.2]

/-- Of two values that are written under one name the later one stays. -/
theorem put_put (key : String) (first second : α) (entries : Entries α) :
    put key second (put key first entries) = put key second entries := by
  induction entries with
  | nil => simp [put]
  | cons entry rest ih =>
    obtain ⟨k, v⟩ := entry
    by_cases hk : k = key
    · simp [put, hk]
    · simp [put, hk, ih]

theorem mem_keys_put : other ∈ (put key value entries).keys ↔ other = key ∨ other ∈ entries.keys := by
  by_cases h : key ∈ entries.keys
  · rw [put_of_mem h]
    exact (or_iff_right_of_imp fun heq ↦ heq ▸ h).symm
  · rw [put_of_not_mem h, keys_append]
    simp [or_comm]

theorem nodup_keys_put (distinct : entries.keys.Nodup) :
    (put key value entries).keys.Nodup := by
  by_cases h : key ∈ entries.keys
  · rwa [put_of_mem h]
  · rw [put_of_not_mem h, keys_append]
    simpa using List.Nodup.concat h distinct

theorem mem_put (distinct : entries.keys.Nodup) :
    (other, held) ∈ put key value entries ↔
      other = key ∧ held = value ∨ other ≠ key ∧ (other, held) ∈ entries := by
  rw [← get?_eq_some_iff (nodup_keys_put distinct)]
  by_cases h : other = key
  · subst h
    simp [get?_put_self, eq_comm]
  · rw [get?_put_of_ne _ _ h, get?_eq_some_iff distinct]
    simp [h]

/-- Pairs with names of their own are kept as they are. -/
theorem foldl_put_of_nodup {pairs : List (String × α)} {entries : Entries α}
    (distinct : (keys (entries ++ pairs)).Nodup) :
    pairs.foldl (fun entries pair ↦ put pair.1 pair.2 entries) entries = entries ++ pairs := by
  induction pairs generalizing entries with
  | nil => exact (List.append_nil entries).symm
  | cons pair rest ih =>
    have hsplit : entries ++ pair :: rest = (entries ++ [pair]) ++ rest := by simp
    rw [hsplit, keys_append] at distinct
    have hnew : pair.1 ∉ entries.keys := by
      have hfront := (List.nodup_append.mp distinct).1
      rw [keys_append] at hfront
      exact fun hmem ↦ (List.nodup_append.mp hfront).2.2 _ hmem _ List.mem_cons_self rfl
    rw [List.foldl_cons, put_of_not_mem hnew, ih (by rwa [keys_append]), hsplit]

theorem ofList_of_nodup {pairs : List (String × α)} (distinct : (keys pairs).Nodup) :
    ofList pairs = pairs := by
  have hfold := foldl_put_of_nodup (show (keys ([] ++ pairs)).Nodup from distinct)
  rwa [List.nil_append] at hfold

/-- What is put together from pairs repeats no name, and its entries are among the pairs. -/
theorem ofList_spec (pairs : List (String × α)) :
    (ofList pairs).keys.Nodup ∧ ∀ entry ∈ ofList pairs, entry ∈ pairs := by
  have hfold : ∀ entries : Entries α, entries.keys.Nodup →
      (pairs.foldl (fun entries pair ↦ put pair.1 pair.2 entries) entries).keys.Nodup ∧
        ∀ entry ∈ pairs.foldl (fun entries pair ↦ put pair.1 pair.2 entries) entries,
          entry ∈ entries ∨ entry ∈ pairs := by
    induction pairs with
    | nil => exact fun entries hdistinct ↦ ⟨hdistinct, fun _ h ↦ .inl h⟩
    | cons pair rest ih =>
      intro entries hdistinct
      obtain ⟨hnodup, hmem⟩ := ih (put pair.1 pair.2 entries) (nodup_keys_put hdistinct)
      refine ⟨hnodup, fun entry hentry ↦ ?_⟩
      rcases hmem entry hentry with hput | hrest
      · rcases (mem_put hdistinct).mp hput with ⟨hkey, hvalue⟩ | ⟨-, hold⟩
        · exact .inr (List.mem_cons.mpr (.inl (Prod.ext hkey hvalue)))
        · exact .inl hold
      · exact .inr (List.mem_cons_of_mem _ hrest)
  obtain ⟨hnodup, hmem⟩ := hfold [] List.nodup_nil
  exact ⟨hnodup, fun entry hentry ↦ (hmem entry hentry).resolve_left List.not_mem_nil⟩

/-! ## Removing -/

theorem erase_sublist : (erase key entries).Sublist entries := by
  induction entries with
  | nil => exact List.Sublist.slnil
  | cons entry rest ih =>
    obtain ⟨k, v⟩ := entry
    by_cases hk : k = key
    · simp [erase, hk]
    · simpa [erase, hk] using ih.cons_cons (k, v)

theorem nodup_keys_erase (distinct : entries.keys.Nodup) : (erase key entries).keys.Nodup :=
  (erase_sublist.map Prod.fst).nodup distinct

theorem get?_erase_of_ne (h : other ≠ key) (entries : Entries α) :
    get? (erase key entries) other = get? entries other := by
  induction entries with
  | nil => rfl
  | cons entry rest ih =>
    obtain ⟨k, v⟩ := entry
    by_cases hk : k = key
    · simp [erase, get?_cons, hk, h]
    · simp [erase, get?_cons, hk, ih]

theorem get?_erase_self (distinct : entries.keys.Nodup) :
    get? (erase key entries) key = none := by
  rw [get?_eq_none_iff]
  induction entries with
  | nil => simp [erase]
  | cons entry rest ih =>
    obtain ⟨k, v⟩ := entry
    obtain ⟨hk, hrest⟩ := List.nodup_cons.mp distinct
    by_cases heq : k = key
    · subst heq
      rwa [erase, if_pos (beq_self_eq_true k)]
    · simpa [erase, heq, Ne.symm heq] using ih hrest

/-! ## Places -/

/-- What is found under a name is the first entry of the name. -/
theorem exists_split (h : entries.get? key = some value) :
    ∃ front back, entries = front ++ (key, value) :: back ∧ key ∉ keys front := by
  induction entries with
  | nil => cases h
  | cons entry rest ih =>
    obtain ⟨k, v⟩ := entry
    rw [get?_cons] at h
    by_cases hk : key = k
    · subst hk
      rw [if_pos (beq_self_eq_true key)] at h
      cases h
      exact ⟨[], rest, rfl, List.not_mem_nil⟩
    · rw [if_neg (by simpa using hk)] at h
      obtain ⟨front, back, rfl, hfront⟩ := ih h
      exact ⟨(k, v) :: front, back, rfl, List.not_mem_cons_of_ne_of_not_mem hk hfront⟩

theorem put_append_cons {front : Entries α} (h : key ∉ front.keys) (back : Entries α) :
    put key value (front ++ (key, held) :: back) = front ++ (key, value) :: back := by
  induction front with
  | nil => simp [put]
  | cons entry rest ih =>
    obtain ⟨k, v⟩ := entry
    simp only [keys_cons, List.mem_cons, not_or] at h
    simp [put, Ne.symm h.1, ih h.2]

theorem erase_append_cons {front : Entries α} (h : key ∉ front.keys) (back : Entries α) :
    erase key (front ++ (key, held) :: back) = front ++ back := by
  induction front with
  | nil => simp [erase]
  | cons entry rest ih =>
    obtain ⟨k, v⟩ := entry
    simp only [keys_cons, List.mem_cons, not_or] at h
    simp [erase, Ne.symm h.1, ih h.2]

/-! ## Adjusting and filtering -/

@[simp]
theorem keys_adjust (key : String) (f : α → α) (entries : Entries α) :
    (adjust key f entries).keys = entries.keys := by
  induction entries with
  | nil => rfl
  | cons entry rest ih =>
    obtain ⟨k, v⟩ := entry
    by_cases hk : k = key <;> simp [adjust, hk, ih]

theorem get?_adjust (key other : String) (f : α → α) (entries : Entries α) :
    get? (adjust key f entries) other =
      if other = key then (get? entries other).map f else get? entries other := by
  induction entries with
  | nil => simp [adjust]
  | cons entry rest ih =>
    obtain ⟨k, v⟩ := entry
    by_cases hk : k = key
    · subst hk
      by_cases hother : other = k <;> simp [adjust, get?_cons, hother]
    · by_cases hother : other = k
      · subst hother
        simp [adjust, get?_cons, hk]
      · simp [adjust, get?_cons, hk, hother, ih]

/-- Changing the values changes what is looked up. -/
theorem get?_map {β : Type} (f : α → β) (entries : Entries α) (key : String) :
    get? (entries.map fun entry ↦ (entry.1, f entry.2)) key = (entries.get? key).map f := by
  induction entries with
  | nil => rfl
  | cons entry rest ih =>
    obtain ⟨k, v⟩ := entry
    rw [List.map_cons, get?_cons, get?_cons, ih]
    split <;> rfl

/-- Filtering the entries by their values filters what is looked up. -/
theorem get?_filter (distinct : entries.keys.Nodup) (p : α → Bool) (key : String) :
    get? (entries.filter fun entry ↦ p entry.2) key = (entries.get? key).filter p := by
  induction entries with
  | nil => rfl
  | cons entry rest ih =>
    obtain ⟨k, v⟩ := entry
    obtain ⟨hk, hrest⟩ := List.nodup_cons.mp distinct
    rw [List.filter_cons, get?_cons]
    by_cases hkey : key = k
    · subst hkey
      have hnone : get? (rest.filter fun entry ↦ p entry.2) key = none := by
        rw [ih hrest, get?_eq_none_iff.mpr hk]
        rfl
      by_cases hv : p v = true
      · simp [hv, get?_cons, Option.filter]
      · simp [hv, hnone, Option.filter]
    · have hother : get? (rest.filter fun entry ↦ p entry.2) key = (get? rest key).filter p := ih hrest
      by_cases hv : p v = true <;> simp [hv, get?_cons, hkey, hother]

/-- Filtering the entries by their names hides the other names. -/
theorem get?_filter_keys (p : String → Bool) (entries : Entries α) (key : String) :
    get? (entries.filter fun entry ↦ p entry.1) key = if p key then get? entries key else none := by
  induction entries with
  | nil => simp
  | cons entry rest ih =>
    obtain ⟨k, v⟩ := entry
    rw [List.filter_cons]
    by_cases hkey : key = k
    · subst hkey
      cases hp : p key <;> simp [get?_cons, ih, hp]
    · have hne : (key == k) = false := beq_false_of_ne hkey
      cases hp : p k <;> simp [get?_cons, ih, hne]

end ResourceApi.Entries

import ResourceApi.Options.Cascade
import ResourceApi.Proofs.Entries
import ResourceApi.Proofs.Path

/-!
# The deepest override wins

Overrides are applied in turn, and each replaces what the ones before it wrote within its path, so the
last one that a path lies within says what is found there.  Shallow overrides come first, and the paths
that a path lies within grow longer as they grow deeper.  So the last one is the longest, in whatever
order the document names its options.
-/

namespace ResourceApi.Options

variable {base : Flat} {overrides : List (String × Json)} {fragment value : Json}
  {path target : String}

/-! ## Flat documents -/

mutual

theorem nodup_flattenInto {flat : Flat} (distinct : flat.keys.Nodup) (path : String) :
    ∀ value, (flattenInto path flat value).keys.Nodup
  | .obj members => nodup_flattenMembers distinct path members
  | .null | .bool _ | .int _ | .float _ | .str _ | .arr _ => Entries.nodup_keys_put distinct

theorem nodup_flattenMembers {flat : Flat} (distinct : flat.keys.Nodup) (path : String) :
    ∀ members, (flattenMembers path flat members).keys.Nodup
  | [] => distinct
  | (key, value) :: rest =>
    nodup_flattenMembers (nodup_flattenInto distinct (childPath path key) value) path rest

end

theorem nodup_flatten (value : Json) : (flatten value).keys.Nodup :=
  have hempty : Entries.keys ([] : Flat) = [] := rfl
  nodup_flattenInto (hempty ▸ List.nodup_nil) "" value

/-- The entry of a flat document that decides about a path: the longest of those that the path lies
within. -/
structure Decides (flat : Flat) (target path : String) (value : Json) : Prop where
  entry : flat.get? path = some value
  within : Path.isWithin path target = true
  longest : ∀ other ∈ flat.keys, Path.isWithin other target = true → other.length ≤ path.length

/-- Only one value decides about a path. -/
theorem Decides.unique {flat : Flat} {path' : String} {value' : Json}
    (h : Decides flat target path value) (h' : Decides flat target path' value') : value = value' := by
  have hkey : path ∈ flat.keys := Entries.mem_keys_of_mem (Entries.mem_of_get? h.entry)
  have hkey' : path' ∈ flat.keys := Entries.mem_keys_of_mem (Entries.mem_of_get? h'.entry)
  have hlength : path.length = path'.length :=
    Nat.le_antisymm (h'.longest path hkey h.within) (h.longest path' hkey' h'.within)
  obtain rfl := Path.eq_of_isWithin h.within h'.within hlength
  exact Option.some.inj (h.entry.symm.trans h'.entry)

theorem mem_keys_congr {flat flat' : Flat} (h : flat.get? path = flat'.get? path) :
    path ∈ flat.keys ↔ path ∈ flat'.keys := by
  rw [← Entries.has_iff, ← Entries.has_iff, Entries.has, Entries.has, h]

/-- What decides in one document decides in every other that agrees with it on the paths that the target
lies within. -/
theorem Decides.congr {flat flat' : Flat} (h : Decides flat target path value)
    (agree : ∀ other, Path.isWithin other target = true → flat.get? other = flat'.get? other) :
    Decides flat' target path value where
  entry := (agree path h.within).symm.trans h.entry
  within := h.within
  longest other hother hwithin := h.longest other ((mem_keys_congr (agree other hwithin)).mpr hother) hwithin

/-! ## One override -/

/-- The base has a value at the path or below it. -/
def Concerns (base : Flat) (path : String) : Prop :=
  ∃ target ∈ base.keys, Path.isWithin path target = true

theorem concerns_iff : base.keys.any (Path.isWithin path) = true ↔ Concerns base path :=
  List.any_eq_true

theorem keys_setWhere (within : String → Bool) (enabled : Bool) (base : Flat) :
    (setWhere within enabled base).keys = base.keys := by
  simp [setWhere, Entries.keys]

theorem get?_setWhere (within : String → Bool) (enabled : Bool) (base : Flat) (target : String) :
    (setWhere within enabled base).get? target =
      (base.get? target).map fun value ↦ if within target then .bool enabled else value := by
  induction base with
  | nil => rfl
  | cons entry rest ih =>
    obtain ⟨key, value⟩ := entry
    rw [setWhere, List.map_cons, Entries.get?_cons, Entries.get?_cons]
    by_cases h : target = key
    · simp [h]
    · simpa [h, setWhere] using ih

/-- An override is refused exactly if it concerns the base and is no boolean. -/
theorem applyOverride_cases (base : Flat) (path : String) (value : Json) :
    (Concerns base path ∧ value.bool? = none ∧
      applyOverride base path value = .error (.invalidConfig (.optionNotBoolean path value))) ∨
    (Concerns base path ∧ ∃ enabled, value = .bool enabled ∧
      applyOverride base path value = .ok (setWhere (Path.isWithin path) enabled base)) ∨
    (¬ Concerns base path ∧ applyOverride base path value = .ok base) := by
  unfold applyOverride
  by_cases h : Concerns base path
  · rw [if_pos (concerns_iff.mpr h)]
    cases value with
    | bool enabled => exact .inr (.inl ⟨h, enabled, rfl, rfl⟩)
    | _ => exact .inl ⟨h, rfl, rfl⟩
  · rw [if_neg (concerns_iff.not.mpr h)]
    exact .inr (.inr ⟨h, rfl⟩)

/-- What an override that is accepted writes. -/
theorem get?_applyOverride {next : Flat} (h : applyOverride base path value = .ok next)
    (mem : target ∈ base.keys) :
    if Path.isWithin path target then
      ∃ enabled, value = .bool enabled ∧ next.get? target = some (.bool enabled)
    else next.get? target = base.get? target := by
  rcases applyOverride_cases base path value with
    ⟨-, -, hrefused⟩ | ⟨-, enabled, rfl, hset⟩ | ⟨hnot, hsame⟩
  · cases hrefused.symm.trans h
  · obtain rfl := Except.ok.inj (hset.symm.trans h)
    obtain ⟨held, hheld⟩ := Option.isSome_iff_exists.mp (Entries.has_iff.mpr mem)
    split <;> rename_i hwithin <;> simp [get?_setWhere, hheld, hwithin]
  · obtain rfl := Except.ok.inj (hsame.symm.trans h)
    rw [if_neg fun hwithin ↦ hnot ⟨target, mem, hwithin⟩]

theorem keys_applyOverride {next : Flat} (h : applyOverride base path value = .ok next) :
    next.keys = base.keys := by
  rcases applyOverride_cases base path value with ⟨-, -, hrefused⟩ | ⟨-, enabled, -, hset⟩ | ⟨-, hsame⟩
  · cases hrefused.symm.trans h
  · rw [← Except.ok.inj (hset.symm.trans h), keys_setWhere]
  · rw [← Except.ok.inj (hsame.symm.trans h)]

theorem applyOverride_congr {base' : Flat} (same : base.keys = base'.keys) (path : String)
    (value : Json) :
    Entries.keys <$> applyOverride base path value =
      Entries.keys <$> applyOverride base' path value := by
  unfold applyOverride
  rw [same]
  split
  · cases value with
    | bool enabled =>
      exact congrArg Except.ok (((keys_setWhere _ enabled base).trans same).trans
        (keys_setWhere _ enabled base').symm)
    | _ => rfl
  · exact congrArg Except.ok same

/-! ## All overrides -/

/-- A run over overrides fails at the first that concerns the base and is no boolean, if there is
one. -/
theorem applyAll_error_iff :
    (∃ error, (applyAll base overrides).2 = some error) ↔
      ∃ entry ∈ overrides, entry.2.bool? = none ∧ Concerns base entry.1 := by
  induction overrides generalizing base with
  | nil => simp [applyAll]
  | cons entry rest ih =>
    obtain ⟨path, value⟩ := entry
    rw [applyAll]
    rcases applyOverride_cases base path value with
      ⟨hconcerns, hvalue, hrefused⟩ | ⟨-, enabled, rfl, hset⟩ | ⟨hnot, hsame⟩
    · simp [hrefused, hvalue, hconcerns]
    · have hkeys : ∀ path, Concerns (setWhere (Path.isWithin path) enabled base) = Concerns base := by
        intro path
        funext other
        rw [Concerns, keys_setWhere, Concerns]
      simp [hset, ih, hkeys, Json.bool?]
    · simp [hsame, ih, hnot]

theorem applyAll_invalid {error : CompileError} (h : (applyAll base overrides).2 = some error) :
    ∃ fault, error = .invalidConfig fault := by
  induction overrides generalizing base with
  | nil => cases h
  | cons entry rest ih =>
    obtain ⟨path, value⟩ := entry
    rw [applyAll] at h
    rcases applyOverride_cases base path value with ⟨-, -, hrefused⟩ | ⟨-, enabled, -, hset⟩ | ⟨-, hsame⟩
    · rw [hrefused] at h
      exact ⟨_, (Option.some.inj h).symm⟩
    · rw [hset] at h
      exact ih h
    · rw [hsame] at h
      exact ih h

/-- Whether overrides are accepted, and how they fail, depends on the paths of the base only. -/
theorem applyAll_error_congr {base' : Flat} (same : base.keys = base'.keys)
    (overrides : List (String × Json)) :
    (applyAll base overrides).2 = (applyAll base' overrides).2 := by
  induction overrides generalizing base base' with
  | nil => rfl
  | cons entry rest ih =>
    obtain ⟨path, value⟩ := entry
    have hstep := applyOverride_congr same path value
    rw [applyAll, applyAll]
    cases h : applyOverride base path value <;> cases h' : applyOverride base' path value <;>
      rw [h, h'] at hstep
    · exact congrArg some (Except.error.inj hstep)
    · cases hstep
    · cases hstep
    · exact ih (Except.ok.inj hstep)

/-- After overrides that are all accepted, the last one that a path lies within stands there. -/
theorem get?_applyAll (h : (applyAll base overrides).2 = none) (mem : target ∈ base.keys) :
    (∃ front path enabled back, overrides = front ++ (path, .bool enabled) :: back ∧
      Path.isWithin path target = true ∧ (∀ entry ∈ back, Path.isWithin entry.1 target = false) ∧
      (applyAll base overrides).1.get? target = some (.bool enabled)) ∨
    ((∀ entry ∈ overrides, Path.isWithin entry.1 target = false) ∧
      (applyAll base overrides).1.get? target = base.get? target) := by
  induction overrides generalizing base with
  | nil => exact .inr ⟨fun _ hentry ↦ (List.not_mem_nil hentry).elim, rfl⟩
  | cons entry rest ih =>
    obtain ⟨path, value⟩ := entry
    rw [applyAll] at h ⊢
    cases happly : applyOverride base path value with
    | error error =>
      rw [happly] at h
      cases h
    | ok next =>
      simp only [happly] at h ⊢
      have hwritten := get?_applyOverride happly mem
      rcases ih h (by rwa [keys_applyOverride happly]) with
        ⟨front, later, enabled, back, rfl, hlater⟩ | ⟨hnone, hget⟩
      · exact .inl ⟨(path, value) :: front, later, enabled, back, rfl, hlater⟩
      · rw [hget]
        by_cases hwithin : Path.isWithin path target = true
        · rw [if_pos hwithin] at hwritten
          obtain ⟨enabled, rfl, hnext⟩ := hwritten
          exact .inl ⟨[], path, enabled, rest, rfl, hwithin, hnone, hnext⟩
        · rw [if_neg hwithin] at hwritten
          exact .inr ⟨List.forall_mem_cons.mpr ⟨Bool.eq_false_iff.mpr hwithin, hnone⟩, hwritten⟩

/-! ## In the order of a document -/

theorem mem_overridesOf {entry : String × Json} :
    entry ∈ overridesOf fragment ↔ (flatten fragment).get? entry.1 = some entry.2 := by
  rw [overridesOf, List.mem_mergeSort, Entries.get?_eq_some_iff (nodup_flatten fragment)]

theorem pairwise_overridesOf (fragment : Json) :
    (overridesOf fragment).Pairwise fun entry later ↦ Path.depth entry.1 ≤ Path.depth later.1 := by
  have hsorted : (overridesOf fragment).Pairwise fun entry later ↦
      decide (Path.depth entry.1 ≤ Path.depth later.1) = true := by
    apply List.pairwise_mergeSort
    · intro first second third hfirst hsecond
      rw [decide_eq_true_eq] at *
      exact hfirst.trans hsecond
    · intro first second
      simp only [Bool.or_eq_true, decide_eq_true_eq]
      exact le_total _ _
  exact hsorted.imp of_decide_eq_true

/-- The last override of a document that a path lies within is the longest one. -/
theorem decides_of_last {front back : List (String × Json)}
    (hsplit : overridesOf fragment = front ++ (path, value) :: back)
    (hwithin : Path.isWithin path target = true)
    (hback : ∀ entry ∈ back, Path.isWithin entry.1 target = false) :
    Decides (flatten fragment) target path value := by
  have hentry : (path, value) ∈ overridesOf fragment := by
    rw [hsplit]
    exact List.mem_append_right _ List.mem_cons_self
  refine ⟨mem_overridesOf.mp hentry, hwithin, fun other hother hwithin' ↦ ?_⟩
  obtain ⟨held, hheld⟩ := Option.isSome_iff_exists.mp (Entries.has_iff.mpr hother)
  have hmem : (other, held) ∈ overridesOf fragment := mem_overridesOf.mpr hheld
  have hpairwise := pairwise_overridesOf fragment
  rw [hsplit] at hmem hpairwise
  rcases List.mem_append.mp hmem with hfront | hrest
  · have hdepth : Path.depth other ≤ Path.depth path :=
      (List.pairwise_append.mp hpairwise).2.2 _ hfront _ List.mem_cons_self
    by_contra hlength
    exact absurd (Path.depth_lt_of_length_lt hwithin hwithin' (Nat.not_le.mp hlength)) hdepth.not_gt
  · rcases List.mem_cons.mp hrest with hsame | hlater
    · exact (congrArg (fun entry ↦ entry.1.length) hsame).le
    · exact absurd hwithin' (Bool.eq_false_iff.mp (hback _ hlater))

end ResourceApi.Options

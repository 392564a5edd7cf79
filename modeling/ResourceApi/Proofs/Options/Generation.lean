import ResourceApi.Options.Generation
import ResourceApi.Proofs.Options.Cascade

/-!
# Resolving generation options

What a partial option document makes of the configuration it is resolved against.  Each leaf takes the
boolean of the longest path of the document that it lies within, and keeps the value of the parent where
there is none.  The order of the options does not count, and neither do paths that no leaf lies within;
a document is refused only for a value that is no boolean and that some leaf lies within.
-/

namespace ResourceApi

namespace Leaf

/-- The path is that of a leaf, or lies above one. -/
def IsKnown (path : String) : Prop := ∃ leaf : Leaf, Path.isWithin path leaf.path = true

theorem nodup_paths : (all.map path).Nodup := by decide +kernel

theorem not_isKnown_empty : ¬ IsKnown "" := by
  rintro ⟨leaf, hwithin⟩
  have hnone : ∀ leaf ∈ all, Path.isWithin "" leaf.path = false := by decide +kernel
  cases hwithin.symm.trans (hnone leaf (mem_all leaf))

end Leaf

namespace GenerationConfig

open Options (Decides applyAll overridesOf flatten)

variable {parent config : GenerationConfig} {members : Entries Json} {leaf : Leaf}

/-! ## Configurations as flat documents -/

theorem keys_toFlat (config : GenerationConfig) : config.toFlat.keys = Leaf.all.map Leaf.path := by
  rw [toFlat, Entries.keys, List.map_map]
  rfl

theorem mem_keys_toFlat (config : GenerationConfig) (leaf : Leaf) : leaf.path ∈ config.toFlat.keys := by
  rw [keys_toFlat]
  exact List.mem_map_of_mem (Leaf.mem_all leaf)

theorem get?_toFlat (config : GenerationConfig) (leaf : Leaf) :
    config.toFlat.get? leaf.path = some (.bool (config.enabled leaf)) := by
  apply Entries.get?_of_mem
  · rw [keys_toFlat]
    exact Leaf.nodup_paths
  · exact List.mem_map_of_mem (f := fun leaf : Leaf ↦ (leaf.path, Json.bool (config.enabled leaf)))
      (Leaf.mem_all leaf)

theorem concerns_toFlat {path : String} : Options.Concerns parent.toFlat path ↔ Leaf.IsKnown path := by
  unfold Options.Concerns
  rw [keys_toFlat]
  constructor
  · rintro ⟨target, hmem, hwithin⟩
    obtain ⟨leaf, -, rfl⟩ := List.mem_map.mp hmem
    exact ⟨leaf, hwithin⟩
  · rintro ⟨leaf, hwithin⟩
    exact ⟨leaf.path, List.mem_map_of_mem (Leaf.mem_all leaf), hwithin⟩

theorem enabled_ofFlat {flat : Options.Flat} {enabled : Bool}
    (h : flat.get? leaf.path = some (.bool enabled)) : (ofFlat flat).enabled leaf = enabled := by
  simp [ofFlat, h, Json.bool?]

/-! ## Resolution -/

theorem resolve_bool (enabled : Bool) (parent : GenerationConfig) :
    resolve (.bool enabled) parent = .ok ⟨fun _ ↦ enabled⟩ := by
  have hconfig : ofFlat (Options.setWhere (fun _ ↦ true) enabled parent.toFlat) = ⟨fun _ ↦ enabled⟩ := by
    unfold ofFlat
    congr 1
    funext leaf
    simp [Options.get?_setWhere, get?_toFlat, Json.bool?]
  exact congrArg Except.ok hconfig

theorem resolve_obj_eq_ok_iff :
    resolve (.obj members) parent = .ok config ↔
      (applyAll parent.toFlat (overridesOf (.obj members))).2 = none ∧
        ofFlat (applyAll parent.toFlat (overridesOf (.obj members))).1 = config := by
  unfold resolve Options.override
  cases (applyAll parent.toFlat (overridesOf (.obj members))) with
  | mk flat failure => cases failure <;> simp

theorem resolve_obj_eq_error_iff {error : CompileError} :
    resolve (.obj members) parent = .error error ↔
      (applyAll parent.toFlat (overridesOf (.obj members))).2 = some error := by
  unfold resolve Options.override
  cases (applyAll parent.toFlat (overridesOf (.obj members))) with
  | mk flat failure => cases failure <;> simp

theorem exists_error_iff :
    (∃ error, resolve (.obj members) parent = .error error) ↔
      ∃ path value, (flatten (.obj members)).get? path = some value ∧ value.bool? = none ∧
        Leaf.IsKnown path := by
  simp only [resolve_obj_eq_error_iff, Options.applyAll_error_iff, concerns_toFlat,
    Options.mem_overridesOf, Prod.exists]

/-- The errors of resolution are those of configurations. -/
theorem invalidConfig_of_resolve {fragment : Json} {error : CompileError}
    (h : resolve fragment parent = .error error) : ∃ fault, error = .invalidConfig fault := by
  cases fragment with
  | null => cases h
  | bool enabled =>
    rw [resolve_bool] at h
    cases h
  | obj members => exact Options.applyAll_invalid (resolve_obj_eq_error_iff.mp h)
  | _ => exact ⟨_, (Except.error.inj h).symm⟩

/-- A leaf takes what decides about it, and nothing else changes it. -/
theorem enabled_of_resolve (h : resolve (.obj members) parent = .ok config) (leaf : Leaf) :
    (∃ path enabled, Decides (flatten (.obj members)) leaf.path path (.bool enabled) ∧
      config.enabled leaf = enabled) ∨
    (∀ path ∈ (flatten (.obj members)).keys, Path.isWithin path leaf.path = false) ∧
      config.enabled leaf = parent.enabled leaf := by
  obtain ⟨hnone, rfl⟩ := resolve_obj_eq_ok_iff.mp h
  rcases Options.get?_applyAll hnone (mem_keys_toFlat parent leaf) with
    ⟨front, path, enabled, back, hsplit, hwithin, hback, hget⟩ | ⟨houtside, hget⟩
  · exact .inl ⟨path, enabled, Options.decides_of_last hsplit hwithin hback, enabled_ofFlat hget⟩
  · refine .inr ⟨fun path hpath ↦ ?_, enabled_ofFlat (hget.trans (get?_toFlat parent leaf))⟩
    obtain ⟨value, hvalue⟩ := Option.isSome_iff_exists.mp (Entries.has_iff.mpr hpath)
    exact houtside (path, value) (Options.mem_overridesOf.mpr hvalue)

theorem enabled_of_decides {path : String} {enabled : Bool}
    (h : resolve (.obj members) parent = .ok config)
    (decides : Decides (flatten (.obj members)) leaf.path path (.bool enabled)) :
    config.enabled leaf = enabled := by
  rcases enabled_of_resolve h leaf with ⟨path', enabled', hdecides, hvalue⟩ | ⟨hnone, -⟩
  · rw [hvalue, Json.bool.inj (hdecides.unique decides)]
  · have hkey := Entries.mem_keys_of_mem (Entries.mem_of_get? decides.entry)
    cases (hnone path hkey).symm.trans decides.within

theorem enabled_of_undecided (h : resolve (.obj members) parent = .ok config)
    (hnone : ∀ path ∈ (flatten (.obj members)).keys, Path.isWithin path leaf.path = false) :
    config.enabled leaf = parent.enabled leaf := by
  rcases enabled_of_resolve h leaf with ⟨path, enabled, hdecides, -⟩ | ⟨-, hvalue⟩
  · have hkey := Entries.mem_keys_of_mem (Entries.mem_of_get? hdecides.entry)
    cases (hnone path hkey).symm.trans hdecides.within
  · exact hvalue

/-- Documents that agree on the paths of the leaves and on those above them give the same
configuration. -/
theorem resolve_congr {members' : Entries Json}
    (agree : ∀ path, Leaf.IsKnown path →
      (flatten (.obj members)).get? path = (flatten (.obj members')).get? path)
    (h : resolve (.obj members) parent = .ok config) : resolve (.obj members') parent = .ok config := by
  cases h' : resolve (.obj members') parent with
  | error error =>
    obtain ⟨path, value, hvalue, hnone, hknown⟩ := exists_error_iff.mp ⟨error, h'⟩
    obtain ⟨_, hrefused⟩ : ∃ error, resolve (.obj members) parent = .error error :=
      exists_error_iff.mpr ⟨path, value, (agree path hknown).trans hvalue, hnone, hknown⟩
    cases h.symm.trans hrefused
  | ok config' =>
    have hleaf (leaf : Leaf) : config.enabled leaf = config'.enabled leaf := by
      have hagree (path : String) (hwithin : Path.isWithin path leaf.path = true) :=
        agree path ⟨leaf, hwithin⟩
      rcases enabled_of_resolve h leaf with ⟨path, enabled, hdecides, hvalue⟩ | ⟨hnone, hvalue⟩
      · rw [hvalue, enabled_of_decides h' (hdecides.congr hagree)]
      · rw [hvalue]
        refine (enabled_of_undecided h' fun path hpath ↦ ?_).symm
        by_contra hwithin
        rw [Bool.not_eq_false] at hwithin
        have hkey := (Options.mem_keys_congr (hagree path hwithin)).mpr hpath
        cases (hnone path hkey).symm.trans hwithin
    have hconfig : config = config' := congrArg GenerationConfig.mk (funext hleaf)
    rw [hconfig]

/-- What is refused, of whatever kind the document is. -/
theorem exists_error_cases (fragment : Json) :
    (∃ error, resolve fragment parent = .error error) ↔
      fragment.isNull = false ∧ fragment.bool? = none ∧ fragment.isObject = false ∨
      ∃ path value, (flatten fragment).get? path = some value ∧ value.bool? = none ∧
        Leaf.IsKnown path := by
  cases fragment with
  | obj members => simp [exists_error_iff, Json.isObject]
  | null =>
    have hflat : flatten .null = [("", .null)] := rfl
    have hknown : ∀ path value, ¬ ((flatten .null).get? path = some value ∧ value.bool? = none ∧
        Leaf.IsKnown path) := by
      rintro path value ⟨hvalue, -, hknown⟩
      rw [hflat, Entries.get?_cons] at hvalue
      split at hvalue
      · rename_i hpath
        rw [beq_iff_eq.mp hpath] at hknown
        exact Leaf.not_isKnown_empty hknown
      · cases hvalue
    simp [hknown, resolve, Json.isNull]
  | bool enabled =>
    have hflat : flatten (.bool enabled) = [("", .bool enabled)] := rfl
    simp [hflat, Entries.get?_cons, resolve_bool, Json.bool?]
  | _ => simp [resolve, Json.isNull, Json.bool?, Json.isObject]

/-- Null copies the parent, and a boolean sets every leaf.  A table that is accepted gives each leaf the
boolean at the longest of its paths that the leaf lies within, and leaves it to the parent if there is
none; only what stands at such paths counts, in whatever order the table has it.  What is neither null
nor a boolean nor a table is refused, and so is a table that has, at such a path, something other than a
boolean; nothing else is. -/
theorem resolve_cascade (parent : GenerationConfig) :
    resolve .null parent = .ok parent ∧
    (∀ enabled, resolve (.bool enabled) parent = .ok ⟨fun _ ↦ enabled⟩) ∧
    (∀ members config, resolve (.obj members) parent = .ok config → ∀ leaf,
      (∃ path enabled, Decides (flatten (.obj members)) leaf.path path (.bool enabled) ∧
        config.enabled leaf = enabled) ∨
      (∀ path ∈ (flatten (.obj members)).keys, Path.isWithin path leaf.path = false) ∧
        config.enabled leaf = parent.enabled leaf) ∧
    (∀ members members', (∀ path, Leaf.IsKnown path →
        (flatten (.obj members)).get? path = (flatten (.obj members')).get? path) →
      ∀ config, resolve (.obj members) parent = .ok config ↔
        resolve (.obj members') parent = .ok config) ∧
    (∀ fragment error, resolve fragment parent = .error error →
      ∃ fault, error = .invalidConfig fault) ∧
    ∀ fragment, (∃ error, resolve fragment parent = .error error) ↔
      fragment.isNull = false ∧ fragment.bool? = none ∧ fragment.isObject = false ∨
      ∃ path value, (flatten fragment).get? path = some value ∧ value.bool? = none ∧
        Leaf.IsKnown path := by
  refine ⟨rfl, fun enabled ↦ resolve_bool enabled parent, fun members config ↦ enabled_of_resolve,
    fun members members' agree config ↦ ⟨resolve_congr agree, resolve_congr fun path hknown ↦
      (agree path hknown).symm⟩, fun fragment error ↦ invalidConfig_of_resolve, exists_error_cases⟩

/-- A deeper `true` of the same table brings a leaf back, whichever of the two the table names first, and
a key that no leaf knows may hold anything. -/
theorem resolve_cascade_reenabled :
    let count : String × Json := ("query.all.self.count", .bool true)
    let queries : String × Json := ("query", .obj [("all", .bool false), ("later", .int 3)])
    ∃ config, resolve (.obj [queries, count]) full = .ok config ∧
      resolve (.obj [count, queries]) full = .ok config ∧
      config.enabled (.query .all .own .count) = true ∧
      config.enabled (.query .all .own .whole) = false ∧
      config.enabled (.query .filtered .own .whole) = true := by
  intro count queries
  obtain ⟨-, -, hleaves, horder, -, hrefused⟩ := resolve_cascade full
  have hflat : flatten (.obj [queries, count]) =
      [("query.all", .bool false), ("query.later", .int 3), count] := rfl
  have hflat' : flatten (.obj [count, queries]) =
      [count, ("query.all", .bool false), ("query.later", .int 3)] := rfl
  have hlater : ∀ leaf ∈ Leaf.all, Path.isWithin "query.later" leaf.path = false := by decide +kernel
  cases h : resolve (.obj [queries, count]) full with
  | error error =>
    rcases (hrefused _).mp ⟨error, h⟩ with ⟨-, -, hobject⟩ | ⟨path, value, hvalue, hnone, leaf, hwithin⟩
    · cases hobject
    · have hmem := Entries.mem_of_get? hvalue
      simp only [hflat, count, List.mem_cons, List.not_mem_nil, or_false, Prod.mk.injEq] at hmem
      rcases hmem with ⟨-, rfl⟩ | ⟨rfl, -⟩ | ⟨-, rfl⟩
      · cases hnone
      · cases (hlater leaf (Leaf.mem_all leaf)).symm.trans hwithin
      · cases hnone
  | ok config =>
    refine ⟨config, rfl, (horder _ _ (fun path _ ↦ ?_) config).mp h, ?_, ?_, ?_⟩
    · rw [hflat, hflat']
      by_cases hpath : path = count.1 <;> simp [Entries.get?_cons, hpath, count]
    · have hdecides : Decides (flatten (.obj [queries, count])) "query.all.self.count" count.1 count.2 :=
        ⟨rfl, by decide, by rw [hflat]; decide +kernel⟩
      rcases hleaves _ _ h (.query .all .own .count) with ⟨path, enabled, hfound, hvalue⟩ | ⟨hnone, -⟩
      · rw [hvalue, Json.bool.inj (hfound.unique hdecides)]
      · cases hnone count.1 (by rw [hflat]; decide)
    · have hdecides : Decides (flatten (.obj [queries, count])) "query.all.self.whole" "query.all"
          (.bool false) :=
        ⟨rfl, by decide, by rw [hflat]; decide +kernel⟩
      rcases hleaves _ _ h (.query .all .own .whole) with ⟨path, enabled, hfound, hvalue⟩ | ⟨hnone, -⟩
      · rw [hvalue, Json.bool.inj (hfound.unique hdecides)]
      · cases hnone "query.all" (by rw [hflat]; decide)
    · have houtside : ∀ path ∈ (flatten (.obj [queries, count])).keys,
          Path.isWithin path "query.filtered.self.whole" = false := by
        rw [hflat]
        decide +kernel
      rcases hleaves _ _ h (.query .filtered .own .whole) with ⟨path, enabled, hfound, -⟩ | ⟨-, hvalue⟩
      · have hkey := Entries.mem_keys_of_mem (Entries.mem_of_get? hfound.entry)
        cases (houtside path hkey).symm.trans hfound.within
      · exact hvalue

end GenerationConfig
end ResourceApi

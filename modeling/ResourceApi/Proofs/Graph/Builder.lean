import ResourceApi.Graph.Builder
import ResourceApi.Proofs.Entries

/-!
# Reading a builder

A builder is read by level and name.  Each of its operations changes at most the type under one name of
one level: `ensure` adds a type where none is, the others change one that is there.  A type that is
there stays, and grows: it keeps its kind and all that it has.  Finishing keeps the types that have
something to define.
-/

namespace ResourceApi

/-! ## Growing types -/

namespace TypeNode

/-- The second type has what the first one has, under the same name, of the same kind and for the same
model type. -/
structure Grows (node next : TypeNode) : Prop where
  name : next.name = node.name
  kind : next.kind = node.kind
  base : next.base = node.base
  extending : next.extending = node.extending
  fields : ∀ name field, node.fields.get? name = some field → next.fields.get? name = some field
  members : node.members ⊆ next.members
  values : node.values ⊆ next.values

namespace Grows

variable {first second third : TypeNode}

theorem refl (node : TypeNode) : node.Grows node :=
  ⟨rfl, rfl, rfl, rfl, fun _ _ h ↦ h, List.Subset.refl _, List.Subset.refl _⟩

theorem trans (h : first.Grows second) (h' : second.Grows third) : first.Grows third where
  name := h'.name.trans h.name
  kind := h'.kind.trans h.kind
  base := h'.base.trans h.base
  extending := h'.extending.trans h.extending
  fields name field hfield := h'.fields name field (h.fields name field hfield)
  members := List.Subset.trans h.members h'.members
  values := List.Subset.trans h.values h'.values

end Grows

theorem exists_get?_of_ne_nil {α : Type} {entries : Entries α} (h : entries ≠ []) :
    ∃ name value, entries.get? name = some value := by
  cases entries with
  | nil => exact absurd rfl h
  | cons entry rest => exact ⟨entry.1, entry.2, by rw [Entries.get?_cons, if_pos (beq_self_eq_true _)]⟩

/-- What has something to define still has it later. -/
theorem Grows.isEmpty {node next : TypeNode} (h : node.Grows next) (hempty : next.isEmpty = true) :
    node.isEmpty = true := by
  have hfields : next.fields = [] → node.fields = [] := by
    intro hnil
    by_contra hne
    obtain ⟨name, field, hfield⟩ := exists_get?_of_ne_nil hne
    have hnext := h.fields name field hfield
    rw [hnil] at hnext
    cases hnext
  unfold TypeNode.isEmpty at hempty ⊢
  rw [h.kind] at hempty
  cases hkind : node.kind with
  | union =>
    simp only [hkind, List.isEmpty_iff] at hempty ⊢
    exact List.subset_nil.mp (hempty ▸ h.members)
  | enumeration =>
    simp only [hkind, List.isEmpty_iff] at hempty ⊢
    exact List.subset_nil.mp (hempty ▸ h.values)
  | _ =>
    simp only [hkind, List.isEmpty_iff] at hempty ⊢
    exact hfields hempty

end TypeNode

theorem mem_addMissing {present more : List String} {text : String} :
    text ∈ addMissing present more ↔ text ∈ present ∨ text ∈ more := by
  unfold addMissing
  induction more generalizing present with
  | nil => simp
  | cons head rest ih =>
    rw [List.foldl_cons, ih]
    by_cases h : present.contains head = true
    · have hmem : head ∈ present := by simpa using h
      rw [if_pos h, List.mem_cons]
      constructor
      · rintro (hpresent | hrest)
        · exact .inl hpresent
        · exact .inr (.inr hrest)
      · rintro (hpresent | rfl | hrest)
        · exact .inl hpresent
        · exact .inl hmem
        · exact .inr hrest
    · rw [if_neg h]
      simp [or_assoc]

theorem nodup_addMissing {present more : List String} (h : present.Nodup) :
    (addMissing present more).Nodup := by
  unfold addMissing
  induction more generalizing present with
  | nil => exact h
  | cons first rest ih =>
    rw [List.foldl_cons]
    split
    · exact ih h
    · rename_i hnew
      exact ih (by simpa using List.Nodup.concat (by simpa using hnew) h)

namespace GraphBuilder

variable {builder next : GraphBuilder} {level other : Nat} {name key : String} {node : TypeNode}

/-! ## Levels -/

/-- The types of a level; there are none beyond the last one. -/
def levelAt (builder : GraphBuilder) (level : Nat) : Level := builder.graph.levels[level]?.getD []

theorem get?_eq (builder : GraphBuilder) (level : Nat) (name : String) :
    builder.get? level name = Entries.get? (builder.levelAt level) name := by
  unfold get? levelAt
  cases builder.graph.levels[level]? <;> rfl

theorem getD_atLevel (f : Level → Level) (level other : Nat) (levels : List Level) :
    (atLevel f level levels)[other]?.getD [] =
      if other = level then f (levels[level]?.getD []) else levels[other]?.getD [] := by
  induction level generalizing other levels with
  | zero => cases levels <;> cases other <;> simp [atLevel]
  | succ n ih =>
    cases levels with
    | nil =>
      cases other with
      | zero => simp [atLevel]
      | succ m => simpa [atLevel] using ih m []
    | cons first rest =>
      cases other with
      | zero => simp [atLevel]
      | succ m => simpa [atLevel] using ih m rest

theorem levelAt_updateLevel (builder : GraphBuilder) (level other : Nat) (f : Level → Level) :
    (builder.updateLevel level f).levelAt other =
      if other = level then f (builder.levelAt level) else builder.levelAt other :=
  getD_atLevel f level other builder.graph.levels

/-! ## Types under their names -/

/-- The type that `ensure` adds. -/
def fresh (builder : GraphBuilder) (name : String) (kind : TypeKind) (base : String) : TypeNode :=
  .new name kind base (builder.existing.has name)

theorem get?_ensure (kind : TypeKind) (base : String) :
    (builder.ensure level name kind base).get? other key =
      if other = level ∧ key = name then
        some ((builder.get? level name).getD (builder.fresh name kind base))
      else builder.get? other key := by
  rw [get?_eq, ensure, levelAt_updateLevel]
  by_cases hlevel : other = level
  · subst hlevel
    rw [if_pos rfl, get?_eq, get?_eq]
    by_cases hhas : (builder.levelAt other).has name = true
    · obtain ⟨held, hheld⟩ := Option.isSome_iff_exists.mp hhas
      rw [if_pos hhas]
      by_cases hkey : key = name
      · simp [hkey, hheld]
      · simp [hkey]
    · have hnone : (builder.levelAt other).get? name = none := by simpa [Entries.has] using hhas
      rw [if_neg hhas, Entries.get?_append]
      by_cases hkey : key = name
      · simp [hkey, hnone, Entries.get?_cons, fresh]
      · simp [hkey, Entries.get?_cons]
  · rw [if_neg hlevel, if_neg (fun h ↦ hlevel h.1), get?_eq]

theorem get?_modify (f : TypeNode → TypeNode) :
    (builder.modify level name f).get? other key =
      if other = level ∧ key = name then (builder.get? level name).map f
      else builder.get? other key := by
  rw [get?_eq, modify, levelAt_updateLevel]
  by_cases hlevel : other = level
  · subst hlevel
    rw [if_pos rfl, Entries.get?_adjust, get?_eq, get?_eq]
    by_cases hkey : key = name <;> simp [hkey]
  · rw [if_neg hlevel, if_neg (fun h ↦ hlevel h.1), get?_eq]

theorem definedBefore_iff {field : String} : builder.definedBefore name field = true ↔
    field ∈ (builder.existing.get? name).getD [] := by
  unfold definedBefore
  cases builder.existing.get? name <;> simp

/-! ## Growing builders -/

/-- Every type of the first builder is there in the second, and has grown. -/
structure Grows (builder next : GraphBuilder) : Prop where
  existing : next.existing = builder.existing
  types : ∀ level name node, builder.get? level name = some node →
    ∃ later, next.get? level name = some later ∧ node.Grows later

namespace Grows

theorem refl (builder : GraphBuilder) : builder.Grows builder :=
  ⟨rfl, fun _ _ node h ↦ ⟨node, h, .refl node⟩⟩

theorem trans {first second third : GraphBuilder} (h : first.Grows second)
    (h' : second.Grows third) : first.Grows third := by
  refine ⟨h'.existing.trans h.existing, fun level name node hnode ↦ ?_⟩
  obtain ⟨later, hlater, hgrows⟩ := h.types level name node hnode
  obtain ⟨last, hlast, hgrows'⟩ := h'.types level name later hlater
  exact ⟨last, hlast, hgrows.trans hgrows'⟩

end Grows

theorem grows_ensure (builder : GraphBuilder) (level : Nat) (name : String) (kind : TypeKind)
    (base : String) : builder.Grows (builder.ensure level name kind base) := by
  refine ⟨rfl, fun other key node hnode ↦ ?_⟩
  rw [get?_ensure]
  by_cases h : other = level ∧ key = name
  · obtain ⟨rfl, rfl⟩ := h
    exact ⟨node, by simp [hnode], .refl node⟩
  · exact ⟨node, by simp [h, hnode], .refl node⟩

theorem grows_modify {f : TypeNode → TypeNode}
    (h : ∀ node, builder.get? level name = some node → node.Grows (f node)) :
    builder.Grows (builder.modify level name f) := by
  refine ⟨rfl, fun other key node hnode ↦ ?_⟩
  rw [get?_modify]
  by_cases hat : other = level ∧ key = name
  · obtain ⟨rfl, rfl⟩ := hat
    exact ⟨f node, by simp [hnode], h node hnode⟩
  · exact ⟨node, by simp [hat, hnode], .refl node⟩

theorem Grows.isAvailable (h : builder.Grows next) (havailable : builder.isAvailable level name = true) :
    next.isAvailable level name = true := by
  unfold GraphBuilder.isAvailable at havailable ⊢
  rw [h.existing]
  rcases Bool.or_eq_true_iff.mp havailable with hexisting | htype
  · rw [hexisting, Bool.true_or]
  · cases hget : builder.get? level name with
    | none => simp [hget] at htype
    | some node =>
      obtain ⟨later, hlater, hgrows⟩ := h.types level name node hget
      have hfilled : later.isEmpty = false := by
        by_contra hempty
        simp [hget, hgrows.isEmpty (by simpa using hempty)] at htype
      simp [hlater, hfilled]

/-! ## Distinct names -/

/-- No level has two types of one name. -/
def Distinct (builder : GraphBuilder) : Prop := ∀ level, (builder.levelAt level).keys.Nodup

theorem distinct_new (resource : String) (existing : Entries (List String)) :
    (GraphBuilder.new resource existing).Distinct :=
  fun _ ↦ List.nodup_nil

theorem Distinct.updateLevel (h : builder.Distinct) {f : Level → Level}
    (hf : (f (builder.levelAt level)).keys.Nodup) : (builder.updateLevel level f).Distinct := by
  intro other
  rw [levelAt_updateLevel]
  by_cases hlevel : other = level
  · rwa [if_pos hlevel]
  · rw [if_neg hlevel]
    exact h other

theorem Distinct.ensure (h : builder.Distinct) (kind : TypeKind) (base : String) :
    (builder.ensure level name kind base).Distinct := by
  refine h.updateLevel ?_
  by_cases hhas : (builder.levelAt level).has name = true
  · rw [if_pos hhas]
    exact h level
  · rw [if_neg hhas, Entries.keys_append]
    rw [Entries.has_iff] at hhas
    simpa using List.Nodup.concat hhas (h level)

theorem Distinct.modify (h : builder.Distinct) (f : TypeNode → TypeNode) :
    (builder.modify level name f).Distinct := by
  refine h.updateLevel ?_
  rw [Entries.keys_adjust]
  exact h level

end GraphBuilder

/-! ## Finished graphs -/

/-- The type under a name at a level of a graph. -/
def TypeGraph.typeAt? (graph : TypeGraph) (level : Nat) (name : String) : Option TypeNode :=
  Entries.get? (graph.levels[level]?.getD []) name

namespace GraphBuilder

theorem getD_trimLevels (levels : List Level) (level : Nat) :
    (trimLevels levels)[level]?.getD [] = levels[level]?.getD [] := by
  induction levels generalizing level with
  | nil => rfl
  | cons first rest ih =>
    unfold trimLevels
    cases htrim : trimLevels rest with
    | nil =>
      rw [htrim] at ih
      cases level with
      | zero => cases first <;> rfl
      | succ n =>
        have hrest : rest[n]?.getD [] = [] := (ih n).symm
        cases first <;> simpa using hrest.symm
    | cons second more =>
      rw [htrim] at ih
      cases level with
      | zero => rfl
      | succ n => simpa using ih n

/-- Finishing keeps at each level the types that have something to define, in their order. -/
theorem getD_finish (builder : GraphBuilder) (level : Nat) :
    builder.finish.levels[level]?.getD [] =
      (builder.levelAt level).filter fun entry ↦ !entry.2.isEmpty := by
  unfold finish levelAt
  rw [getD_trimLevels, List.getElem?_map]
  cases builder.graph.levels[level]? <;> rfl

theorem typeAt?_finish {builder : GraphBuilder} (h : builder.Distinct) (level : Nat) (name : String) :
    builder.finish.typeAt? level name =
      (builder.get? level name).filter fun node ↦ !node.isEmpty := by
  unfold TypeGraph.typeAt?
  rw [getD_finish, get?_eq, ← Entries.get?_filter (h level)]

theorem nodup_finish {builder : GraphBuilder} (h : builder.Distinct) (level : Nat) :
    (Entries.keys (builder.finish.levels[level]?.getD [])).Nodup := by
  rw [getD_finish]
  exact (List.filter_sublist.map Prod.fst).nodup (h level)

end GraphBuilder

/-- The definitions of a graph are what stands at its levels. -/
theorem TypeGraph.mem_definitions {graph : TypeGraph} {node : TypeNode} :
    node ∈ graph.definitions ↔
      ∃ (level : Nat) (name : String), (name, node) ∈ graph.levels[level]?.getD [] := by
  unfold definitions Entries.values
  rw [List.mem_flatMap]
  constructor
  · rintro ⟨types, htypes, hnode⟩
    obtain ⟨⟨name, _⟩, hentry, rfl⟩ := List.mem_map.mp hnode
    obtain ⟨level, hlevel⟩ := List.mem_iff_getElem?.mp htypes
    exact ⟨level, name, by rwa [hlevel]⟩
  · rintro ⟨level, name, hentry⟩
    cases hlevel : graph.levels[level]? with
    | none =>
      rw [hlevel] at hentry
      cases hentry
    | some types =>
      rw [hlevel] at hentry
      exact ⟨types, List.mem_of_getElem? hlevel, List.mem_map_of_mem hentry⟩

end ResourceApi

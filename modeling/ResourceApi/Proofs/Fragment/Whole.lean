import Mathlib.Data.List.Induction
import ResourceApi.Proofs.Fragment.References

/-!
# Whole objects

The wholes are done from the deepest level up.  When an object type has its turn, those that its object
fields lead to have a whole already, so none of its fields is left out; a type with fields then has a whole
itself.  Later tasks and custom parts leave the fragments that the whole has looked up as they are, so its
selections are also those that come out of the finished set.
-/

namespace ResourceApi

namespace FragmentSet

open Fragment

variable {graphs : List TypeGraph} {objects done todo : List TypeNode} {set next : FragmentSet}
  {node : TypeNode} {field : FieldNode} {task : Task} {tasks : List Task} {object part name : String}
  {fragment : Fragment}

/-! ## Custom parts -/

/-- Custom parts leave the table as it is at the built-in ones. -/
theorem fragmentFor?_emitCustom (mem : part ∈ builtinParts) (set : FragmentSet) (node : TypeNode)
    (object : String) : (emitCustom set node).fragmentFor? object part = set.fragmentFor? object part := by
  unfold emitCustom
  refine List.foldlRecOn (motive := fun next ↦ FragmentSet.fragmentFor? next object part = _)
    node.fragments _ rfl fun next hnext entry _ ↦ ?_
  dsimp only
  split
  · exact hnext
  · rename_i hcustom
    refine (fragmentFor?_record_of_ne ?_ object).trans hnext
    rintro rfl
    exact hcustom (List.contains_iff_mem.mpr mem)

/-- What is defined after the custom parts of a type is of such a part, or it was there before. -/
theorem get?_emitCustom (h : (emitCustom set node).get? name = some fragment) :
    builtinParts.contains fragment.part = false ∧ fragment.selections ≠ [] ∨
      set.get? name = some fragment := by
  revert h
  unfold emitCustom
  refine List.foldlRecOn (motive := fun next ↦ FragmentSet.get? next name = some fragment → _)
    node.fragments _ .inr fun next hnext entry _ h ↦ ?_
  dsimp only at h
  split at h
  · exact hnext h
  · rename_i hcustom
    rcases get?_record h with ⟨hpart, hselections⟩ | hbefore
    · exact .inl ⟨hpart ▸ Bool.eq_false_iff.mpr hcustom, hselections⟩
    · exact hnext hbefore

/-- The finished set has the fragments of built-in parts that their tasks have left behind. -/
theorem fragmentFor?_ofGraphs (mem : part ∈ builtinParts) (graphs : List TypeGraph) (object : String) :
    (ofGraphs graphs).fragmentFor? object part =
      (leave (deepestFirst graphs) (builtinTasks (deepestFirst graphs))).fragmentFor? object part := by
  rw [ofGraphs_eq_foldl]
  exact List.foldlRecOn (motive := fun next ↦ FragmentSet.fragmentFor? next object part = _) _ _ rfl
    fun next hnext node _ ↦ (fragmentFor?_emitCustom mem next node object).trans hnext

theorem get?_ofGraphs (h : (ofGraphs graphs).get? name = some fragment) :
    builtinParts.contains fragment.part = false ∧ fragment.selections ≠ [] ∨
      (leave (deepestFirst graphs) (builtinTasks (deepestFirst graphs))).get? name = some fragment := by
  revert h
  rw [ofGraphs_eq_foldl]
  refine List.foldlRecOn (motive := fun next ↦ FragmentSet.get? next name = some fragment → _) _ _ .inr
    fun next hnext node _ h ↦ ?_
  rcases get?_emitCustom h with hcustom | hbefore
  · exact .inl hcustom
  · exact hnext hbefore

/-- A fragment selects something. -/
theorem selections_ne_nil (h : (ofGraphs graphs).get? name = some fragment) :
    fragment.selections ≠ [] := by
  rcases get?_ofGraphs h with ⟨-, hselections⟩ | hbuiltin
  · exact hselections
  · obtain ⟨_, _, _, -, -, hwritten⟩ := exists_turn_of_leave hbuiltin
    obtain ⟨hselections, rfl⟩ := fragmentOf?_eq_some_iff.mp hwritten
    exact hselections

/-! ## Nested types first -/

/-- An item of a chained list is of one of the lists, and those of the lists before stand before it. -/
theorem exists_split_of_flatMap {α β : Type} {f : α → List β} {items : List α} {front back : List β}
    {item : β} (h : items.flatMap f = front ++ item :: back) :
    ∃ before here after, items = before ++ here :: after ∧ item ∈ f here ∧
      ∀ other ∈ before, f other ⊆ front := by
  induction items generalizing front with
  | nil => cases List.append_eq_nil_iff.mp h.symm |>.2
  | cons first rest ih =>
    rw [List.flatMap_cons] at h
    rcases List.append_eq_append_iff.mp h with ⟨later, rfl, hrest⟩ | ⟨here, hfirst, hback⟩
    · obtain ⟨before, here, after, rfl, hitem, hbefore⟩ := ih hrest
      refine ⟨first :: before, here, after, rfl, hitem,
        List.forall_mem_cons.mpr ⟨?_, fun other hother ↦ ?_⟩⟩
      · exact List.subset_append_left _ _
      · exact List.Subset.trans (hbefore other hother) (List.subset_append_right _ _)
    · cases here with
      | nil =>
        obtain ⟨before, here, after, rfl, hitem, hbefore⟩ := ih (hback.symm.trans (List.nil_append _).symm)
        rw [List.append_nil] at hfirst
        refine ⟨first :: before, here, after, rfl, hitem,
          List.forall_mem_cons.mpr ⟨hfirst ▸ List.Subset.refl _, fun other hother ↦ ?_⟩⟩
        exact List.Subset.trans (hbefore other hother) (List.nil_subset _)
      | cons head _ =>
        obtain ⟨rfl, -⟩ := List.cons.inj hback
        exact ⟨[], first, rest, rfl, hfirst ▸ List.mem_append_right _ List.mem_cons_self, nofun⟩

/-- When an object type has its turn, those that its object fields lead to have had theirs. -/
theorem nested_before (leveled : ∀ graph ∈ graphs, graph.Leveled)
    (h : deepestFirst graphs = done ++ node :: todo) (mem : field ∈ node.fields.values)
    (kind : field.kind = .object) : ∃ target ∈ done, target.name = field.typeName := by
  obtain ⟨before, level, after, hlevels, hnode, hdone⟩ := exists_split_of_flatMap h
  obtain ⟨graph, hgraph, hobject⟩ := mem_layer.mp hnode
  obtain ⟨target, htarget, hname⟩ := leveled graph hgraph level node hobject field mem kind
  have hlayer : target ∈ layer graphs (level + 1) := mem_layer.mpr ⟨graph, hgraph, htarget⟩
  have hnext : level + 1 ∈ before ++ level :: after := by
    rw [← hlevels, List.mem_reverse, List.mem_range]
    exact lt_depth hlayer
  have hdeeper := hlevels ▸ pairwise_levels graphs
  -- the levels after are higher up
  have hafter : ∀ later ∈ after, later < level :=
    (List.pairwise_cons.mp (List.pairwise_append.mp hdeeper).2.1).1
  rcases List.mem_append.mp hnext with hbefore | hlater
  · exact ⟨target, hdone _ hbefore hlayer, hname⟩
  · rcases List.mem_cons.mp hlater with hsame | hlater
    · omega
    · exact absurd (hafter _ hlater) (by omega)

/-! ## Fields of the whole -/

/-- The whole selects a field unless it is an object field and leads to a type without a whole. -/
theorem isSome_selectWhole
    (nested : field.kind = .object → (set.fragmentFor? field.typeName whole).isSome = true) :
    (set.selectWhole field).isSome = true := by
  unfold selectWhole
  split <;> rename_i hkind
  · rfl
  · rfl
  · rw [spreadOf?, Option.isSome_map]
    exact nested hkind
  · rfl

theorem forall₂_filterMap {α β : Type} {f : α → Option β} {items : List α}
    (h : ∀ item ∈ items, (f item).isSome = true) :
    List.Forall₂ (fun item result ↦ f item = some result) items (items.filterMap f) := by
  induction items with
  | nil => exact .nil
  | cons first rest ih =>
    obtain ⟨hfirst, hrest⟩ := List.forall_mem_cons.mp h
    obtain ⟨result, hresult⟩ := Option.isSome_iff_exists.mp hfirst
    rw [List.filterMap_cons_some hresult]
    exact .cons hresult (ih hrest)

theorem map_fieldName_of_takes {fields : List FieldNode} {selections : List Selection}
    (h : List.Forall₂ (set.Takes part) fields selections) :
    selections.map Selection.fieldName = fields.map (·.name) := by
  induction h with
  | nil => rfl
  | cons takes _ ih => rw [List.map_cons, List.map_cons, takes.fieldName, ih]

/-- The whole of a type whose nested types have a whole takes all its fields, in their order. -/
theorem forall₂_takes_whole (nested : ∀ field ∈ node.fields.values, field.kind = .object →
    (set.fragmentFor? field.typeName whole).isSome = true) :
    List.Forall₂ (set.Takes whole) node.fields.values (set.selectionsOf node whole) :=
  (forall₂_filterMap fun field hfield ↦ isSome_selectWhole (nested field hfield)).imp
    fun field _ h ↦ takes_selectOf ((selectOf_whole set field).trans h)

/-- What the whole selects depends on wholes and on the other built-in parts only. -/
theorem selectionsOf_whole_congr (node : TypeNode)
    (wholes : ∀ field ∈ node.fields.values, field.kind = .object →
      set.fragmentFor? field.typeName whole = next.fragmentFor? field.typeName whole)
    (closed : ∀ object, ∀ part ∈ builtinParts, part ≠ whole →
      set.fragmentFor? object part = next.fragmentFor? object part) :
    set.selectionsOf node whole = next.selectionsOf node whole := by
  refine (Task.covers_selectionsOf ⟨node, whole⟩).congr set next fun object other hreads ↦ ?_
  obtain ⟨field, hfield, rfl, ⟨hkind, hsame | hcustom⟩ | ⟨-, hrank⟩⟩ := hreads
  · rw [hsame]
    exact wholes field hfield hkind
  · cases hcustom
  · have hzero : rank other < 1 := hrank
    refine closed _ other ?_ ?_
    · by_contra hcustom
      rw [rank_of_custom (Bool.eq_false_iff.mpr (mt List.contains_iff_mem.mp hcustom))] at hzero
      omega
    · rintro rfl
      exact absurd hzero (by decide)

/-! ## The pass over the wholes -/

/-- The set when the wholes of some of the object types are done. -/
def withWholes (objects done : List TypeNode) : FragmentSet :=
  leave objects (closedTasks objects ++ wholeTasks done)

theorem withWholes_eq (objects done : List TypeNode) :
    withWholes objects done = (done.map fun node ↦ ⟨node, whole⟩).foldl generate
      (leave objects (closedTasks objects)) := by
  rw [withWholes, leave, List.foldl_append, wholeTasks_eq]
  rfl

/-- The pass does nothing to the other parts. -/
theorem fragmentFor?_withWholes (h : part ≠ whole) (objects done : List TypeNode) (object : String) :
    (withWholes objects done).fragmentFor? object part =
      (leave objects (closedTasks objects)).fragmentFor? object part := by
  rw [withWholes_eq]
  refine fragmentFor?_foldl_of_ne (fun task htask ↦ ?_) object
  obtain ⟨node, -, rfl⟩ := List.mem_map.mp htask
  exact h

theorem fragmentFor?_withWholes_concat (mem : node ∈ objects) (object : String) :
    (withWholes objects (done ++ [node])).fragmentFor? object whole =
      if object = node.name then ((withWholes objects done).fragmentOf? ⟨node, whole⟩).map Fragment.name
      else (withWholes objects done).fragmentFor? object whole := by
  have hannounced : (withWholes objects done).parts.has node.name = true := by
    rw [withWholes, leave, has_foldl_generate]
    exact (has_announced empty).mp (.inl (List.mem_map_of_mem mem))
  have hconcat :
      withWholes objects (done ++ [node]) = generate (withWholes objects done) ⟨node, whole⟩ := by
    rw [withWholes_eq, withWholes_eq, List.map_append, List.foldl_append]
    rfl
  rw [hconcat, fragmentFor?_eq, fragmentFor?_eq, listed?_generate hannounced]
  by_cases hobject : object = node.name
  · rw [if_pos ⟨hobject, rfl⟩, if_pos hobject, Option.join_some]
  · rw [if_neg fun h ↦ hobject h.1, if_neg hobject]

/-- A fragment for a whole was written by the task of an object type, when its turn came in the pass. -/
theorem exists_whole_turn (h : (leave objects (builtinTasks objects)).get? name = some fragment)
    (part : fragment.part = whole) : ∃ done node todo, objects = done ++ node :: todo ∧
      name = nameFor node whole ∧ (withWholes objects done).fragmentOf? ⟨node, whole⟩ = some fragment := by
  change (withWholes objects objects).get? name = some fragment at h
  rw [withWholes_eq] at h
  rcases exists_turn h with hclosed | ⟨before, task, after, hsplit, rfl, hwritten⟩
  · obtain ⟨before, task, after, htasks, -, hwritten⟩ := exists_turn_of_leave hclosed
    obtain ⟨-, rfl⟩ := fragmentOf?_eq_some_iff.mp hwritten
    have hmem : task ∈ closedTasks objects := htasks ▸ by simp
    exact absurd part (mem_closedTasks hmem).2.2
  · obtain ⟨done, later, hobjects, rfl, hlater⟩ := List.map_eq_append_iff.mp hsplit
    obtain ⟨node, todo, rfl, rfl, -⟩ := List.map_eq_cons_iff.mp hlater
    rw [← withWholes_eq] at hwritten
    exact ⟨done, node, todo, hobjects, rfl, hwritten⟩

section Leveled

variable (leveled : ∀ graph ∈ graphs, graph.Leveled) (tell : NamesTell (deepestFirst graphs))
  (filled : ∀ node ∈ deepestFirst graphs, node.fields ≠ [])
include leveled tell filled

/-- Every object type that has had its turn has a whole. -/
theorem listed_withWholes (h : deepestFirst graphs = done ++ todo) (mem : node ∈ done) :
    (withWholes (deepestFirst graphs) done).fragmentFor? node.name whole = some (nameFor node whole) := by
  induction done using List.reverseRecOn generalizing todo node with
  | nil => cases mem
  | append_singleton done last ih =>
    rw [List.append_assoc, List.singleton_append] at h
    have hobjects : ∀ other ∈ done ++ [last], other ∈ deepestFirst graphs := by
      intro other hother
      rw [h, List.append_cons]
      exact List.mem_append_left _ hother
    have hlast := hobjects last (by simp)
    rw [fragmentFor?_withWholes_concat hlast]
    split
    · rename_i hname
      -- the types that the last one leads to were done before it
      have hnested : ∀ field ∈ last.fields.values, field.kind = .object →
          ((withWholes (deepestFirst graphs) done).fragmentFor? field.typeName whole).isSome = true := by
        intro field hfield hkind
        obtain ⟨target, htarget, hnamed⟩ := nested_before leveled h hfield hkind
        rw [← hnamed, ih h htarget]
        rfl
      have htakes := forall₂_takes_whole hnested
      have hselections : (withWholes (deepestFirst graphs) done).selectionsOf last whole ≠ [] := by
        intro hnil
        rw [hnil, List.forall₂_nil_right_iff] at htakes
        exact filled last hlast (List.map_eq_nil_iff.mp htakes)
      rw [fragmentOf?_eq_some_iff.mpr ⟨hselections, rfl⟩, Option.map_some]
      exact congrArg some (tell.nameFor_eq hlast (hobjects node mem) hname.symm whole)
    · rename_i hname
      refine ih h ((List.mem_append.mp mem).resolve_right fun hsame ↦ hname ?_)
      rw [List.mem_singleton.mp hsame]

/-- Every object type has a whole. -/
theorem fragmentFor?_whole (mem : node ∈ deepestFirst graphs) :
    (ofGraphs graphs).fragmentFor? node.name whole = some (nameFor node whole) := by
  rw [fragmentFor?_ofGraphs (by decide)]
  exact listed_withWholes leveled tell filled (List.append_nil _).symm mem

/-- What the whole of a type has selected in its turn is what comes out of the finished set. -/
theorem selectionsOf_withWholes (h : deepestFirst graphs = done ++ node :: todo) :
    (withWholes (deepestFirst graphs) done).selectionsOf node whole =
      (ofGraphs graphs).selectionsOf node whole := by
  refine selectionsOf_whole_congr node (fun field hfield hkind ↦ ?_) fun object part hpart hclosed ↦ ?_
  · obtain ⟨target, htarget, hname⟩ := nested_before leveled h hfield hkind
    have hmem : target ∈ deepestFirst graphs := h ▸ List.mem_append_left _ htarget
    rw [← hname, listed_withWholes leveled tell filled h htarget,
      fragmentFor?_whole leveled tell filled hmem]
  · calc (withWholes (deepestFirst graphs) done).fragmentFor? object part
        = (withWholes (deepestFirst graphs) (deepestFirst graphs)).fragmentFor? object part := by
          rw [fragmentFor?_withWholes hclosed, fragmentFor?_withWholes hclosed]
      _ = (ofGraphs graphs).fragmentFor? object part := (fragmentFor?_ofGraphs hpart graphs object).symm

/-- The whole of an object type takes all its fields, in their order. -/
theorem takes_whole (mem : node ∈ deepestFirst graphs) : List.Forall₂ ((ofGraphs graphs).Takes whole)
    node.fields.values ((ofGraphs graphs).selectionsOf node whole) := by
  obtain ⟨done, todo, h⟩ := List.append_of_mem mem
  refine forall₂_takes_whole fun field hfield hkind ↦ ?_
  obtain ⟨target, htarget, hname⟩ := nested_before leveled h hfield hkind
  have hmem : target ∈ deepestFirst graphs := h ▸ List.mem_append_left _ htarget
  rw [← hname, fragmentFor?_whole leveled tell filled hmem]
  rfl

/-- A fragment for a whole is that of an object type, and takes all fields of it in their order. -/
theorem whole_of_get? (h : (ofGraphs graphs).get? name = some fragment) (part : fragment.part = whole) :
    ∃ node ∈ deepestFirst graphs, name = nameFor node whole ∧ fragment.on = node.name ∧
      List.Forall₂ ((ofGraphs graphs).Takes whole) node.fields.values fragment.selections := by
  rcases get?_ofGraphs h with ⟨hcustom, -⟩ | hbuiltin
  · rw [part] at hcustom
    cases hcustom
  obtain ⟨done, node, todo, hsplit, hname, hwritten⟩ := exists_whole_turn hbuiltin part
  obtain ⟨-, rfl⟩ := fragmentOf?_eq_some_iff.mp hwritten
  have hmem : node ∈ deepestFirst graphs := hsplit ▸ by simp
  refine ⟨node, hmem, hname, rfl, ?_⟩
  rw [selectionsOf_withWholes leveled tell filled hsplit]
  exact takes_whole leveled tell filled hmem

end Leveled

end FragmentSet
end ResourceApi

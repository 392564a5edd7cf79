import ResourceApi.Proofs.Fragment.Rules
import ResourceApi.Proofs.Graph.Source

/-!
# Fragments that have settled

The passes decide on the selections of a part against a set that is still being filled.  When a task is
done, all that it reads is there already, and no later task changes it.  So the selections of each
fragment are those that come out when they are taken once more from the finished set, the table of the
parts tells exactly which of them are empty, and what a fragment spreads stands before it.
-/

namespace ResourceApi

namespace FragmentSet

open Fragment

variable {graphs : List TypeGraph} {objects : List TypeNode} {set next : FragmentSet}
  {node : TypeNode} {field : FieldNode} {task : Task} {done todo : List Task}
  {object part other name : String} {selection : Selection} {fragment : Fragment}

/-! ## Selections -/

/-- What the table of the parts has for a part of an object type: nothing, no fragment, or a name. -/
def listed? (set : FragmentSet) (object part : String) : Option (Option String) :=
  (set.parts.get? object).bind (·.get? part)

/-- The fragment of a part, if it selects anything. -/
def fragmentOf? (set : FragmentSet) (task : Task) : Option Fragment :=
  let selections := set.selectionsOf task.node task.part
  if selections.isEmpty then none else some ⟨task.name, task.node.name, task.part, selections⟩

theorem fragmentFor?_eq (set : FragmentSet) (object part : String) :
    set.fragmentFor? object part = (set.listed? object part).join := by
  unfold fragmentFor? listed?
  cases set.parts.get? object <;> rfl

theorem fragmentOf?_eq_some_iff : set.fragmentOf? task = some fragment ↔
    set.selectionsOf task.node task.part ≠ [] ∧
      ⟨task.name, task.node.name, task.part, set.selectionsOf task.node task.part⟩ = fragment := by
  unfold fragmentOf?
  dsimp only
  split <;> simp_all

theorem name_of_fragmentOf? (h : set.fragmentOf? task = some fragment) : fragment.name = task.name := by
  obtain ⟨-, rfl⟩ := fragmentOf?_eq_some_iff.mp h
  rfl

/-! ## What a task reads -/

/-- What is selected depends on a set only by the fragments that the task reads, and spreads no others. -/
structure Task.Covers (task : Task) (select : FragmentSet → List Selection) : Prop where
  congr : ∀ set next : FragmentSet, (∀ object other, task.Reads object other →
    set.fragmentFor? object other = next.fragmentFor? object other) → select set = select next
  spread : ∀ set : FragmentSet, ∀ selection ∈ select set, ∀ name, selection.spread? = some name →
    ∃ object other, task.Reads object other ∧ set.fragmentFor? object other = some name

namespace Task

theorem covers_const (task : Task) {selections : List Selection}
    (plain : ∀ selection ∈ selections, selection.spread? = none) :
    task.Covers fun _ ↦ selections where
  congr _ _ _ := rfl
  spread _ selection hselection name hname := by
    cases (plain selection hselection).symm.trans hname

theorem Covers.flatMap {α : Type} {items : List α} {select : FragmentSet → α → List Selection}
    (h : ∀ item ∈ items, task.Covers (select · item)) :
    task.Covers fun set ↦ items.flatMap (select set) where
  congr set next agree := List.flatMap_congr fun item hitem ↦ (h item hitem).congr set next agree
  spread set selection hselection name hname := by
    obtain ⟨item, hitem, hselected⟩ := List.mem_flatMap.mp hselection
    exact (h item hitem).spread set selection hselected name hname

theorem covers_spreadOf? (reads : task.Reads field.typeName other) :
    task.Covers fun set ↦ (set.spreadOf? field other).toList where
  congr set next agree := by
    unfold spreadOf?
    rw [agree _ _ reads]
  spread set selection hselection name hname := by
    obtain ⟨fragment, hfragment, rfl⟩ := Option.map_eq_some_iff.mp (Option.mem_toList.mp hselection)
    cases hname
    exact ⟨_, other, reads, hfragment⟩

theorem covers_referenceOf (reads : task.Reads field.typeName other) :
    task.Covers fun set ↦ [set.referenceOf field other] where
  congr set next agree := by
    unfold referenceOf spreadOf?
    rw [agree _ _ reads]
  spread set selection hselection name hname := by
    obtain rfl := List.mem_singleton.mp hselection
    unfold referenceOf spreadOf? at hname
    cases hfragment : set.fragmentFor? field.typeName other with
    | none =>
      rw [hfragment] at hname
      cases hname
    | some fragment =>
      rw [hfragment] at hname
      cases hname
      exact ⟨_, other, reads, hfragment⟩

/-- Leaves and identifiers depend on no other part. -/
theorem covers_plain (task : Task) (selection : Selection) (plain : selection.spread? = none) :
    task.Covers fun _ ↦ [selection] :=
  task.covers_const fun _ hselection ↦ List.mem_singleton.mp hselection ▸ plain

theorem reads_nested (mem : field ∈ task.node.fields.values) (kind : field.kind = .object)
    (same : other = task.part ∨ builtinParts.contains task.part = false) :
    task.Reads field.typeName other :=
  ⟨field, mem, rfl, .inl ⟨kind, same⟩⟩

theorem reads_referred (mem : field ∈ task.node.fields.values) (kind : field.kind = .reference)
    (lower : rank other < rank task.part) : task.Reads field.typeName other :=
  ⟨field, mem, rfl, .inr ⟨kind, lower⟩⟩

theorem covers_refsNone (h : task.part = refsNone) (mem : field ∈ task.node.fields.values) :
    task.Covers fun set ↦ (set.selectRefsNone field).toList := by
  unfold selectRefsNone
  cases kind : field.kind with
  | scalar => exact task.covers_plain (.field field.name) rfl
  | enumeration => exact task.covers_plain (.field field.name) rfl
  | object => exact covers_spreadOf? (reads_nested mem kind (.inl h.symm))
  | reference => exact task.covers_const fun _ hnone ↦ nomatch hnone

theorem covers_whole (h : task.part = whole) (mem : field ∈ task.node.fields.values) :
    task.Covers fun set ↦ (set.selectWhole field).toList := by
  have hrank : rank refsNone < rank task.part := h ▸ by decide
  unfold selectWhole
  cases kind : field.kind with
  | scalar => exact task.covers_plain (.field field.name) rfl
  | enumeration => exact task.covers_plain (.field field.name) rfl
  | object => exact covers_spreadOf? (reads_nested mem kind (.inl h.symm))
  | reference => exact covers_referenceOf (reads_referred mem kind hrank)

theorem covers_custom (custom : builtinParts.contains task.part = false)
    (entry : FragmentSelection) :
    task.Covers fun set ↦ (set.selectCustom task.node entry).toList := by
  unfold selectCustom
  cases hfield : task.node.fields.get? entry.fieldName with
  | none => exact task.covers_const fun _ hnone ↦ nomatch hnone
  | some field =>
    have mem : field ∈ task.node.fields.values := List.mem_map_of_mem (Entries.mem_of_get? hfield)
    simp only [Option.bind_eq_bind, Option.bind_some]
    cases kind : field.kind with
    | scalar => exact task.covers_plain (.field field.name) rfl
    | enumeration => exact task.covers_plain (.field field.name) rfl
    | object => exact covers_spreadOf? (reads_nested mem kind (.inr custom))
    | reference =>
      refine covers_referenceOf (reads_referred mem kind ?_)
      rw [rank_of_custom custom]
      cases hasked : entry.part?.filter builtinParts.contains with
      | none => decide
      | some asked => exact Nat.lt_succ_of_le (rank_of_builtin (Option.filter_eq_some_iff.mp hasked).2)

/-- The selections of a task depend only on what the task reads. -/
theorem covers_selectionsOf (task : Task) :
    task.Covers fun set ↦ set.selectionsOf task.node task.part := by
  unfold selectionsOf
  simp only [List.filterMap_eq_flatMap_toList]
  split_ifs with hscalars hrefs hobjects hwhole
  · refine Covers.flatMap fun field _ ↦ task.covers_const fun selection hselection ↦ ?_
    unfold selectScalarsOnly at hselection
    split at hselection <;> simp_all [Selection.spread?]
  · exact Covers.flatMap fun field hfield ↦ covers_refsNone hrefs hfield
  · refine Covers.flatMap fun field _ ↦ task.covers_const fun selection hselection ↦ ?_
    unfold selectObjectsNone at hselection
    split at hselection <;> simp_all [Selection.spread?]
  · exact Covers.flatMap fun field hfield ↦ covers_whole hwhole hfield
  · have hcustom : builtinParts.contains task.part = false := by
      simp [builtinParts, hscalars, hrefs, hobjects, hwhole]
    exact Covers.flatMap fun entry _ ↦ covers_custom hcustom entry

end Task

/-! ## One task -/

/-- Does a task: records what its part selects. -/
def generate (set : FragmentSet) (task : Task) : FragmentSet :=
  set.record task.node task.part (set.selectionsOf task.node task.part)

theorem parts_generate (set : FragmentSet) (task : Task) :
    (generate set task).parts = Entries.adjust task.node.name
      (Entries.put task.part ((set.fragmentOf? task).map Fragment.name)) set.parts := by
  unfold generate record fragmentOf?
  dsimp only
  split <;> rfl

/-- A task writes the entry of its own part, and no other. -/
theorem listed?_generate (announced : set.parts.has task.node.name = true) :
    (generate set task).listed? object part =
      if object = task.node.name ∧ part = task.part then
        some ((set.fragmentOf? task).map Fragment.name)
      else set.listed? object part := by
  obtain ⟨before, hbefore⟩ := Option.isSome_iff_exists.mp announced
  unfold listed?
  rw [parts_generate, Entries.get?_adjust]
  by_cases hobject : object = task.node.name
  · subst hobject
    rw [if_pos rfl, hbefore, Option.map_some, Option.bind_some, Option.bind_some]
    by_cases hpart : part = task.part
    · rw [hpart, Entries.get?_put_self, if_pos ⟨rfl, rfl⟩]
    · rw [Entries.get?_put_of_ne _ _ hpart, if_neg fun h ↦ hpart h.2]
  · rw [if_neg hobject, if_neg fun h ↦ hobject h.1]

theorem definitions_generate (fresh : task.name ∉ set.definitions.keys) :
    (generate set task).definitions =
      set.definitions ++ ((set.fragmentOf? task).map fun fragment ↦ (fragment.name, fragment)).toList := by
  unfold generate record fragmentOf?
  dsimp only
  split
  · exact (List.append_nil _).symm
  · exact Entries.put_of_not_mem fresh

/-! ## All tasks -/

/-- The tasks that are done have their final result: the definitions are the fragments of their parts, in
their order, and the table tells which parts have one. -/
structure Settled (done : List Task) (set : FragmentSet) : Prop where
  definitions : set.definitions =
    (done.filterMap set.fragmentOf?).map fun fragment ↦ (fragment.name, fragment)
  listed : ∀ task ∈ done, set.listed? task.node.name task.part =
    some ((set.fragmentOf? task).map Fragment.name)
  others : ∀ object part name, set.fragmentFor? object part = some name →
    ∃ task ∈ done, task.node.name = object ∧ task.part = part

/-- The second task writes nothing that the first one has written or has read. -/
structure Task.Apart (task later : Task) : Prop where
  names : task.name ≠ later.name
  places : task.node.name = later.node.name → task.part ≠ later.part
  unread : ¬task.Reads later.node.name later.part

theorem Settled.generate (h : Settled done set) (announced : set.parts.has task.node.name = true)
    (apart : ∀ earlier ∈ done, earlier.Apart task)
    (unread : ¬task.Reads task.node.name task.part) : Settled (done ++ [task]) (generate set task) := by
  have hkept : ∀ object part, ¬(object = task.node.name ∧ part = task.part) →
      (FragmentSet.generate set task).listed? object part = set.listed? object part :=
    fun object part hother ↦ by rw [listed?_generate announced, if_neg hother]
  -- nothing that one of the tasks reads has changed
  have hsame : ∀ earlier ∈ done ++ [task],
      (FragmentSet.generate set task).fragmentOf? earlier = set.fragmentOf? earlier := by
    intro earlier hearlier
    have hunread : ¬earlier.Reads task.node.name task.part := by
      rcases List.mem_append.mp hearlier with hdone | hnew
      · exact (apart earlier hdone).unread
      · rwa [List.mem_singleton.mp hnew]
    have hselections := earlier.covers_selectionsOf.congr (FragmentSet.generate set task) set
      fun object other hreads ↦ by
        rw [fragmentFor?_eq, fragmentFor?_eq, hkept object other]
        rintro ⟨rfl, rfl⟩
        exact hunread hreads
    unfold fragmentOf?
    rw [hselections]
  have hfresh : task.name ∉ set.definitions.keys := by
    rw [h.definitions, Entries.keys, List.map_map]
    intro hmem
    obtain ⟨fragment, hfragment, hname⟩ := List.mem_map.mp hmem
    obtain ⟨earlier, hearlier, hof⟩ := List.mem_filterMap.mp hfragment
    obtain ⟨-, rfl⟩ := fragmentOf?_eq_some_iff.mp hof
    exact (apart earlier hearlier).names hname
  refine ⟨?_, fun earlier hearlier ↦ ?_, fun object part name hname ↦ ?_⟩
  · calc (FragmentSet.generate set task).definitions
        = set.definitions ++
            ((set.fragmentOf? task).map fun fragment ↦ (fragment.name, fragment)).toList :=
          definitions_generate hfresh
      _ = ((done ++ [task]).filterMap set.fragmentOf?).map fun fragment ↦ (fragment.name, fragment) := by
          rw [h.definitions, List.filterMap_append, List.map_append]
          cases hof : set.fragmentOf? task <;> simp [hof]
      _ = _ := by rw [List.filterMap_congr hsame]
  · rw [hsame earlier hearlier, listed?_generate announced]
    rcases List.mem_append.mp hearlier with hdone | hnew
    · rw [if_neg fun hplace ↦ (apart earlier hdone).places hplace.1 hplace.2]
      exact h.listed earlier hdone
    · rw [List.mem_singleton.mp hnew, if_pos ⟨rfl, rfl⟩]
  · by_cases hplace : object = task.node.name ∧ part = task.part
    · exact ⟨task, List.mem_append_right _ (List.mem_singleton_self task), hplace.1.symm,
        hplace.2.symm⟩
    · rw [fragmentFor?_eq, hkept object part hplace, ← fragmentFor?_eq] at hname
      obtain ⟨earlier, hearlier, hobject, hpart⟩ := h.others object part name hname
      exact ⟨earlier, List.mem_append_left _ hearlier, hobject, hpart⟩

theorem has_generate (set : FragmentSet) (task : Task) (object : String) :
    (generate set task).parts.has object = set.parts.has object := by
  rw [Bool.eq_iff_iff, Entries.has_iff, Entries.has_iff, parts_generate, Entries.keys_adjust]

/-- Tasks that are apart settle, one after the other. -/
theorem Settled.foldl (h : Settled done set) (apart : (done ++ todo).Pairwise Task.Apart)
    (unread : ∀ task ∈ todo, ¬task.Reads task.node.name task.part)
    (announced : ∀ task ∈ todo, set.parts.has task.node.name = true) :
    Settled (done ++ todo) (todo.foldl FragmentSet.generate set) := by
  induction todo generalizing done set with
  | nil => rwa [List.append_nil]
  | cons task rest ih =>
    have hsplit : done ++ task :: rest = (done ++ [task]) ++ rest := by simp
    have hapart : ∀ earlier ∈ done, earlier.Apart task := fun earlier hearlier ↦
      (List.pairwise_append.mp apart).2.2 earlier hearlier task List.mem_cons_self
    have hstep := h.generate (announced task List.mem_cons_self) hapart
      (unread task List.mem_cons_self)
    rw [List.foldl_cons, hsplit]
    refine ih hstep (hsplit ▸ apart) (fun later hlater ↦ unread later (List.mem_cons_of_mem _ hlater))
      fun later hlater ↦ ?_
    rw [has_generate]
    exact announced later (List.mem_cons_of_mem _ hlater)

/-! ## The passes -/

theorem foldl_pass (parts : TypeNode → List String) (work : FragmentSet → TypeNode → FragmentSet)
    (h : ∀ node ∈ objects, ∀ set, work set node =
      ((parts node).map (Task.mk node)).foldl generate set) (set : FragmentSet) :
    objects.foldl work set = (pass parts objects).foldl generate set := by
  unfold pass
  rw [List.foldl_flatMap]
  exact List.foldl_ext _ _ _ fun set node hnode ↦ h node hnode set

/-- The custom parts of a type are its tasks, if they have different names. -/
theorem emitCustom_eq (distinct : (customParts node).Nodup) (set : FragmentSet) :
    emitCustom set node = ((customParts node).map (Task.mk node)).foldl generate set := by
  have hskip : emitCustom set node =
      (node.fragments.filter fun entry ↦ !builtinParts.contains entry.1).foldl
        (fun set entry ↦ set.record node entry.1 (entry.2.filterMap (set.selectCustom node))) set := by
    unfold emitCustom
    rw [List.foldl_filter]
    refine List.foldl_ext _ _ _ fun set ⟨part, entries⟩ _ ↦ ?_
    dsimp only
    cases builtinParts.contains part <;> rfl
  unfold customParts at distinct ⊢
  rw [hskip, List.map_map, List.foldl_map]
  refine List.foldl_ext _ _ _ fun set entry hentry ↦ ?_
  have hcustom : builtinParts.contains entry.1 = false := by
    simpa using (List.mem_filter.mp hentry).2
  have hfound : Entries.get? node.fragments entry.1 = some entry.2 := by
    have hget := Entries.get?_of_mem distinct hentry
    rwa [Entries.get?_filter_keys fun key ↦ !builtinParts.contains key, hcustom] at hget
  have hselections : set.selectionsOf node entry.1 = entry.2.filterMap (set.selectCustom node) := by
    rw [selectionsOf_custom (by simpa using hcustom), hfound, Option.getD_some]
  change _ = set.record node entry.1 (set.selectionsOf node entry.1)
  rw [hselections]

/-- All fragments are generated by the tasks, one after the other. -/
theorem ofGraphs_eq (distinct : ∀ node ∈ deepestFirst graphs, (customParts node).Nodup) :
    ofGraphs graphs = (tasks (deepestFirst graphs)).foldl generate
      ((deepestFirst graphs).foldl announce empty) := by
  unfold ofGraphs tasks
  dsimp only
  rw [foldl_pass (fun _ ↦ [scalarsOnly, refsNone]) emitClosed fun _ _ _ ↦ rfl,
    foldl_pass (fun _ ↦ [objectsNone]) (emit objectsNone fun _ ↦ selectObjectsNone) fun _ _ _ ↦ rfl,
    foldl_pass (fun _ ↦ [whole]) (emit whole selectWhole) fun _ _ _ ↦ rfl,
    foldl_pass customParts emitCustom fun node hnode set ↦ emitCustom_eq (distinct node hnode) set]
  simp only [List.foldl_append]

/-- At first nothing is generated. -/
theorem settled_announced (objects : List TypeNode) : Settled [] (objects.foldl announce empty) := by
  refine List.foldlRecOn objects announce (motive := Settled []) ⟨rfl, nofun, nofun⟩ ?_
  intro set h node _
  exact ⟨h.definitions, nofun, fun object part name hname ↦
    h.others object part name (fragmentFor?_announce hname)⟩

theorem has_announce (set : FragmentSet) (node : TypeNode) (object : String) :
    (announce set node).parts.has object = true ↔
      object = node.name ∨ set.parts.has object = true := by
  rw [Entries.has_iff, Entries.has_iff]
  exact Entries.mem_keys_put

/-- At first all types are listed. -/
theorem has_announced (set : FragmentSet) :
    (object ∈ objects.map TypeNode.name ∨ set.parts.has object = true) ↔
      (objects.foldl announce set).parts.has object = true := by
  induction objects generalizing set with
  | nil => simp
  | cons node rest ih =>
    rw [List.foldl_cons, ← ih, has_announce, List.map_cons, List.mem_cons]
    tauto

/-! ## Finished sets -/

/-- Object types of one name are of one segment and of one model type. -/
def NamesTell (objects : List TypeNode) : Prop :=
  ∀ node ∈ objects, ∀ other ∈ objects, node.name = other.name →
    node.segment = other.segment ∧ node.base = other.base

/-- No two parts of object types have fragments of one name. -/
def NamesDiffer (objects : List TypeNode) : Prop :=
  (objects.flatMap fun node ↦ (ownParts node).map (nameFor node)).Nodup

/-- Object types that are named after their segments and model types tell them by their names. -/
theorem namesTell_of_named (h : ∀ node ∈ objects, ∃ segment,
    node.segment = some segment ∧ node.name = objectTypeName segment node.base) :
    NamesTell objects := by
  intro node hnode other hother hname
  obtain ⟨segment, hsegment, hnamed⟩ := h node hnode
  obtain ⟨segment', hsegment', hnamed'⟩ := h other hother
  obtain ⟨rfl, hbase⟩ := objectTypeName_injective (hnamed.symm.trans (hname.trans hnamed'))
  exact ⟨hsegment.trans hsegment'.symm, hbase⟩

theorem NamesTell.nameFor_eq {other : TypeNode} (h : NamesTell objects) (hnode : node ∈ objects)
    (hother : other ∈ objects) (hname : node.name = other.name) (part : String) :
    nameFor node part = nameFor other part := by
  obtain ⟨hsegment, hbase⟩ := h node hnode other hother hname
  unfold nameFor
  rw [hsegment, hbase]

theorem NamesDiffer.tasks (h : NamesDiffer objects) :
    (tasks objects).Pairwise fun task later ↦ task.name ≠ later.name :=
  List.pairwise_map.mp ((perm_map_name_tasks objects).nodup_iff.mpr h)

theorem NamesDiffer.customParts (h : NamesDiffer objects) (hnode : node ∈ objects) :
    (customParts node).Nodup := by
  have hparts := (List.pairwise_flatMap.mp h).1 node hnode
  exact (List.nodup_append.mp (List.Nodup.of_map _ hparts)).2.1

/-- Object types whose fragments have different names have different names. -/
theorem NamesDiffer.names (h : NamesDiffer objects) (tell : NamesTell objects) :
    (objects.map TypeNode.name).Nodup := by
  refine List.pairwise_map.mpr (List.Pairwise.imp_of_mem ?_ (List.pairwise_flatMap.mp h).2)
  intro node other hnode hother hdiffer hname
  have hwhole : ∀ node, nameFor node whole ∈ (ownParts node).map (nameFor node) :=
    fun node ↦ List.mem_map_of_mem (List.mem_append_left _ (by decide))
  exact hdiffer _ (hwhole node) _ (hwhole other) (tell.nameFor_eq hnode hother hname whole)

/-- If object fields lead one level deeper and the names of fragments differ, all tasks settle. -/
theorem settled_ofGraphs (leveled : ∀ graph ∈ graphs, graph.Leveled)
    (tell : NamesTell (deepestFirst graphs)) (differ : NamesDiffer (deepestFirst graphs)) :
    Settled (tasks (deepestFirst graphs)) (ofGraphs graphs) ∧
      (tasks (deepestFirst graphs)).Pairwise Task.Precedes ∧
      ∀ task ∈ tasks (deepestFirst graphs), ¬task.Reads task.node.name task.part := by
  obtain ⟨order, loopless⟩ := pairwise_not_nests leveled (differ.names tell)
  have hprecedes := pairwise_tasks order loopless
  have hself : ∀ task ∈ tasks (deepestFirst graphs), ¬task.Reads task.node.name task.part :=
    fun task htask ↦ Task.Precedes.unread (.inr ⟨rfl, loopless _ (mem_tasks.mp htask).1⟩)
  have hapart : (tasks (deepestFirst graphs)).Pairwise Task.Apart := by
    refine List.Pairwise.imp_of_mem ?_ (differ.tasks.and hprecedes)
    rintro task later htask hlater ⟨hname, hread⟩
    refine ⟨hname, fun hobject hpart ↦ hname ?_, hread.unread⟩
    have hsame := tell.nameFor_eq (mem_tasks.mp htask).1 (mem_tasks.mp hlater).1 hobject task.part
    unfold Task.name
    rw [hsame, hpart]
  rw [ofGraphs_eq fun node hnode ↦ differ.customParts hnode]
  refine ⟨(settled_announced _).foldl (by rwa [List.nil_append]) hself fun task htask ↦ ?_,
    hprecedes, hself⟩
  exact (has_announced empty).mp (.inl (List.mem_map_of_mem (mem_tasks.mp htask).1))

/-- What a fragment spreads is defined before it. -/
theorem Settled.defined_before (h : Settled done set) (order : done.Pairwise Task.Precedes)
    (unread : ∀ task ∈ done, ¬task.Reads task.node.name task.part) {front back : Entries Fragment}
    (place : set.definitions = front ++ (name, fragment) :: back) :
    fragment.name = name ∧ ∀ spread ∈ fragment.spreads, spread ∈ front.keys := by
  rw [h.definitions] at place
  obtain ⟨before, after, hfragments, rfl, hafter⟩ := List.map_eq_append_iff.mp place
  obtain ⟨_, later, rfl, heq, -⟩ := List.map_eq_cons_iff.mp hafter
  obtain ⟨rfl, rfl⟩ := Prod.mk.inj heq
  obtain ⟨first, second, rfl, rfl, hsecond⟩ := List.filterMap_eq_append_iff.mp hfragments
  obtain ⟨empty, task, rest, rfl, hempty, htask, -⟩ := List.filterMap_eq_cons_iff.mp hsecond
  refine ⟨rfl, fun spread hspread ↦ ?_⟩
  obtain ⟨selection, hselection, hspreads⟩ := List.mem_filterMap.mp hspread
  obtain ⟨-, rfl⟩ := fragmentOf?_eq_some_iff.mp htask
  obtain ⟨object, part, hreads, hfound⟩ :=
    task.covers_selectionsOf.spread set selection hselection spread hspreads
  obtain ⟨earlier, hearlier, rfl, rfl⟩ := h.others object part spread hfound
  rw [fragmentFor?_eq, h.listed earlier hearlier, Option.join_some] at hfound
  obtain ⟨target, htarget, rfl⟩ := Option.map_eq_some_iff.mp hfound
  have horder := (List.pairwise_append.mp (List.pairwise_append.mp order).2.1).2.1
  -- the fragment is that of a task that comes before
  simp only [List.mem_append, List.mem_cons] at hearlier
  rcases hearlier with hfirst | hnone | rfl | hrest
  · rw [Entries.keys, List.map_map]
    exact List.mem_map.mpr ⟨target, List.mem_filterMap.mpr ⟨earlier, hfirst, htarget⟩, rfl⟩
  · cases (hempty earlier hnone).symm.trans htarget
  · exact absurd hreads (unread _ (by simp))
  · exact absurd hreads ((List.pairwise_cons.mp horder).1 earlier hrest).unread

/-- The fragments that are found are those of the tasks. -/
theorem Settled.get?_eq_some_iff (h : Settled done set)
    (names : done.Pairwise fun task later ↦ task.name ≠ later.name) :
    set.get? name = some fragment ↔
      ∃ task ∈ done, set.fragmentOf? task = some fragment ∧ task.name = name := by
  have hdistinct : set.definitions.keys.Nodup := by
    rw [h.definitions, Entries.keys, List.map_map, List.Nodup, List.pairwise_map,
      List.pairwise_filterMap]
    refine names.imp fun hne fragment hof later hlater heq ↦ hne ?_
    exact (name_of_fragmentOf? hof).symm.trans (heq.trans (name_of_fragmentOf? hlater))
  unfold FragmentSet.get?
  rw [Entries.get?_eq_some_iff hdistinct, h.definitions]
  constructor
  · intro hmem
    obtain ⟨found, hfound, heq⟩ := List.mem_map.mp hmem
    obtain ⟨rfl, rfl⟩ := Prod.mk.inj heq
    obtain ⟨task, htask, hof⟩ := List.mem_filterMap.mp hfound
    exact ⟨task, htask, hof, (name_of_fragmentOf? hof).symm⟩
  · rintro ⟨task, htask, hof, rfl⟩
    rw [← name_of_fragmentOf? hof]
    exact List.mem_map_of_mem (List.mem_filterMap.mpr ⟨task, htask, hof⟩)

/-- The fragments of graphs whose object fields lead one level deeper, where no two parts of object types
have fragments of one name.  Object types of one name are taken to be of one segment and of one model type,
as they are in all graphs of schemas, where types are named after both.  What a fragment spreads is defined
before it.  Each own part of each object type selects what its rule gives where the fragments of other parts
are looked up in the finished set; the table has no fragment for it exactly if that is nothing, and there
are no other fragments. -/
theorem ofGraphs_settled (graphs : List TypeGraph) (leveled : ∀ graph ∈ graphs, graph.Leveled)
    (tell : NamesTell (deepestFirst graphs)) (differ : NamesDiffer (deepestFirst graphs)) :
    (∀ front name fragment back,
      (ofGraphs graphs).definitions = front ++ (name, fragment) :: back →
        fragment.name = name ∧ ∀ spread ∈ fragment.spreads, spread ∈ Entries.keys front) ∧
    (∀ graph ∈ graphs, ∀ level, ∀ node ∈ graph.objectsAt level, ∀ part ∈ ownParts node,
      (∀ selections, (ofGraphs graphs).PartRule node part selections ↔
        (ofGraphs graphs).selectionsOf node part = selections) ∧
      ((ofGraphs graphs).selectionsOf node part = [] →
        (ofGraphs graphs).listed? node.name part = some none) ∧
      ((ofGraphs graphs).selectionsOf node part ≠ [] →
        (ofGraphs graphs).listed? node.name part = some (some (nameFor node part)) ∧
        (ofGraphs graphs).get? (nameFor node part) = some ⟨nameFor node part, node.name, part,
          (ofGraphs graphs).selectionsOf node part⟩)) ∧
    ∀ name fragment, (ofGraphs graphs).get? name = some fragment →
      ∃ graph ∈ graphs, ∃ level, ∃ node ∈ graph.objectsAt level, ∃ part ∈ ownParts node,
        (ofGraphs graphs).selectionsOf node part ≠ [] ∧ name = nameFor node part ∧
        fragment = ⟨name, node.name, part, (ofGraphs graphs).selectionsOf node part⟩ := by
  obtain ⟨hsettled, hprecedes, hself⟩ := settled_ofGraphs leveled tell differ
  generalize ofGraphs graphs = set at hsettled ⊢
  refine ⟨fun front name fragment back ↦ hsettled.defined_before hprecedes hself, ?_, ?_⟩
  · intro graph hgraph level node hnode part hpart
    have htask : (⟨node, part⟩ : Task) ∈ tasks (deepestFirst graphs) :=
      mem_tasks.mpr ⟨mem_deepestFirst_iff.mpr ⟨graph, hgraph, level, hnode⟩, hpart⟩
    have hlisted : set.listed? node.name part = _ := hsettled.listed _ htask
    refine ⟨fun _ ↦ partRule_iff hpart, fun hnothing ↦ ?_, fun hselects ↦ ?_⟩
    · have hnone : set.fragmentOf? ⟨node, part⟩ = none := by simp [fragmentOf?, hnothing]
      rw [hlisted, hnone, Option.map_none]
    · have hfragment : set.fragmentOf? ⟨node, part⟩ =
          some ⟨nameFor node part, node.name, part, set.selectionsOf node part⟩ :=
        fragmentOf?_eq_some_iff.mpr ⟨hselects, rfl⟩
      refine ⟨?_, (hsettled.get?_eq_some_iff differ.tasks).mpr ⟨_, htask, hfragment, rfl⟩⟩
      rw [hlisted, hfragment, Option.map_some]
  · intro name fragment hfragment
    obtain ⟨task, htask, hof, rfl⟩ := (hsettled.get?_eq_some_iff differ.tasks).mp hfragment
    obtain ⟨hnode, hpart⟩ := mem_tasks.mp htask
    obtain ⟨graph, hgraph, level, hobject⟩ := mem_deepestFirst_iff.mp hnode
    obtain ⟨hselects, rfl⟩ := fragmentOf?_eq_some_iff.mp hof
    exact ⟨graph, hgraph, level, task.node, hobject, task.part, hpart, hselects, rfl, rfl⟩

/-- Users with an address and a friend, and a custom part of both: the part selects them by fragments. -/
theorem ofGraphs_settled_users :
    let address : SchemaNode := ⟨none, [("city", .primitive "String")], []⟩
    let table : FieldAttributes := ⟨none, none, none, none, some address, false, none, none, .null⟩
    let friend : FieldAttributes := ⟨none, none, some "User", none, none, false, none, none, .null⟩
    let schema : ResourceSchema :=
      ⟨"User", ⟨none, [("address", .attributes table), ("friend", .attributes friend)],
        [("Card", [.nested "address" "Whole", .field "friend"])]⟩, [], [], none⟩
    ∃ graph, TypeGraph.ofSchema ⟨[]⟩ schema .full [] = .ok graph ∧ graph.Leveled ∧
      NamesTell (deepestFirst [graph]) ∧ NamesDiffer (deepestFirst [graph]) ∧
      ∃ node ∈ graph.objectsAt 0, "Card" ∈ ownParts node ∧
        (ofGraphs [graph]).get? (nameFor node "Card") = some ⟨nameFor node "Card", node.name, "Card",
          [.spread "address" "SelfUserAddressWholeFragment",
            .spread "friend" "MixedUserRefsNoneFragment"]⟩ := by
  intro address table friend schema
  let selected : List Selection := [.spread "address" "SelfUserAddressWholeFragment",
    .spread "friend" "MixedUserRefsNoneFragment"]
  obtain ⟨graph, hgraph, hchecks⟩ : ∃ graph, TypeGraph.ofSchema ⟨[]⟩ schema .full [] = .ok graph ∧
      (decide (deepestFirst [graph] |>.flatMap fun node ↦ (ownParts node).map (nameFor node)).Nodup &&
        (graph.objectsAt 0).any fun node ↦ (ownParts node).contains "Card" &&
          (ofGraphs [graph]).selectionsOf node "Card" == selected) = true :=
    Except.exists_of_passes (by decide +kernel)
  simp only [Bool.and_eq_true, decide_eq_true_iff, List.any_eq_true, beq_iff_eq,
    List.contains_iff_mem] at hchecks
  obtain ⟨hdiffer, node, hnode, hcard, hselected⟩ := hchecks
  have hleveled := Synthesis.ofSchema_leveled hgraph
  have htell : NamesTell (deepestFirst [graph]) := by
    refine namesTell_of_named fun node hnode ↦ ?_
    obtain ⟨_, hmem, level, hobject⟩ := mem_deepestFirst_iff.mp hnode
    obtain rfl := List.mem_singleton.mp hmem
    obtain ⟨name, hentry, hkind⟩ := TypeGraph.mem_objectsAt.mp hobject
    exact ((Synthesis.ofSchema_described hgraph hentry).2.2 hkind).segment
  obtain ⟨-, hparts, -⟩ := ofGraphs_settled [graph]
    (fun _ hmem ↦ List.mem_singleton.mp hmem ▸ hleveled) htell hdiffer
  have hselects : (ofGraphs [graph]).selectionsOf node "Card" ≠ [] := by
    rw [hselected]
    exact List.cons_ne_nil _ _
  obtain ⟨-, hfound⟩ :=
    (hparts graph (List.mem_singleton_self graph) 0 node hnode "Card" hcard).2.2 hselects
  rw [hselected] at hfound
  exact ⟨graph, hgraph, hleveled, htell, hdiffer, node, hnode, hcard, hfound⟩

end FragmentSet
end ResourceApi

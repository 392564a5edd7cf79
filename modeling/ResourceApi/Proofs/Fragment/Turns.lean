import ResourceApi.Proofs.Fragment.Settled

/-!
# Turns

The passes over the built-in parts are tasks that are done one after the other, whatever the names of the
fragments are; the custom parts come after them.  A fragment of a built-in part was written by a task in
its turn, with the set that the tasks before it had left behind, and every name that a set lists for a
part is that of a task for the part.  The name of a fragment tells which built-in part it is for.
-/

namespace ResourceApi

namespace FragmentSet

open Fragment

variable {graphs : List TypeGraph} {objects : List TypeNode} {set : FragmentSet} {node other : TypeNode}
  {task : Task} {done todo : List Task} {object part part' name : String} {fragment : Fragment}
  {selections : List Selection}

theorem eq_of_nameFor (mem : part ∈ builtinParts) (mem' : part' ∈ builtinParts)
    (h : nameFor node part = nameFor other part') : part = part' := by
  unfold nameFor at h
  exact (eq_of_append_builtin mem mem' (String.append_left_inj _ |>.mp h)).2

/-! ## Recording -/

/-- Recording a part touches the table at this part only. -/
theorem fragmentFor?_record_of_ne (h : part ≠ part') (object : String) :
    (set.record node part' selections).fragmentFor? object part = set.fragmentFor? object part := by
  have hput : ∀ value, fragmentFor? ⟨set.definitions, Entries.adjust node.name
      (Entries.put part' value) set.parts⟩ object part = set.fragmentFor? object part := by
    intro value
    unfold fragmentFor?
    rw [Entries.get?_adjust]
    split
    · cases set.parts.get? object with
      | none => rfl
      | some parts =>
        rw [Option.map_some, Option.bind_some, Option.bind_some, Entries.get?_put_of_ne _ _ h]
    · rfl
  unfold FragmentSet.record
  split
  · exact hput none
  · exact hput _

/-- A definition after recording a part holds what was recorded, or it was there before. -/
theorem get?_record (h : (set.record node part selections).get? name = some fragment) :
    fragment.part = part ∧ fragment.selections ≠ [] ∨ set.get? name = some fragment := by
  unfold FragmentSet.record at h
  split at h
  · exact .inr h
  · rename_i hselections
    unfold FragmentSet.get? at h
    by_cases hname : name = nameFor node part
    · rw [hname, Entries.get?_put_self] at h
      obtain rfl := Option.some.inj h
      exact .inl ⟨rfl, mt List.isEmpty_iff.mpr hselections⟩
    · rw [Entries.get?_put_of_ne _ _ hname] at h
      exact .inr h

theorem get?_generate (set : FragmentSet) (task : Task) (name : String) :
    (generate set task).get? name =
      if name = task.name then (set.fragmentOf? task).or (set.get? name) else set.get? name := by
  unfold generate FragmentSet.record fragmentOf?
  dsimp only
  split
  · rw [Option.none_or, ite_self]
    rfl
  · unfold FragmentSet.get?
    by_cases hname : name = task.name
    · rw [if_pos hname, hname]
      exact Entries.get?_put_self _ _ _
    · rw [if_neg hname]
      exact Entries.get?_put_of_ne _ _ hname _ _

/-! ## Runs of tasks -/

/-- A definition that tasks leave behind was written by one of them in its turn, or was there before. -/
theorem exists_turn (h : (todo.foldl generate set).get? name = some fragment) :
    set.get? name = some fragment ∨ ∃ done task rest, todo = done ++ task :: rest ∧ task.name = name ∧
      (done.foldl generate set).fragmentOf? task = some fragment := by
  induction todo generalizing set with
  | nil => exact .inl h
  | cons task rest ih =>
    rcases ih h with hset | ⟨done, later, rest, rfl, hname, hwritten⟩
    · rw [get?_generate] at hset
      by_cases hname : name = task.name
      · rw [if_pos hname, Option.or_eq_some_iff] at hset
        rcases hset with hwritten | ⟨-, hbefore⟩
        · exact .inr ⟨[], task, rest, rfl, hname.symm, hwritten⟩
        · exact .inl hbefore
      · rw [if_neg hname] at hset
        exact .inl hset
    · exact .inr ⟨task :: done, later, rest, rfl, hname, hwritten⟩

/-- A name that is listed for a part is that of a task for the part, or was listed before. -/
theorem exists_task_of_listed (h : (todo.foldl generate set).fragmentFor? object part = some name) :
    set.fragmentFor? object part = some name ∨
      ∃ task ∈ todo, task.node.name = object ∧ task.part = part ∧ task.name = name := by
  induction todo generalizing set with
  | nil => exact .inl h
  | cons task rest ih =>
    rcases ih h with hset | ⟨later, hlater, hplace⟩
    · have hparts : (generate set task).fragmentFor? object part =
          fragmentFor? ⟨set.definitions, Entries.adjust task.node.name
            (Entries.put task.part ((set.fragmentOf? task).map Fragment.name)) set.parts⟩ object part := by
        unfold fragmentFor?
        rw [parts_generate]
      rw [hparts] at hset
      rcases fragmentFor?_adjust hset with ⟨hobject, hpart, hname⟩ | hbefore
      · obtain ⟨fragment, hfragment, rfl⟩ := Option.map_eq_some_iff.mp hname
        exact .inr ⟨task, List.mem_cons_self, hobject.symm, hpart.symm,
          (name_of_fragmentOf? hfragment).symm⟩
      · exact .inl hbefore
    · exact .inr ⟨later, List.mem_cons_of_mem _ hlater, hplace⟩

/-- Tasks for other parts leave the table at a part as it is. -/
theorem fragmentFor?_foldl_of_ne (h : ∀ task ∈ todo, part ≠ task.part) (object : String) :
    (todo.foldl generate set).fragmentFor? object part = set.fragmentFor? object part := by
  induction todo generalizing set with
  | nil => rfl
  | cons task rest ih =>
    rw [List.foldl_cons, ih fun later hlater ↦ h later (List.mem_cons_of_mem _ hlater)]
    exact fragmentFor?_record_of_ne (h task List.mem_cons_self) object

theorem has_foldl_generate (todo : List Task) (set : FragmentSet) (object : String) :
    (todo.foldl generate set).parts.has object = set.parts.has object := by
  induction todo generalizing set with
  | nil => rfl
  | cons task rest ih => rw [List.foldl_cons, ih, has_generate]

/-! ## The built-in parts -/

/-- The tasks for the parts that hold whole objects in no way. -/
def closedTasks (objects : List TypeNode) : List Task :=
  pass (fun _ ↦ [scalarsOnly, refsNone]) objects ++ pass (fun _ ↦ [objectsNone]) objects

def wholeTasks (objects : List TypeNode) : List Task := pass (fun _ ↦ [whole]) objects

/-- The tasks for the built-in parts, in the order in which they are done. -/
def builtinTasks (objects : List TypeNode) : List Task := closedTasks objects ++ wholeTasks objects

/-- The set that tasks leave behind when all object types have been announced. -/
def leave (objects : List TypeNode) (done : List Task) : FragmentSet :=
  done.foldl generate (objects.foldl announce empty)

theorem mem_closedTasks (h : task ∈ closedTasks objects) :
    task.node ∈ objects ∧ task.part ∈ builtinParts ∧ task.part ≠ whole := by
  rcases List.mem_append.mp h with h | h <;> obtain ⟨hnode, hpart⟩ := mem_pass.mp h <;>
    refine ⟨hnode, ?_⟩ <;> revert hpart <;> generalize task.part = part
  · exact (by decide : ∀ part ∈ [scalarsOnly, refsNone], part ∈ builtinParts ∧ part ≠ whole) part
  · exact (by decide : ∀ part ∈ [objectsNone], part ∈ builtinParts ∧ part ≠ whole) part

theorem wholeTasks_eq (objects : List TypeNode) :
    wholeTasks objects = objects.map fun node ↦ ⟨node, whole⟩ :=
  List.map_eq_flatMap.symm

theorem mem_builtinTasks (h : task ∈ builtinTasks objects) :
    task.node ∈ objects ∧ task.part ∈ builtinParts := by
  rcases List.mem_append.mp h with h | h
  · exact ⟨(mem_closedTasks h).1, (mem_closedTasks h).2.1⟩
  · rw [wholeTasks_eq] at h
    obtain ⟨node, hnode, rfl⟩ := List.mem_map.mp h
    exact ⟨hnode, List.mem_cons_self⟩

theorem fragmentFor?_announced (objects : List TypeNode) (object part : String) :
    (objects.foldl announce empty).fragmentFor? object part = none := by
  cases h : (objects.foldl announce empty).fragmentFor? object part with
  | none => rfl
  | some name =>
    obtain ⟨task, htask, -⟩ := (settled_announced objects).others object part name h
    cases htask

theorem get?_announced_eq_none (objects : List TypeNode) (name : String) :
    (objects.foldl announce empty).get? name = none := by
  unfold FragmentSet.get?
  rw [(settled_announced objects).definitions]
  rfl

/-- A definition was written by a task in its turn. -/
theorem exists_turn_of_leave (h : (leave objects todo).get? name = some fragment) :
    ∃ done task rest, todo = done ++ task :: rest ∧ task.name = name ∧
      (leave objects done).fragmentOf? task = some fragment := by
  rcases exists_turn h with hbefore | hturn
  · cases (get?_announced_eq_none objects name).symm.trans hbefore
  · exact hturn

/-- A name that is listed for a part is that of a task for the part. -/
theorem exists_task_of_leave (h : (leave objects todo).fragmentFor? object part = some name) :
    ∃ task ∈ todo, task.node.name = object ∧ task.part = part ∧ task.name = name := by
  rcases exists_task_of_listed h with hbefore | htask
  · cases (fragmentFor?_announced objects object part).symm.trans hbefore
  · exact htask

/-- What is defined under the name of a fragment for a built-in part is for this part. -/
theorem part_of_get?_leave (todo_builtin : ∀ task ∈ todo, task.part ∈ builtinParts)
    (mem : part ∈ builtinParts) (h : (leave objects todo).get? (nameFor node part) = some fragment) :
    fragment.part = part := by
  obtain ⟨done, task, rest, rfl, hname, hwritten⟩ := exists_turn_of_leave h
  obtain ⟨-, rfl⟩ := fragmentOf?_eq_some_iff.mp hwritten
  exact eq_of_nameFor (todo_builtin task (by simp)) mem hname

/-- The custom parts come after the built-in ones. -/
theorem ofGraphs_eq_foldl (graphs : List TypeGraph) : ofGraphs graphs =
    (deepestFirst graphs).foldl emitCustom
      (leave (deepestFirst graphs) (builtinTasks (deepestFirst graphs))) := by
  unfold ofGraphs leave builtinTasks closedTasks wholeTasks
  dsimp only
  rw [foldl_pass (fun _ ↦ [scalarsOnly, refsNone]) emitClosed fun _ _ _ ↦ rfl,
    foldl_pass (fun _ ↦ [objectsNone]) (emit objectsNone fun _ ↦ selectObjectsNone) fun _ _ _ ↦ rfl,
    foldl_pass (fun _ ↦ [whole]) (emit whole selectWhole) fun _ _ _ ↦ rfl]
  simp only [List.foldl_append]

end FragmentSet
end ResourceApi

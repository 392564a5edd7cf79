import Mathlib.Data.List.Perm.Basic
import ResourceApi.Proofs.Fragment.Generation
import ResourceApi.Proofs.Graph.Targets

/-!
# The order of generation

The passes generate one part of one object type after the other.  A part looks at parts of the types
that its fields lead to: for nested objects at the same part, or at any part if it is a custom one, and
for references at parts of lower rank.  Passes go up in rank, and within a pass the object types are
taken from the deepest level up, so no part looks at itself or at a part that comes later.
-/

namespace ResourceApi

/-- An object field of the first type leads to the second one. -/
def TypeNode.Nests (node other : TypeNode) : Prop :=
  ∃ field ∈ node.fields.values, field.kind = .object ∧ field.typeName = other.name

namespace Fragment

/-- The custom parts of a type; those that are called like a built-in part are none. -/
def customParts (node : TypeNode) : List String :=
  (node.fragments.filter fun entry ↦ !builtinParts.contains entry.1).map Prod.fst

/-- The parts that a type has of its own: the built-in ones, and its custom parts. -/
def ownParts (node : TypeNode) : List String := builtinParts ++ customParts node

theorem custom_of_mem {node : TypeNode} {part : String} (h : part ∈ customParts node) :
    builtinParts.contains part = false := by
  obtain ⟨entry, hentry, rfl⟩ := List.mem_map.mp h
  simpa using (List.mem_filter.mp hentry).2

/-- The pass that generates a part: the closed parts come first, then those without nested objects, then
the whole, and the custom parts last. -/
def turn (part : String) : Nat :=
  if part = whole then 2 else if part = objectsNone then 1 else if builtinParts.contains part then 0
  else 3

theorem turn_le_three (part : String) : turn part ≤ 3 := by
  unfold turn
  split_ifs <;> omega

theorem turn_of_custom {part : String} (h : builtinParts.contains part = false) : turn part = 3 := by
  have hwhole : part ≠ whole := by
    rintro rfl
    cases h
  have hobjects : part ≠ objectsNone := by
    rintro rfl
    cases h
  unfold turn
  rw [if_neg hwhole, if_neg hobjects, if_neg (Bool.eq_false_iff.mp h)]

/-- Later passes generate parts of the same or a higher rank. -/
theorem rank_le_rank {part later : String} (h : turn part ≤ turn later) : rank part ≤ rank later := by
  have hrank : ∀ part, rank part = turn part - 1 := by
    intro part
    by_cases hobjects : part = objectsNone
    · subst hobjects
      decide
    · unfold rank turn
      rw [if_neg hobjects]
      split_ifs <;> rfl
  rw [hrank, hrank]
  exact Nat.sub_le_sub_right h 1

end Fragment

namespace FragmentSet

open Fragment

variable {graphs : List TypeGraph} {graph graph' : TypeGraph} {objects : List TypeNode}
  {node other : TypeNode} {level upper lower : Nat}

/-! ## From the deepest level up -/

/-- The number of levels of the deepest graph. -/
def depth (graphs : List TypeGraph) : Nat :=
  (graphs.map fun graph ↦ graph.levels.length).foldl max 0

/-- The object types of one level of all graphs. -/
def layer (graphs : List TypeGraph) (level : Nat) : List TypeNode :=
  graphs.flatMap fun graph ↦ graph.objectsAt level

theorem deepestFirst_eq (graphs : List TypeGraph) :
    deepestFirst graphs = (List.range (depth graphs)).reverse.flatMap (layer graphs) := rfl

theorem lt_depth (h : node ∈ layer graphs level) : level < depth graphs := by
  obtain ⟨graph, hgraph, hnode⟩ := List.mem_flatMap.mp h
  have hlevel : level < graph.levels.length := by
    by_contra hbeyond
    have hnone : graph.levels[level]? = none := List.getElem?_eq_none (Nat.le_of_not_lt hbeyond)
    simp [TypeGraph.objectsAt, hnone, Entries.values] at hnode
  have hlength : graph.levels.length ∈ graphs.map fun graph ↦ graph.levels.length :=
    List.mem_map_of_mem hgraph
  have hdepth : graph.levels.length ≤ depth graphs := by
    unfold depth
    rw [List.foldl_max]
    exact Nat.le_trans (List.le_max?_getD_of_mem hlength) (Nat.le_max_right _ _)
  exact Nat.lt_of_lt_of_le hlevel hdepth

theorem mem_layer : node ∈ layer graphs level ↔ ∃ graph ∈ graphs, node ∈ graph.objectsAt level :=
  List.mem_flatMap

/-- All object types are taken. -/
theorem mem_deepestFirst_iff :
    node ∈ deepestFirst graphs ↔ ∃ graph ∈ graphs, ∃ level, node ∈ graph.objectsAt level := by
  rw [deepestFirst_eq]
  simp only [List.mem_flatMap, List.mem_reverse, List.mem_range]
  constructor
  · rintro ⟨level, -, h⟩
    obtain ⟨graph, hgraph, hnode⟩ := mem_layer.mp h
    exact ⟨graph, hgraph, level, hnode⟩
  · rintro ⟨graph, hgraph, level, hnode⟩
    have hlayer := mem_layer.mpr ⟨graph, hgraph, hnode⟩
    exact ⟨level, lt_depth hlayer, hlayer⟩

/-- The levels are taken from the last one down. -/
theorem pairwise_levels (graphs : List TypeGraph) :
    (List.range (depth graphs)).reverse.Pairwise (· > ·) :=
  List.pairwise_reverse.mpr List.pairwise_lt_range

/-- If no two object types have one name, those of different levels have different names. -/
theorem name_ne_of_lt (names : ((deepestFirst graphs).map TypeNode.name).Nodup)
    (hnode : node ∈ layer graphs upper) (hother : other ∈ layer graphs lower) (h : lower < upper) :
    node.name ≠ other.name := by
  rw [deepestFirst_eq, List.Nodup, List.pairwise_map, List.pairwise_flatMap,
    List.pairwise_reverse] at names
  have hlevels := List.pairwise_iff_getElem.mp names.2 lower upper
  have hupper := lt_depth hnode
  simp only [List.length_range, List.getElem_range] at hlevels
  exact hlevels (Nat.lt_trans h hupper) hupper h node hnode other hother

/-- An object type leads to none of its own level, and to none above. -/
theorem not_nests_of_le (leveled : ∀ graph ∈ graphs, graph.Leveled)
    (names : ((deepestFirst graphs).map TypeNode.name).Nodup)
    (hnode : node ∈ layer graphs upper) (hother : other ∈ layer graphs lower) (h : lower ≤ upper) :
    ¬node.Nests other := by
  rintro ⟨field, hfield, hkind, hname⟩
  obtain ⟨graph, hgraph, hobject⟩ := mem_layer.mp hnode
  obtain ⟨target, htarget, hsame⟩ := leveled graph hgraph upper node hobject field hfield hkind
  have hlayer : target ∈ layer graphs (upper + 1) := mem_layer.mpr ⟨graph, hgraph, htarget⟩
  exact name_ne_of_lt names hlayer hother (Nat.lt_succ_of_le h) (hsame.trans hname)

/-- No object type leads to itself or to one that is taken later. -/
theorem pairwise_not_nests (leveled : ∀ graph ∈ graphs, graph.Leveled)
    (names : ((deepestFirst graphs).map TypeNode.name).Nodup) :
    (deepestFirst graphs).Pairwise (fun node other ↦ ¬node.Nests other) ∧
      ∀ node ∈ deepestFirst graphs, ¬node.Nests node := by
  constructor
  · rw [deepestFirst_eq, List.pairwise_flatMap]
    constructor
    · intro level _
      refine List.Pairwise.imp_of_mem (R := fun _ _ ↦ True) (fun hnode hother _ ↦ ?_)
        (List.pairwise_of_forall fun _ _ ↦ trivial)
      exact not_nests_of_le leveled names hnode hother (Nat.le_refl level)
    · exact (pairwise_levels graphs).imp fun hlevels node hnode other hother ↦
        not_nests_of_le leveled names hnode hother (Nat.le_of_lt hlevels)
  · intro node hnode
    obtain ⟨graph, hgraph, level, hobject⟩ := mem_deepestFirst_iff.mp hnode
    have hlayer := mem_layer.mpr ⟨graph, hgraph, hobject⟩
    exact not_nests_of_le leveled names hlayer hlayer (Nat.le_refl level)

/-! ## Tasks -/

/-- A part of an object type that is to be generated. -/
structure Task where
  node : TypeNode
  part : String

namespace Task

/-- The name of the fragment for the part. -/
def name (task : Task) : String := nameFor task.node task.part

/-- What the part selects may depend on the fragment of another part of a type: that of a nested object
for the same part, or for any part if the part is a custom one, and that of a reference for a part of
lower rank. -/
def Reads (task : Task) (object other : String) : Prop :=
  ∃ field ∈ task.node.fields.values, field.typeName = object ∧
    (field.kind = .object ∧ (other = task.part ∨ builtinParts.contains task.part = false) ∨
      field.kind = .reference ∧ rank other < rank task.part)

/-- The first task is done in an earlier pass, or in the same one and for a type that does not lead to
that of the second. -/
def Precedes (task later : Task) : Prop :=
  turn task.part < turn later.part ∨
    turn task.part = turn later.part ∧ ¬task.node.Nests later.node

/-- What a task reads is done before it. -/
theorem Precedes.unread {task later : Task} (h : task.Precedes later) :
    ¬task.Reads later.node.name later.part := by
  rintro ⟨field, hfield, hname, ⟨hkind, hpart⟩ | ⟨-, hrank⟩⟩
  · rcases h with hturn | ⟨-, hnests⟩
    · rcases hpart with hsame | hcustom
      · exact Nat.ne_of_lt hturn (congrArg turn hsame.symm)
      · exact Nat.not_lt_of_le (turn_le_three _) (turn_of_custom hcustom ▸ hturn)
    · exact hnests ⟨field, hfield, hkind, hname⟩
  · have hturn : turn task.part ≤ turn later.part := by
      rcases h with hlt | ⟨heq, -⟩
      · exact Nat.le_of_lt hlt
      · exact Nat.le_of_eq heq
    exact Nat.not_lt_of_le (rank_le_rank hturn) hrank

end Task

/-- The tasks of a pass over the object types. -/
def pass (parts : TypeNode → List String) (objects : List TypeNode) : List Task :=
  objects.flatMap fun node ↦ (parts node).map (Task.mk node)

/-- All tasks, in the order in which they are done. -/
def tasks (objects : List TypeNode) : List Task :=
  pass (fun _ ↦ [scalarsOnly, refsNone]) objects ++ (pass (fun _ ↦ [objectsNone]) objects ++
    (pass (fun _ ↦ [whole]) objects ++ pass customParts objects))

variable {parts : TypeNode → List String} {task : Task}

theorem mem_pass : task ∈ pass parts objects ↔ task.node ∈ objects ∧ task.part ∈ parts task.node := by
  obtain ⟨node, part⟩ := task
  simp [pass, Task.mk.injEq]

theorem mem_tasks : task ∈ tasks objects ↔ task.node ∈ objects ∧ task.part ∈ ownParts task.node := by
  simp only [tasks, List.mem_append, mem_pass, ownParts, builtinParts, List.mem_cons,
    List.not_mem_nil, or_false]
  tauto

theorem map_name_pass (parts : TypeNode → List String) (objects : List TypeNode) :
    (pass parts objects).map Task.name = objects.flatMap fun node ↦ (parts node).map (nameFor node) := by
  simp only [pass, List.map_flatMap, List.map_map]
  rfl

/-- Every own part of every object type is the task of one pass. -/
theorem perm_map_name_tasks (objects : List TypeNode) :
    ((tasks objects).map Task.name).Perm
      (objects.flatMap fun node ↦ (ownParts node).map (nameFor node)) := by
  simp only [tasks, List.map_append, map_name_pass]
  refine (List.Perm.append_left _ (List.Perm.append_left _
    (List.flatMap_append_perm objects _ _))).trans ?_
  refine (List.Perm.append_left _ (List.flatMap_append_perm objects _ _)).trans ?_
  refine (List.flatMap_append_perm objects _ _).trans (List.Perm.flatMap_left objects fun node _ ↦ ?_)
  simp only [← List.map_append]
  refine List.Perm.map _ ?_
  have hbuiltin : List.Perm ([scalarsOnly, refsNone] ++ ([objectsNone] ++ [whole])) builtinParts := by
    decide
  simpa only [ownParts, List.append_assoc] using hbuiltin.append_right (customParts node)

theorem turn_of_mem_pass {turn' : Nat} (h : task ∈ pass parts objects)
    (turns : ∀ node, ∀ part ∈ parts node, turn part = turn') : turn task.part = turn' :=
  turns task.node task.part (mem_pass.mp h).2

/-- The tasks of a pass are in the order of the object types. -/
theorem pairwise_pass (order : objects.Pairwise fun node other ↦ ¬node.Nests other)
    (loopless : ∀ node ∈ objects, ¬node.Nests node) {turn' : Nat}
    (turns : ∀ node, ∀ part ∈ parts node, turn part = turn') :
    (pass parts objects).Pairwise Task.Precedes := by
  unfold pass
  rw [List.pairwise_flatMap]
  constructor
  · intro node hnode
    rw [List.pairwise_map]
    refine List.Pairwise.imp_of_mem (R := fun _ _ ↦ True) (fun hpart hpart' _ ↦ ?_)
      (List.pairwise_of_forall fun _ _ ↦ trivial)
    exact .inr ⟨(turns node _ hpart).trans (turns node _ hpart').symm, loopless node hnode⟩
  · refine order.imp fun hnests task htask later hlater ↦ ?_
    obtain ⟨part, hpart, rfl⟩ := List.mem_map.mp htask
    obtain ⟨part', hpart', rfl⟩ := List.mem_map.mp hlater
    exact .inr ⟨(turns _ _ hpart).trans (turns _ _ hpart').symm, hnests⟩

/-- No task reads what is done later. -/
theorem pairwise_tasks (order : objects.Pairwise fun node other ↦ ¬node.Nests other)
    (loopless : ∀ node ∈ objects, ¬node.Nests node) : (tasks objects).Pairwise Task.Precedes := by
  have hclosed : ∀ _ : TypeNode, ∀ part ∈ [scalarsOnly, refsNone], turn part = 0 := fun _ ↦ by decide
  have hobjects : ∀ _ : TypeNode, ∀ part ∈ [objectsNone], turn part = 1 := fun _ ↦ by decide
  have hwhole : ∀ _ : TypeNode, ∀ part ∈ [whole], turn part = 2 := fun _ ↦ by decide
  have hcustom : ∀ node : TypeNode, ∀ part ∈ customParts node, turn part = 3 :=
    fun node part hpart ↦ turn_of_custom (custom_of_mem hpart)
  refine List.pairwise_append.mpr ⟨pairwise_pass order loopless hclosed, List.pairwise_append.mpr
    ⟨pairwise_pass order loopless hobjects, List.pairwise_append.mpr
      ⟨pairwise_pass order loopless hwhole, pairwise_pass order loopless hcustom, ?_⟩, ?_⟩, ?_⟩
  · intro task htask later hlater
    have hearlier := turn_of_mem_pass htask hwhole
    have hturn := turn_of_mem_pass hlater hcustom
    exact .inl (by omega)
  · intro task htask later hlater
    have hearlier := turn_of_mem_pass htask hobjects
    rcases List.mem_append.mp hlater with hlater | hlater
    · have hturn := turn_of_mem_pass hlater hwhole
      exact .inl (by omega)
    · have hturn := turn_of_mem_pass hlater hcustom
      exact .inl (by omega)
  · intro task htask later hlater
    have hearlier := turn_of_mem_pass htask hclosed
    rcases List.mem_append.mp hlater with hlater | hlater
    · have hturn := turn_of_mem_pass hlater hobjects
      exact .inl (by omega)
    · rcases List.mem_append.mp hlater with hlater | hlater
      · have hturn := turn_of_mem_pass hlater hwhole
        exact .inl (by omega)
      · have hturn := turn_of_mem_pass hlater hcustom
        exact .inl (by omega)

end FragmentSet
end ResourceApi

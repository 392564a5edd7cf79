import ResourceApi.Proofs.Fragment.Turns

/-!
# References are followed once

The selections of a fragment do not tell whether a field that is spread is a nested object or a reference:
the fields are those of the object type whose task wrote the fragment, and which task that was is decided
by the order of the tasks, since object types may share the names of their fragments.  A spread on a nested
object stays in the part, and a spread on a reference leads from the whole to the part without references.
So the rank of the part bounds how many references are followed in a chain of spreads.
-/

namespace ResourceApi

namespace FragmentSet

open Fragment

variable {graphs : List TypeGraph} {objects : List TypeNode} {set : FragmentSet} {node : TypeNode}
  {field : FieldNode} {fields : List FieldNode} {task : Task} {part name : String}
  {fragment target : Fragment} {selection : Selection}

/-! ## Selecting a field -/

/-- How a built-in part may take a field: a leaf as it is, a nested object by the fragment that is listed
for the same part of its type, and a reference by its identifier; the whole takes a reference by the
fragment that is listed for the part without references, if there is one. -/
inductive Takes (set : FragmentSet) (part : String) (field : FieldNode) : Selection → Prop
  | leaf (kind : field.kind.isLeaf = true) : Takes set part field (.field field.name)
  | identifier (kind : field.kind = .reference)
      (unlisted : part = whole → set.fragmentFor? field.typeName refsNone = none) :
      Takes set part field (.idOnly field.name)
  | nested {fragment : String} (kind : field.kind = .object) (holds : part = refsNone ∨ part = whole)
      (listed : set.fragmentFor? field.typeName part = some fragment) :
      Takes set part field (.spread field.name fragment)
  | referred {fragment : String} (kind : field.kind = .reference) (holds : part = whole)
      (listed : set.fragmentFor? field.typeName refsNone = some fragment) :
      Takes set part field (.spread field.name fragment)

theorem Takes.fieldName (h : set.Takes part field selection) : selection.fieldName = field.name := by
  cases h <;> rfl

theorem FieldRule.takes (h : set.FieldRule part field (some selection)) :
    set.Takes part field selection := by
  cases h with
  | leaf builtin kind => exact .leaf kind
  | refsNone_object kind follows =>
    cases follows with
    | spread listed => exact .nested kind (.inl rfl) listed
  | objectsNone_reference kind => exact .identifier kind fun h ↦ absurd h (by decide)
  | whole_object kind follows =>
    cases follows with
    | spread listed => exact .nested kind (.inr rfl) listed
  | whole_reference kind follows =>
    cases follows with
    | spread listed => exact .referred kind rfl listed
    | otherwise unlisted => exact .identifier kind fun _ ↦ unlisted

theorem builtin_of_selectOf (h : set.selectOf part field = some selection) : part ∈ builtinParts := by
  unfold selectOf at h
  split_ifs at h <;> simp_all [builtinParts]

theorem takes_selectOf (h : set.selectOf part field = some selection) :
    set.Takes part field selection :=
  (fieldRule_iff.mpr ⟨builtin_of_selectOf h, h⟩).takes

/-! ## Chains of spreads -/

/-- The task wrote the fragment in its turn, with the set that the tasks before it had left behind. -/
def Wrote (objects : List TypeNode) (task : Task) (before : FragmentSet) (fragment : Fragment) : Prop :=
  ∃ done todo, builtinTasks objects = done ++ task :: todo ∧ before = leave objects done ∧
    before.fragmentOf? task = some fragment

/-- One fragment of the graphs spreads another one on a field: the field is one of the object type whose
task wrote the fragment, and in this turn it was selected by spreading the other one. -/
structure SpreadsOn (graphs : List TypeGraph) (fragment : Fragment) (field : FieldNode)
    (target : Fragment) : Prop where
  kept : (ofGraphs graphs).get? fragment.name = some fragment
  found : (ofGraphs graphs).get? target.name = some target
  selected : ∃ task before, Wrote (deepestFirst graphs) task before fragment ∧
    field ∈ task.node.fields.values ∧
    before.selectOf task.part field = some (.spread field.name target.name)

/-- From the fragment spreads can be followed on the fields, one after the other. -/
inductive Chain (graphs : List TypeGraph) : Fragment → List FieldNode → Prop
  | stop {fragment : Fragment} : Chain graphs fragment []
  | spread {fragment target : Fragment} {field : FieldNode} {fields : List FieldNode}
      (here : SpreadsOn graphs fragment field target) (further : Chain graphs target fields) :
      Chain graphs fragment (field :: fields)

/-- Types without custom parts get the built-in ones only. -/
theorem ofGraphs_eq_leave (plain : ∀ node ∈ deepestFirst graphs, customParts node = []) :
    ofGraphs graphs = leave (deepestFirst graphs) (builtinTasks (deepestFirst graphs)) := by
  have hcustom : ∀ node ∈ deepestFirst graphs, ∀ set, emitCustom set node = set := by
    intro node hnode set
    have hnone := plain node hnode
    rw [emitCustom_eq (hnone ▸ List.nodup_nil), hnone]
    rfl
  rw [ofGraphs_eq_foldl]
  generalize leave _ _ = set
  generalize deepestFirst graphs = objects at hcustom
  induction objects with
  | nil => rfl
  | cons node rest ih =>
    rw [List.foldl_cons, hcustom node List.mem_cons_self]
    exact ih fun other hother ↦ hcustom other (List.mem_cons_of_mem _ hother)

section Plain

variable (plain : ∀ node ∈ deepestFirst graphs, customParts node = [])
include plain

theorem exists_wrote (h : (ofGraphs graphs).get? name = some fragment) :
    ∃ task before, Wrote (deepestFirst graphs) task before fragment ∧ task.part ∈ builtinParts ∧
      fragment.name = name ∧ fragment.part = task.part := by
  rw [ofGraphs_eq_leave plain] at h
  obtain ⟨done, task, todo, hsplit, hname, hwritten⟩ := exists_turn_of_leave h
  have hmem : task ∈ builtinTasks (deepestFirst graphs) := by
    rw [hsplit]
    exact List.mem_append_right _ List.mem_cons_self
  have hpart : task.part ∈ builtinParts := (mem_builtinTasks hmem).2
  obtain ⟨-, heq⟩ := fragmentOf?_eq_some_iff.mp hwritten
  exact ⟨task, _, ⟨done, todo, hsplit, rfl, hwritten⟩, hpart, heq ▸ hname, heq ▸ rfl⟩

/-- Where a part is spread, the fragment that is found is for this part. -/
theorem part_of_listed {object : String} {before : FragmentSet}
    (wrote : Wrote (deepestFirst graphs) task before fragment) (mem : part ∈ builtinParts)
    (listed : before.fragmentFor? object part = some target.name)
    (found : (ofGraphs graphs).get? target.name = some target) : target.part = part := by
  obtain ⟨done, todo, -, rfl, -⟩ := wrote
  obtain ⟨earlier, -, -, hpart, hname⟩ := exists_task_of_leave listed
  rw [ofGraphs_eq_leave plain, ← hname] at found
  change (leave _ _).get? (nameFor earlier.node earlier.part) = _ at found
  rw [hpart] at found
  exact part_of_get?_leave (fun task htask ↦ (mem_builtinTasks htask).2) mem found

/-- A spread on a reference lowers the rank of the part, and no spread raises it. -/
theorem SpreadsOn.rank_le (h : SpreadsOn graphs fragment field target) :
    rank target.part + (if field.kind == .reference then 1 else 0) ≤ rank fragment.part := by
  obtain ⟨task, before, hwrote, -, hselected⟩ := h.selected
  obtain ⟨-, -, -, -, hwritten⟩ := id hwrote
  obtain ⟨-, rfl⟩ := fragmentOf?_eq_some_iff.mp hwritten
  change rank target.part + _ ≤ rank task.part
  cases takes_selectOf hselected with
  | nested kind holds listed =>
    have hbuiltin : task.part ∈ builtinParts := by
      rcases holds with holds | holds <;> rw [holds] <;> decide
    rw [part_of_listed plain hwrote hbuiltin listed h.found, kind]
    exact Nat.le_refl _
  | referred kind holds listed =>
    rw [part_of_listed plain hwrote (by decide) listed h.found, kind, holds]
    decide

/-- A chain follows at most as many references as the rank of its part. -/
theorem Chain.countP_le (h : Chain graphs fragment fields) :
    fields.countP (·.kind == .reference) ≤ rank fragment.part := by
  induction h with
  | stop => exact Nat.zero_le _
  | @spread fragment target field fields here _ ih =>
    rw [List.countP_cons]
    exact (Nat.add_le_add_right ih _).trans (here.rank_le plain)

end Plain

/-- Graphs without custom parts, whose object types may share names.  All their fragments are written by
the tasks for the built-in parts, and each spread of a fragment is on a field of the object type that the
fragment was written for.  Along every chain of spreads there is at most one reference, and none where it
starts at a fragment that does not hold the whole; scalars alone, and objects left out, spread nothing. -/
theorem ofGraphs_referenced_once (graphs : List TypeGraph)
    (plain : ∀ node ∈ deepestFirst graphs, customParts node = []) :
    ofGraphs graphs = leave (deepestFirst graphs) (builtinTasks (deepestFirst graphs)) ∧
    ∀ name fragment, (ofGraphs graphs).get? name = some fragment →
      fragment.part ∈ [whole, scalarsOnly, objectsNone, refsNone] ∧
      (∀ fieldName spread target, .spread fieldName spread ∈ fragment.selections →
        (ofGraphs graphs).get? spread = some target →
          ∃ field, field.name = fieldName ∧ SpreadsOn graphs fragment field target) ∧
      (∀ fields, Chain graphs fragment fields → fields.countP (·.kind == .reference) ≤ 1 ∧
        (fragment.part ≠ whole → fields.countP (·.kind == .reference) = 0)) ∧
      (fragment.part = scalarsOnly ∨ fragment.part = objectsNone → fragment.spreads = []) := by
  refine ⟨ofGraphs_eq_leave plain, fun name fragment hfragment ↦ ?_⟩
  obtain ⟨task, before, hwrote, hbuiltin, rfl, hpart⟩ := exists_wrote plain hfragment
  obtain ⟨-, -, -, -, hwritten⟩ := id hwrote
  obtain ⟨-, hfields⟩ := fragmentOf?_eq_some_iff.mp hwritten
  have hselections :
      fragment.selections = task.node.fields.values.filterMap (before.selectOf task.part) := by
    rw [← selectionsOf_builtin hbuiltin, ← hfields]
  have hrank : rank fragment.part ≤ 1 := by
    rw [hpart]
    exact rank_of_builtin (by simpa using hbuiltin)
  refine ⟨hpart ▸ hbuiltin, fun fieldName spread target hselection htarget ↦ ?_, fun fields hchain ↦ ?_,
    fun hclosed ↦ ?_⟩
  · rw [hselections] at hselection
    obtain ⟨field, hfield, hselected⟩ := List.mem_filterMap.mp hselection
    have hname : fieldName = field.name := (takes_selectOf hselected).fieldName
    obtain ⟨-, -, -, -, rfl, -⟩ := exists_wrote plain htarget
    subst hname
    exact ⟨field, rfl, hfragment, htarget, task, before, hwrote, hfield, hselected⟩
  · have hcount := hchain.countP_le plain
    refine ⟨hcount.trans hrank, fun hpart ↦ ?_⟩
    have hzero : rank fragment.part = 0 := by
      unfold rank at hrank ⊢
      rw [if_neg hpart] at hrank ⊢
      split_ifs at hrank ⊢ <;> omega
    omega
  · rw [List.eq_nil_iff_forall_not_mem]
    intro spread hspread
    obtain ⟨selection, hselection, hspreads⟩ := List.mem_filterMap.mp hspread
    rw [hselections] at hselection
    obtain ⟨field, hfield, hselected⟩ := List.mem_filterMap.mp hselection
    rw [← hpart] at hselected
    have hnone : fragment.part ≠ refsNone ∧ fragment.part ≠ whole := by
      rcases hclosed with h | h <;> rw [h] <;> decide
    cases takes_selectOf hselected with
    | leaf => cases hspreads
    | identifier => cases hspreads
    | nested _ holds => exact (holds.elim hnone.1 hnone.2).elim
    | referred _ holds => exact (hnone.2 holds).elim

/-- Users have an address with an owner and a friend; another resource has the name of the type of the
address, so that two object types share the names of their fragments, and the last of them is kept. -/
theorem ofGraphs_referenced_once_shared :
    let owner : FieldAttributes := ⟨none, none, some "User", none, none, false, none, none, .null⟩
    let address : SchemaNode := ⟨none, [("owner", .attributes owner)], []⟩
    let table : FieldAttributes := ⟨none, none, none, none, some address, false, none, none, .null⟩
    let user : ResourceSchema :=
      ⟨"User", ⟨none, [("address", .attributes table), ("friend", .attributes owner)], []⟩, [], [], none⟩
    let taken : ResourceSchema :=
      ⟨"UserAddress", ⟨none, [("city", .primitive "String")], []⟩, [], [], none⟩
    ∃ graphs fragment, [user, taken].mapM (TypeGraph.ofSchema ⟨[]⟩ · .full []) = .ok graphs ∧
      (∀ node ∈ deepestFirst graphs, customParts node = []) ∧
      (ofGraphs graphs).get? "SelfUserWholeFragment" = some fragment ∧
      fragment.spreads = ["SelfUserAddressWholeFragment", "MixedUserRefsNoneFragment"] ∧
      ∀ fields, Chain graphs fragment fields → fields.countP (·.kind == .reference) ≤ 1 := by
  intro owner address table user taken
  obtain ⟨graphs, hgraphs, hchecks⟩ :
      ∃ graphs, [user, taken].mapM (TypeGraph.ofSchema ⟨[]⟩ · .full []) = .ok graphs ∧
        ((deepestFirst graphs).all (fun node ↦ (customParts node).isEmpty) &&
          ((ofGraphs graphs).get? "SelfUserWholeFragment").map Fragment.spreads ==
            some ["SelfUserAddressWholeFragment", "MixedUserRefsNoneFragment"]) = true :=
    Except.exists_of_passes (by decide +kernel)
  simp only [Bool.and_eq_true, List.all_eq_true, List.isEmpty_iff, beq_iff_eq] at hchecks
  obtain ⟨hplain, hspreads⟩ := hchecks
  obtain ⟨fragment, hfragment, hspreads⟩ := Option.map_eq_some_iff.mp hspreads
  obtain ⟨-, -, hchains, -⟩ := (ofGraphs_referenced_once graphs hplain).2 _ _ hfragment
  exact ⟨graphs, fragment, hgraphs, hplain, hfragment, hspreads, fun fields h ↦ (hchains fields h).1⟩

end FragmentSet
end ResourceApi

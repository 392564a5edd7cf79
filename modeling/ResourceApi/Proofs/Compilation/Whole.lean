import ResourceApi.Proofs.Compilation.Fragments
import ResourceApi.Proofs.Fragment.Whole

/-!
# Whole objects of a run

The object types of a run have fields, and their object fields lead one level deeper to object types of
the same stage.  So each of them has a whole, and a whole takes every field of its type: no nested object
and no reference is left out.
-/

namespace ResourceApi.Compiler

open Fragment FragmentSet

variable {compiler : Compiler} {schemas : List ResourceSchema} {stages : List Stage} {node : TypeNode}
  {fragment : Fragment}

theorem mem_deepestFirst_stages : node ∈ deepestFirst (stages.map (·.graph)) ↔
    ∃ stage ∈ stages, ∃ level, node ∈ stage.graph.objectsAt level := by
  simp only [mem_deepestFirst_iff, List.mem_map, exists_exists_and_eq_and]

theorem fields_ne_nil (h : compiler.stages [] schemas = .ok stages)
    (mem : node ∈ deepestFirst (stages.map (·.graph))) : node.fields ≠ [] := by
  obtain ⟨stage, hstage, level, hentry, hkind, -⟩ := object_of_mem h mem
  obtain ⟨_, before, known, -, -, -, -, hfilled, hnode⟩ := exists_built h hstage hentry
  rw [← TypeNode.isEmpty_mapFields (Stage.retargetField known), ← hnode] at hfilled
  simpa [TypeNode.isEmpty, hkind] using hfilled

/-- A fragment for a built-in part that stands under the name of a whole is the whole of the type. -/
theorem whole_of_name (h : compiler.stages [] schemas = .ok stages)
    (mem : node ∈ deepestFirst (stages.map (·.graph)))
    (found : (ofGraphs (stages.map (·.graph))).get? (nameFor node whole) = some fragment)
    (builtin : fragment.part ∈ builtinParts) : fragment.part = whole ∧ fragment.on = node.name := by
  obtain ⟨other, hother, -, hname, hon, -⟩ := (sound_ofGraphs _).exists_node found
  have hpart : fragment.part = whole := (eq_of_nameFor (by decide) builtin hname).symm
  obtain ⟨segment, hsegment, hnamed⟩ := segment_of_mem h mem
  obtain ⟨segment', hsegment', hnamed'⟩ := segment_of_mem h hother
  rw [hpart, nameFor_of_segment hsegment, nameFor_of_segment hsegment'] at hname
  obtain ⟨rfl, hbase⟩ := Segment.eq_of_append hname
  rw [hon, hnamed, hnamed', (String.append_left_inj _).mp hbase]
  exact ⟨hpart, rfl⟩

/-- Every object type of a run without an initial document has a whole, which is not empty, and so have
those that its object fields lead to on the next level; only a custom part can take the place of the
fragment.  Every fragment for a whole is on an object type, and takes each of its fields once, in their
order: a nested object by its whole, and a reference by the part of its target that holds no references, or
by its identifier if the target has none. -/
theorem compileAll_whole (compiler : Compiler) (schemas : List ResourceSchema) (compiled : CompiledSchema)
    (h : compiler.compileAll schemas [] = .ok compiled) :
    ∃ stages, compiler.stages [] schemas = .ok stages ∧
      (∀ stage ∈ stages, ∀ level, ∀ node ∈ stage.graph.objectsAt level,
        compiled.fragments.fragmentFor? node.name whole = some (nameFor node whole) ∧
        (∃ fragment, compiled.fragments.get? (nameFor node whole) = some fragment ∧
          fragment.selections ≠ [] ∧
          (fragment.part ∈ builtinParts → fragment.part = whole ∧ fragment.on = node.name)) ∧
        ∀ field ∈ node.fields.values, field.kind = .object →
          ∃ target ∈ stage.graph.objectsAt (level + 1), target.name = field.typeName) ∧
      ∀ name fragment, compiled.fragments.get? name = some fragment → fragment.part = whole →
        ∃ stage ∈ stages, ∃ level, ∃ node ∈ stage.graph.objectsAt level,
          name = nameFor node whole ∧ fragment.on = node.name ∧ node.fields.keys.Nodup ∧
          fragment.selections.map Selection.fieldName = node.fields.keys ∧
          List.Forall₂ (compiled.fragments.Takes whole) node.fields.values fragment.selections := by
  obtain ⟨stages, -, hstages, -, hfragments⟩ := compileAll_eq_ok h
  have hleveled := leveled_stages hstages
  have htell := namesTell_of_named fun _ mem ↦ segment_of_mem hstages mem
  have hfilled : ∀ node ∈ deepestFirst (stages.map (·.graph)), node.fields ≠ [] :=
    fun _ mem ↦ fields_ne_nil hstages mem
  rw [hfragments]
  refine ⟨stages, hstages, fun stage hstage level node hnode ↦ ?_, fun name fragment hfragment hpart ↦ ?_⟩
  · have hmem : node ∈ deepestFirst (stages.map (·.graph)) :=
      mem_deepestFirst_stages.mpr ⟨stage, hstage, level, hnode⟩
    have hlisted := fragmentFor?_whole hleveled htell hfilled hmem
    refine ⟨hlisted, ?_, hleveled _ (List.mem_map_of_mem hstage) level node hnode⟩
    obtain ⟨fragment, hfragment⟩ := ((sound_ofGraphs _).parts _ _ _ hlisted).exists_fragment
    exact ⟨fragment, hfragment, selections_ne_nil hfragment, whole_of_name hstages hmem hfragment⟩
  · obtain ⟨node, hmem, hname, hon, htakes⟩ := whole_of_get? hleveled htell hfilled hfragment hpart
    obtain ⟨stage, hstage, level, hnode⟩ := mem_deepestFirst_stages.mp hmem
    obtain ⟨_, -, _, -, -, hdescribed, -⟩ := object_of_mem hstages hmem
    refine ⟨stage, hstage, level, node, hnode, hname, hon, hdescribed.distinct, ?_, htakes⟩
    calc fragment.selections.map Selection.fieldName
        = node.fields.values.map (·.name) := map_fieldName_of_takes htakes
      _ = node.fields.keys := Entries.map_values_eq_keys hdescribed.named

/-- Users have an address with an owner, and a friend.  The whole of the users follows the address to its
whole, which follows the owner to the part without references, as the whole of the users does the
friend. -/
theorem compileAll_whole_users :
    let owner : FieldAttributes := ⟨none, none, some "User", none, none, false, none, none, .null⟩
    let address : SchemaNode := ⟨none, [("city", .primitive "String"), ("owner", .attributes owner)], []⟩
    let table : FieldAttributes := ⟨none, none, none, none, some address, false, none, none, .null⟩
    let user : ResourceSchema :=
      ⟨"User", ⟨none, [("address", .attributes table), ("friend", .attributes owner)], []⟩, [], [], none⟩
    let users : Fragment := ⟨"SelfUserWholeFragment", "SelfUserObject", "Whole", [.field "id",
      .spread "address" "SelfUserAddressWholeFragment", .spread "friend" "MixedUserRefsNoneFragment"]⟩
    let addresses : Fragment := ⟨"SelfUserAddressWholeFragment", "SelfUserAddressObject", "Whole",
      [.field "city", .spread "owner" "MixedUserRefsNoneFragment"]⟩
    ∃ compiled, compileAll ⟨.full, ⟨[]⟩⟩ [user] [] = .ok compiled ∧
      ∀ fragment ∈ [users, addresses], compiled.fragments.get? fragment.name = some fragment ∧
        ∃ node : TypeNode, node.name = fragment.on ∧
          node.fields.keys = fragment.selections.map Selection.fieldName ∧
          List.Forall₂ (compiled.fragments.Takes whole) node.fields.values fragment.selections := by
  intro owner address table user users addresses
  obtain ⟨compiled, hcompiled, hfound⟩ :
      ∃ compiled, compileAll ⟨.full, ⟨[]⟩⟩ [user] [] = .ok compiled ∧
        [users, addresses].all (fun fragment ↦
          compiled.fragments.get? fragment.name == some fragment && fragment.part == whole) = true :=
    Except.exists_of_passes (by decide +kernel)
  simp only [List.all_eq_true, Bool.and_eq_true, beq_iff_eq] at hfound
  obtain ⟨stages, -, -, hwholes⟩ := compileAll_whole _ _ compiled hcompiled
  refine ⟨compiled, hcompiled, fun fragment hfragment ↦ ?_⟩
  obtain ⟨hget, hpart⟩ := hfound fragment hfragment
  obtain ⟨_, -, _, node, -, -, hon, -, hkeys, htakes⟩ := hwholes _ fragment hget hpart
  exact ⟨hget, node, hon.symm, hkeys.symm, htakes⟩

end ResourceApi.Compiler

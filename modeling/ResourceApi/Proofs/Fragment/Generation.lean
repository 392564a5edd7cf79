import ResourceApi.Fragment.Generation
import ResourceApi.Proofs.Entries

/-!
# What the passes generate

Every fragment holds a part of one of the object types, and selects of a field of that type what the
kind of the field allows: a leaf by itself, a reference by its identifier, and both references and
nested objects by a fragment that is there already.  A spread never raises the rank of the part, and
lowers it along references.  Each pass keeps this (`Sound`), so it holds of the finished set.
-/

namespace ResourceApi

namespace Fragment

/-- The parts that are generated for a type: those that are built in, and its custom ones. -/
def listedParts (node : TypeNode) : List String := builtinParts ++ node.fragments.map Prod.fst

/-- Parts of a higher rank may spread those of a lower one, and all of them their own rank in nested
objects. -/
def rank (part : String) : Nat :=
  if part = whole then 1 else if builtinParts.contains part then 0 else 2

theorem rank_le_two (part : String) : rank part ≤ 2 := by
  unfold rank
  split
  · omega
  · split <;> omega

theorem rank_of_builtin {part : String} (h : builtinParts.contains part = true) : rank part ≤ 1 := by
  unfold rank
  rw [if_pos h]
  split <;> omega

theorem rank_of_custom {part : String} (h : builtinParts.contains part = false) : rank part = 2 := by
  have hwhole : part ≠ whole := by
    rintro rfl
    cases h
  unfold rank
  rw [if_neg hwhole, if_neg (Bool.eq_false_iff.mp h)]

/-- The names of the built-in parts have different endings. -/
theorem eq_of_append_builtin {front front' part part' : String} (mem : part ∈ builtinParts)
    (mem' : part' ∈ builtinParts) (h : front ++ part = front' ++ part') : front = front' ∧ part = part' := by
  have hlist := congrArg (List.reverse ∘ String.toList) h
  simp only [Function.comp_apply, String.toList_append, List.reverse_append] at hlist
  have hparts : part = part' := by
    simp only [builtinParts, List.mem_cons, List.not_mem_nil, or_false] at mem mem'
    rcases mem with rfl | rfl | rfl | rfl <;> rcases mem' with rfl | rfl | rfl | rfl <;>
      first
      | rfl
      | simp [whole, scalarsOnly, objectsNone, refsNone] at hlist
  subst hparts
  exact ⟨String.toList_injective (List.reverse_injective (List.append_cancel_left hlist)), rfl⟩

theorem mem_listedParts_of_builtin {part : String} (node : TypeNode) (h : part ∈ builtinParts) :
    part ∈ listedParts node :=
  List.mem_append_left _ h

end Fragment

namespace FragmentSet

open Fragment

variable {objects : List TypeNode} {set next : FragmentSet} {node : TypeNode} {field : FieldNode}
  {object part other name : String} {selection : Selection}

/-! ## Looking parts up -/

/-- What is found after a part of a type is written was written, or was there before. -/
theorem fragmentFor?_adjust {definitions : Entries Fragment} {value : Option String} {fragment : String}
    (h : fragmentFor? ⟨definitions, Entries.adjust object (Entries.put part value) set.parts⟩
      other name = some fragment) :
    other = object ∧ name = part ∧ value = some fragment ∨
      set.fragmentFor? other name = some fragment := by
  unfold fragmentFor? at h ⊢
  rw [Entries.get?_adjust] at h
  split at h
  · rename_i hobject
    cases hparts : set.parts.get? other with
    | none => simp [hparts] at h
    | some parts =>
      rw [hparts, Option.map_some, Option.bind_some] at h
      by_cases hpart : name = part
      · rw [hpart, Entries.get?_put_self, Option.join_some] at h
        exact .inl ⟨hobject, hpart, h⟩
      · rw [Entries.get?_put_of_ne _ _ hpart] at h
        exact .inr h
  · exact .inr h

theorem get?_announced {parts : List String} {before : Entries (Option String)}
    (h : Entries.get? (parts.foldl (fun parts part ↦ Entries.put part none parts) before) part =
      some (some name)) :
    before.get? part = some (some name) := by
  induction parts generalizing before with
  | nil => exact h
  | cons first rest ih =>
    have hrest := ih h
    by_cases hpart : part = first
    · rw [hpart, Entries.get?_put_self] at hrest
      cases hrest
    · rwa [Entries.get?_put_of_ne _ _ hpart] at hrest

/-- Announcing a type brings no fragments. -/
theorem fragmentFor?_announce (h : (announce set node).fragmentFor? object part = some name) :
    set.fragmentFor? object part = some name := by
  unfold fragmentFor? announce at h
  unfold fragmentFor?
  by_cases hobject : object = node.name
  · rw [hobject, Entries.get?_put_self, Option.bind_some, Option.join_eq_some_iff] at h
    have hbefore := get?_announced h
    rw [hobject]
    cases hparts : set.parts.get? node.name with
    | none =>
      rw [hparts] at hbefore
      cases hbefore
    | some parts =>
      rw [hparts] at hbefore
      rw [Option.bind_some, Option.join_eq_some_iff]
      exact hbefore
  · rwa [Entries.get?_put_of_ne _ _ hobject] at h

/-! ## Sound sets -/

/-- The name is that of the fragment for a part of an object type, and the fragment is there. -/
inductive Provides (objects : List TypeNode) (set : FragmentSet) (object part : String) :
    String → Prop
  | intro {node : TypeNode} (mem : node ∈ objects) (named : node.name = object)
      (listed : part ∈ listedParts node) (defined : set.definitions.has (nameFor node part) = true) :
      Provides objects set object part (nameFor node part)

/-- What a part may select of a field. -/
inductive Selects (objects : List TypeNode) (set : FragmentSet) (part : String) (field : FieldNode) :
    Selection → Prop
  | leaf (kind : field.kind.isLeaf = true) : Selects objects set part field (.field field.name)
  | identifier (kind : field.kind = .reference) : Selects objects set part field (.idOnly field.name)
  | nested {other fragment : String} (kind : field.kind = .object)
      (provided : Provides objects set field.typeName other fragment)
      (bound : rank other ≤ rank part) :
      Selects objects set part field (.spread field.name fragment)
  | referred {other fragment : String} (kind : field.kind = .reference)
      (provided : Provides objects set field.typeName other fragment)
      (bound : rank other < rank part) :
      Selects objects set part field (.spread field.name fragment)

/-- The fragment was generated for a part of an object type. -/
inductive Generated (objects : List TypeNode) (set : FragmentSet) (fragment : Fragment) : Prop
  | intro {node : TypeNode} (mem : node ∈ objects) (listed : fragment.part ∈ listedParts node)
      (named : fragment.name = nameFor node fragment.part) (on : fragment.on = node.name)
      (selects : ∀ selection ∈ fragment.selections, ∃ field ∈ node.fields.values,
        Selects objects set fragment.part field selection)

/-- All fragments were generated for parts of the object types, under whose names they stand. -/
structure Sound (objects : List TypeNode) (set : FragmentSet) : Prop where
  definitions : ∀ name fragment, set.get? name = some fragment →
    fragment.name = name ∧ Generated objects set fragment
  parts : ∀ object part name, set.fragmentFor? object part = some name →
    Provides objects set object part name

/-- The second set has all fragments that the first one has. -/
def Grows (set next : FragmentSet) : Prop :=
  ∀ name, set.definitions.has name = true → next.definitions.has name = true

theorem Provides.later (h : Provides objects set object part name) (grows : set.Grows next) :
    Provides objects next object part name := by
  cases h with
  | intro mem named listed defined => exact .intro mem named listed (grows _ defined)

theorem Provides.exists_fragment (h : Provides objects set object part name) :
    ∃ fragment, set.get? name = some fragment := by
  cases h with
  | intro mem named listed defined => exact Option.isSome_iff_exists.mp defined

theorem Selects.later (h : Selects objects set part field selection) (grows : set.Grows next) :
    Selects objects next part field selection := by
  cases h with
  | leaf kind => exact .leaf kind
  | identifier kind => exact .identifier kind
  | nested kind provided bound => exact .nested kind (provided.later grows) bound
  | referred kind provided bound => exact .referred kind (provided.later grows) bound

theorem Generated.later {fragment : Fragment} (h : Generated objects set fragment)
    (grows : set.Grows next) : Generated objects next fragment := by
  cases h with
  | intro mem listed named on selects =>
    refine .intro mem listed named on fun selection hselection ↦ ?_
    obtain ⟨field, hfield, hselects⟩ := selects selection hselection
    exact ⟨field, hfield, hselects.later grows⟩

/-- The type and the part that a fragment is for give it its name and its selections. -/
theorem Sound.exists_node (h : Sound objects set) {fragment : Fragment}
    (found : set.get? name = some fragment) :
    ∃ node ∈ objects, fragment.part ∈ listedParts node ∧ name = nameFor node fragment.part ∧
      fragment.on = node.name ∧ ∀ selection ∈ fragment.selections, ∃ field ∈ node.fields.values,
        Selects objects set fragment.part field selection := by
  obtain ⟨hname, ⟨mem, listed, named, on, selects⟩⟩ := h.definitions name fragment found
  exact ⟨_, mem, listed, hname.symm.trans named, on, selects⟩

theorem sound_empty (objects : List TypeNode) : Sound objects empty :=
  ⟨(fun _ _ h ↦ nomatch h), (fun _ _ _ h ↦ nomatch h)⟩

theorem Sound.announce (h : Sound objects set) (node : TypeNode) :
    Sound objects (announce set node) where
  definitions name fragment hfragment :=
    (h.definitions name fragment hfragment).imp_right (·.later fun _ hname ↦ hname)
  parts object part name hname :=
    (h.parts object part name (fragmentFor?_announce hname)).later fun _ hname ↦ hname

/-- Recording what a part of an object type selects keeps a set sound. -/
theorem Sound.record (h : Sound objects set) (mem : node ∈ objects) (listed : part ∈ listedParts node)
    {selections : List Selection} (selects : ∀ selection ∈ selections,
      ∃ field ∈ node.fields.values, Selects objects set part field selection) :
    Sound objects (set.record node part selections) := by
  unfold FragmentSet.record
  split
  · refine ⟨fun name fragment hfragment ↦ ?_, fun object other name hname ↦ ?_⟩
    · exact (h.definitions name fragment hfragment).imp_right (·.later fun _ hname ↦ hname)
    · rcases fragmentFor?_adjust hname with ⟨-, -, hnone⟩ | hbefore
      · cases hnone
      · exact (h.parts object other name hbefore).later fun _ hname ↦ hname
  · have hgrows : set.Grows ⟨Entries.put (nameFor node part)
        { name := nameFor node part, on := node.name, part, selections } set.definitions,
        Entries.adjust node.name (Entries.put part (some (nameFor node part))) set.parts⟩ := by
      intro name hname
      rw [Entries.has_iff] at hname ⊢
      exact Entries.mem_keys_put.mpr (.inr hname)
    refine ⟨fun name fragment hfragment ↦ ?_, fun object other name hname ↦ ?_⟩
    · unfold FragmentSet.get? at hfragment
      by_cases hname : name = nameFor node part
      · rw [hname, Entries.get?_put_self] at hfragment
        obtain rfl := Option.some.inj hfragment
        refine ⟨hname.symm, .intro mem listed rfl rfl fun selection hselection ↦ ?_⟩
        obtain ⟨field, hfield, hselects⟩ := selects selection hselection
        exact ⟨field, hfield, hselects.later hgrows⟩
      · rw [Entries.get?_put_of_ne _ _ hname] at hfragment
        obtain ⟨hnamed, hgenerated⟩ := h.definitions name fragment hfragment
        exact ⟨hnamed, hgenerated.later hgrows⟩
    · rcases fragmentFor?_adjust hname with ⟨rfl, rfl, hsome⟩ | hbefore
      · obtain rfl := Option.some.inj hsome
        exact .intro mem rfl listed (Entries.has_iff.mpr (Entries.mem_keys_put.mpr (.inl rfl)))
      · exact (h.parts object other name hbefore).later hgrows

theorem Sound.emit (h : Sound objects set) (mem : node ∈ objects) (builtin : part ∈ builtinParts)
    {select : FragmentSet → FieldNode → Option Selection}
    (selects : ∀ field selection, select set field = some selection →
      Selects objects set part field selection) :
    Sound objects (emit part select set node) := by
  refine h.record mem (mem_listedParts_of_builtin node builtin) fun selection hselection ↦ ?_
  obtain ⟨field, hfield, hselect⟩ := List.mem_filterMap.mp hselection
  exact ⟨field, hfield, selects field selection hselect⟩

/-! ## Rules of the parts -/

theorem Sound.provides_of_spreadOf? (h : Sound objects set)
    (found : set.spreadOf? field part = some selection) :
    ∃ fragment, selection = .spread field.name fragment ∧
      Provides objects set field.typeName part fragment := by
  obtain ⟨fragment, hfragment, rfl⟩ := Option.map_eq_some_iff.mp found
  exact ⟨fragment, rfl, h.parts _ _ _ hfragment⟩

/-- A reference is selected by a part of lower rank, or by its identifier. -/
theorem Sound.selects_referenceOf (h : Sound objects set) (kind : field.kind = .reference)
    (bound : rank other < rank part) : Selects objects set part field (set.referenceOf field other) := by
  unfold referenceOf
  cases hfound : set.spreadOf? field other with
  | none => exact .identifier kind
  | some selection =>
    obtain ⟨fragment, rfl, hprovides⟩ := h.provides_of_spreadOf? hfound
    exact .referred kind hprovides bound

/-- A nested object is selected by a part of at most the same rank. -/
theorem Sound.selects_spreadOf? (h : Sound objects set) (kind : field.kind = .object)
    (bound : rank other ≤ rank part) (found : set.spreadOf? field other = some selection) :
    Selects objects set part field selection := by
  obtain ⟨fragment, rfl, hprovides⟩ := h.provides_of_spreadOf? found
  exact .nested kind hprovides bound

theorem selects_scalarsOnly (objects : List TypeNode) (set : FragmentSet)
    (h : selectScalarsOnly field = some selection) :
    Selects objects set scalarsOnly field selection := by
  unfold selectScalarsOnly at h
  split at h <;> cases h
  rename_i hleaf
  exact .leaf hleaf

theorem selects_objectsNone (objects : List TypeNode) (set : FragmentSet)
    (h : selectObjectsNone field = some selection) :
    Selects objects set objectsNone field selection := by
  unfold selectObjectsNone at h
  split at h <;> cases h <;> rename_i hkind
  · exact .leaf (hkind ▸ rfl)
  · exact .leaf (hkind ▸ rfl)
  · exact .identifier hkind

theorem Sound.selects_refsNone (h : Sound objects set)
    (found : selectRefsNone set field = some selection) :
    Selects objects set refsNone field selection := by
  unfold selectRefsNone at found
  split at found <;> rename_i hkind
  · cases found
    exact .leaf (hkind ▸ rfl)
  · cases found
    exact .leaf (hkind ▸ rfl)
  · exact h.selects_spreadOf? hkind (Nat.le_refl _) found
  · cases found

theorem Sound.selects_whole (h : Sound objects set)
    (found : selectWhole set field = some selection) :
    Selects objects set whole field selection := by
  unfold selectWhole at found
  split at found <;> rename_i hkind
  · cases found
    exact .leaf (hkind ▸ rfl)
  · cases found
    exact .leaf (hkind ▸ rfl)
  · exact h.selects_spreadOf? hkind (Nat.le_refl _) found
  · cases found
    exact h.selects_referenceOf hkind (by decide)

theorem Sound.selects_custom (h : Sound objects set) (custom : builtinParts.contains part = false)
    {entry : FragmentSelection} (found : set.selectCustom node entry = some selection) :
    ∃ field ∈ node.fields.values, Selects objects set part field selection := by
  unfold selectCustom at found
  obtain ⟨field, hfield, found⟩ := Option.bind_eq_some_iff.mp found
  refine ⟨field, List.mem_map_of_mem (Entries.mem_of_get? hfield), ?_⟩
  have hrank := rank_of_custom custom
  split at found <;> rename_i hkind
  · cases found
    exact .leaf (hkind ▸ rfl)
  · cases found
    exact .leaf (hkind ▸ rfl)
  · exact h.selects_spreadOf? hkind (hrank ▸ rank_le_two _) found
  · cases found
    refine h.selects_referenceOf hkind ?_
    rw [hrank]
    cases hasked : entry.part?.filter builtinParts.contains with
    | none => decide
    | some asked =>
      have hbuiltin := (Option.filter_eq_some_iff.mp hasked).2
      exact Nat.lt_succ_of_le (rank_of_builtin hbuiltin)

/-! ## Passes -/

theorem Sound.emitClosed (h : Sound objects set) (mem : node ∈ objects) :
    Sound objects (emitClosed set node) := by
  have hscalars : Sound objects (FragmentSet.emit scalarsOnly (fun _ ↦ selectScalarsOnly) set node) :=
    h.emit mem (by decide) fun field selection hselect ↦ selects_scalarsOnly objects set hselect
  exact hscalars.emit mem (by decide) fun field selection hselect ↦ hscalars.selects_refsNone hselect

theorem Sound.emitCustom (h : Sound objects set) (mem : node ∈ objects) :
    Sound objects (emitCustom set node) := by
  unfold FragmentSet.emitCustom
  refine List.foldlRecOn node.fragments _ h fun set hset ⟨part, entries⟩ hentry ↦ ?_
  dsimp only
  split
  · exact hset
  · rename_i hcustom
    have hlisted : part ∈ listedParts node := List.mem_append_right _ (List.mem_map_of_mem hentry)
    refine hset.record mem hlisted fun selection hselection ↦ ?_
    obtain ⟨asked, -, hselect⟩ := List.mem_filterMap.mp hselection
    exact hset.selects_custom (by simpa using hcustom) hselect

/-- The fragments of a list of graphs are generated for the parts of their object types. -/
theorem sound_ofGraphs (graphs : List TypeGraph) : Sound (deepestFirst graphs) (ofGraphs graphs) := by
  have hannounced := List.foldlRecOn (deepestFirst graphs) announce (sound_empty (deepestFirst graphs))
    fun set hset node _ ↦ hset.announce node
  have hclosed := List.foldlRecOn (deepestFirst graphs) FragmentSet.emitClosed hannounced
    fun set hset node hnode ↦ hset.emitClosed hnode
  have hobjects := List.foldlRecOn (deepestFirst graphs) (emit objectsNone fun _ ↦ selectObjectsNone)
    hclosed fun set hset node hnode ↦ hset.emit hnode (by decide) fun field selection hselect ↦
      selects_objectsNone _ set hselect
  have hwhole := List.foldlRecOn (deepestFirst graphs) (emit whole selectWhole) hobjects
    fun set hset node hnode ↦ hset.emit hnode (by decide) fun field selection hselect ↦
      hset.selects_whole hselect
  exact List.foldlRecOn (deepestFirst graphs) FragmentSet.emitCustom hwhole
    fun set hset node hnode ↦ hset.emitCustom hnode

/-- The object types that fragments are generated for are those of the graphs. -/
theorem mem_deepestFirst {graphs : List TypeGraph} : node ∈ deepestFirst graphs →
    ∃ graph ∈ graphs, ∃ (level : Nat) (name : String),
      (name, node) ∈ graph.levels[level]?.getD [] ∧ node.kind = .object := by
  intro h
  unfold deepestFirst at h
  obtain ⟨level, -, h⟩ := List.mem_flatMap.mp h
  obtain ⟨graph, hgraph, h⟩ := List.mem_flatMap.mp h
  obtain ⟨hmem, hkind⟩ := List.mem_filter.mp h
  obtain ⟨⟨name, found⟩, hentry, rfl⟩ := List.mem_map.mp hmem
  exact ⟨graph, hgraph, level, name, hentry, by simpa using hkind⟩

end FragmentSet
end ResourceApi

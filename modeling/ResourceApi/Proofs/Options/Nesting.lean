import Mathlib.Data.List.Perm.Basic
import ResourceApi.Options.Cascade
import ResourceApi.Proofs.Entries
import ResourceApi.Proofs.Path

/-!
# Flat and nested documents

Flattening and nesting are inverse to each other.  Both are read on the leaves of a document, each under
the list of names that leads to it.  Flattening joins these names; nesting writes each leaf to its place
among those written before, and as long as no path leads through the leaf of another it adds one leaf and
keeps the others.
-/

namespace ResourceApi.Options

open ResourceApi.Path (IsSegment)

/-! ## Leaves -/

mutual

/-- An object in the document has members, and no name of a member is repeated, empty or dotted. -/
def Nested : Json → Prop
  | .obj members => members ≠ [] ∧ NestedMembers members
  | _ => True

def NestedMembers : List (String × Json) → Prop
  | [] => True
  | (key, value) :: rest =>
    (IsSegment key ∧ key ∉ Entries.keys rest ∧ Nested value) ∧ NestedMembers rest

end

def under (key : String) (leaf : List String × Json) : List String × Json := (key :: leaf.1, leaf.2)

mutual

/-- The leaves of a document, each with the names that lead to it. -/
def leaves : Json → List (List String × Json)
  | .obj members => leavesOfMembers members
  | leaf => [([], leaf)]

def leavesOfMembers : List (String × Json) → List (List String × Json)
  | [] => []
  | (key, value) :: rest => (leaves value).map (under key) ++ leavesOfMembers rest

end

variable {members rest : List (String × Json)} {key : String} {value : Json} {path : List String}
  {leaf : List String × Json}

theorem nestedMembers_iff : NestedMembers members ↔
    (Entries.keys members).Nodup ∧ ∀ member ∈ members, IsSegment member.1 ∧ Nested member.2 := by
  induction members with
  | nil => simp [NestedMembers]
  | cons member rest ih =>
    obtain ⟨key, value⟩ := member
    rw [NestedMembers, ih, Entries.keys_cons, List.nodup_cons, List.forall_mem_cons]
    tauto

theorem leaves_single (single : value.isObject = false) : leaves value = [([], value)] := by
  cases value with
  | obj members => cases single
  | _ => rfl

theorem mem_leavesOfMembers : leaf ∈ leavesOfMembers members ↔
    ∃ member ∈ members, ∃ inner ∈ leaves member.2, under member.1 inner = leaf := by
  induction members with
  | nil => simp [leavesOfMembers]
  | cons member rest ih =>
    obtain ⟨key, value⟩ := member
    rw [leavesOfMembers, List.mem_append, ih, List.mem_map]
    simp

theorem leavesOfMembers_append (front back : List (String × Json)) :
    leavesOfMembers (front ++ back) = leavesOfMembers front ++ leavesOfMembers back := by
  induction front with
  | nil => rfl
  | cons member rest ih =>
    obtain ⟨key, value⟩ := member
    rw [List.cons_append, leavesOfMembers, leavesOfMembers, ih, List.append_assoc]

theorem leavesOfMembers_singleton (key : String) (value : Json) :
    leavesOfMembers [(key, value)] = (leaves value).map (under key) := by
  rw [leavesOfMembers, leavesOfMembers, List.append_nil]

mutual

theorem leaves_ne_nil : ∀ value, Nested value → leaves value ≠ []
  | .obj members, ⟨nonempty, nested⟩ => leavesOfMembers_ne_nil members nested nonempty
  | .null, _ | .bool _, _ | .int _, _ | .float _, _ | .str _, _ | .arr _, _ => List.cons_ne_nil _ _

theorem leavesOfMembers_ne_nil : ∀ members, NestedMembers members → members ≠ [] →
    leavesOfMembers members ≠ []
  | [], _, nonempty => absurd rfl nonempty
  | (_, value) :: _, ⟨⟨_, _, hvalue⟩, _⟩, _ =>
    List.append_ne_nil_of_left_ne_nil (by simpa using leaves_ne_nil value hvalue) _

end

mutual

theorem isSegment_of_mem_leaves : ∀ value, Nested value →
    ∀ leaf ∈ leaves value, ∀ name ∈ leaf.1, IsSegment name
  | .obj members, ⟨_, nested⟩ => isSegment_of_mem_leavesOfMembers members nested
  | .null, _ | .bool _, _ | .int _, _ | .float _, _ | .str _, _ | .arr _, _ => by simp [leaves]

theorem isSegment_of_mem_leavesOfMembers : ∀ members, NestedMembers members →
    ∀ leaf ∈ leavesOfMembers members, ∀ name ∈ leaf.1, IsSegment name
  | [], _ => nofun
  | (_, value) :: rest, ⟨⟨hkey, _, hvalue⟩, hrest⟩ =>
    List.forall_mem_append.mpr ⟨List.forall_mem_map.mpr fun leaf hleaf ↦
      List.forall_mem_cons.mpr ⟨hkey, isSegment_of_mem_leaves value hvalue leaf hleaf⟩,
      isSegment_of_mem_leavesOfMembers rest hrest⟩

end

mutual

/-- No two leaves of a document have the same names. -/
theorem nodup_leaves : ∀ value, Nested value → ((leaves value).map Prod.fst).Nodup
  | .obj members, ⟨_, nested⟩ => nodup_leavesOfMembers members nested
  | .null, _ | .bool _, _ | .int _, _ | .float _, _ | .str _, _ | .arr _, _ => by simp [leaves]

theorem nodup_leavesOfMembers : ∀ members, NestedMembers members →
    ((leavesOfMembers members).map Prod.fst).Nodup
  | [], _ => List.nodup_nil
  | (key, value) :: rest, ⟨⟨_, hnew, hvalue⟩, hrest⟩ => by
    rw [leavesOfMembers, List.map_append, List.map_map, List.nodup_append]
    refine ⟨?_, nodup_leavesOfMembers rest hrest, ?_⟩
    · have hnodup := (nodup_leaves value hvalue).map (List.cons_injective (a := key))
      rwa [List.map_map] at hnodup
    · -- leaves of different members differ in their first name
      intro path hpath later hlater heq
      obtain ⟨inner, -, rfl⟩ := List.mem_map.mp hpath
      obtain ⟨leaf, hleaf, rfl⟩ := List.mem_map.mp hlater
      obtain ⟨member, hmember, inner', -, rfl⟩ := mem_leavesOfMembers.mp hleaf
      have hkey : key = member.1 := (List.cons.inj heq).1
      exact hnew (hkey ▸ List.mem_map_of_mem hmember)

end

theorem names_ne_nil (h : leaf ∈ leavesOfMembers members) : leaf.1 ≠ [] := by
  obtain ⟨member, -, inner, -, rfl⟩ := mem_leavesOfMembers.mp h
  exact List.cons_ne_nil _ _

/-! ## Flattening -/

def dotted (leaf : List String × Json) : String × Json := (Path.join leaf.1, leaf.2)

theorem childPath_join {front : List String} (segments : ∀ name ∈ front, IsSegment name)
    (key : String) : childPath (Path.join front) key = Path.join (front ++ [key]) := by
  unfold childPath
  by_cases hnil : front = []
  · subst hnil
    rfl
  · have hfilled : (Path.join front).isEmpty = false := by
      rw [Bool.eq_false_iff, Ne, String.isEmpty_iff]
      exact Path.join_ne_empty hnil fun name hname ↦ (segments name hname).1
    rw [hfilled, Path.join_append hnil (List.cons_ne_nil _ _)]
    rfl

/-- Writes entries one after another. -/
def putAll (flat : Flat) (entries : List (String × Json)) : Flat :=
  entries.foldl (fun flat entry ↦ Entries.put entry.1 entry.2 flat) flat

mutual

theorem flattenInto_join : ∀ (value : Json) (front : List String) (flat : Flat), Nested value →
    (∀ name ∈ front, IsSegment name) → flattenInto (Path.join front) flat value =
      putAll flat ((leaves value).map fun leaf ↦ dotted (front ++ leaf.1, leaf.2))
  | .obj members, front, flat, nested, segments => by
    rw [flattenInto, leaves]
    exact flattenMembers_join members front flat nested.2 segments
  | .null, front, flat, _, _ | .bool _, front, flat, _, _ | .int _, front, flat, _, _
  | .float _, front, flat, _, _ | .str _, front, flat, _, _ | .arr _, front, flat, _, _ => by
    simp [flattenInto, leaves, putAll, dotted]

theorem flattenMembers_join : ∀ (members : List (String × Json)) (front : List String) (flat : Flat),
    NestedMembers members → (∀ name ∈ front, IsSegment name) →
      flattenMembers (Path.join front) flat members =
        putAll flat ((leavesOfMembers members).map fun leaf ↦ dotted (front ++ leaf.1, leaf.2))
  | [], _, _, _, _ => rfl
  | (key, value) :: rest, front, flat, ⟨⟨hkey, _, hvalue⟩, hrest⟩, segments => by
    have hfront : ∀ name ∈ front ++ [key], IsSegment name :=
      List.forall_mem_append.mpr ⟨segments, List.forall_mem_singleton.mpr hkey⟩
    rw [flattenMembers, childPath_join segments, flattenInto_join value (front ++ [key]) flat hvalue hfront,
      flattenMembers_join rest front _ hrest segments, leavesOfMembers, List.map_append, List.map_map]
    simp only [putAll, List.foldl_append, Function.comp_def, under, List.append_assoc,
      List.singleton_append]

end

theorem segments_dotted (nested : NestedMembers members) (h : leaf ∈ leavesOfMembers members) :
    Path.segments (dotted leaf).1 = leaf.1 :=
  Path.segments_join (names_ne_nil h) fun name hname ↦
    (isSegment_of_mem_leavesOfMembers members nested leaf h name hname).2

/-- Flattening joins the names of each leaf, in the order of the document. -/
theorem flatten_obj (nested : NestedMembers members) :
    flatten (.obj members) = (leavesOfMembers members).map dotted := by
  have hdistinct : (Entries.keys ((leavesOfMembers members).map dotted)).Nodup := by
    rw [Entries.keys, List.map_map]
    have hcut : ((leavesOfMembers members).map (Prod.fst ∘ dotted)).map Path.segments =
        (leavesOfMembers members).map Prod.fst := by
      rw [List.map_map]
      exact List.map_congr_left fun leaf hleaf ↦ segments_dotted nested hleaf
    apply List.Nodup.of_map Path.segments
    rw [hcut]
    exact nodup_leavesOfMembers members nested
  calc
    flatten (.obj members) = flattenMembers (Path.join []) [] members := rfl
    _ = putAll [] ((leavesOfMembers members).map dotted) :=
      flattenMembers_join members [] [] nested (by simp)
    _ = (leavesOfMembers members).map dotted := Entries.ofList_of_nodup hdistinct

/-! ## Nesting -/

/-- Writes leaves one after another below the members of an object. -/
def insertAll (members : List (String × Json)) (leaves : List (List String × Json)) :
    List (String × Json) :=
  leaves.foldl (fun members leaf ↦ insertPath members leaf.2 leaf.1) members

def undotted (entry : String × Json) : List String × Json := (Path.segments entry.1, entry.2)

theorem unflatten_eq (flat : Flat) : unflatten flat = .obj (insertAll [] (flat.map undotted)) := by
  rw [unflatten, insertAll, List.foldl_map]
  rfl

/-- The members of the object under a name; there are none if nothing or no object is there. -/
def childMembers (members : List (String × Json)) (key : String) : List (String × Json) :=
  ((Entries.get? members key).bind Json.members?).getD []

theorem insertPath_cons (members : List (String × Json)) (value : Json) (key : String)
    (nonempty : path ≠ []) : insertPath members value (key :: path) =
      Entries.put key (.obj (insertPath (childMembers members key) value path)) members := by
  cases path with
  | nil => exact absurd rfl nonempty
  | cons next rest => rfl

theorem childMembers_append (absent : key ∉ Entries.keys members) (inner : List (String × Json)) :
    childMembers (members ++ [(key, .obj inner)]) key = inner := by
  have hget : Entries.get? (members ++ [(key, .obj inner)]) key = some (.obj inner) := by
    rw [Entries.get?_append, Entries.get?_eq_none_iff.mpr absent, Entries.get?_cons]
    simp
  rw [childMembers, hget]
  rfl

theorem childMembers_of_absent (absent : key ∉ Entries.keys members) : childMembers members key = [] := by
  rw [childMembers, Entries.get?_eq_none_iff.mpr absent]
  rfl

/-- Leaves below the last member are written there. -/
theorem insertAll_under (absent : key ∉ Entries.keys members) (inner : List (String × Json))
    (below : List (List String × Json)) (nonempty : ∀ leaf ∈ below, leaf.1 ≠ []) :
    insertAll (members ++ [(key, .obj inner)]) (below.map (under key)) =
      members ++ [(key, .obj (insertAll inner below))] := by
  induction below generalizing inner with
  | nil => rfl
  | cons leaf rest ih =>
    obtain ⟨hleaf, hrest⟩ := List.forall_mem_cons.mp nonempty
    have hfirst : insertPath (members ++ [(key, .obj inner)]) leaf.2 (key :: leaf.1) =
        members ++ [(key, .obj (insertPath inner leaf.2 leaf.1))] := by
      rw [insertPath_cons _ _ _ hleaf, childMembers_append absent, Entries.put_append_cons absent]
    calc
      insertAll (members ++ [(key, .obj inner)]) ((leaf :: rest).map (under key)) =
          insertAll (insertPath (members ++ [(key, .obj inner)]) leaf.2 (key :: leaf.1))
            (rest.map (under key)) := rfl
      _ = members ++ [(key, .obj (insertAll (insertPath inner leaf.2 leaf.1) rest))] := by
        rw [hfirst, ih _ hrest]
      _ = members ++ [(key, .obj (insertAll inner (leaf :: rest)))] := rfl

/-- The first leaf below a new name makes the object that the others are written into. -/
theorem insertAll_new (absent : key ∉ Entries.keys members) {below : List (List String × Json)}
    (filled : below ≠ []) (nonempty : ∀ leaf ∈ below, leaf.1 ≠ []) :
    insertAll members (below.map (under key)) = members ++ [(key, .obj (insertAll [] below))] := by
  cases below with
  | nil => exact absurd rfl filled
  | cons leaf rest =>
    obtain ⟨hleaf, hrest⟩ := List.forall_mem_cons.mp nonempty
    have hfirst : insertPath members leaf.2 (key :: leaf.1) =
        members ++ [(key, .obj (insertPath [] leaf.2 leaf.1))] := by
      rw [insertPath_cons _ _ _ hleaf, childMembers_of_absent absent, Entries.put_of_not_mem absent]
    calc
      insertAll members ((leaf :: rest).map (under key)) =
          insertAll (insertPath members leaf.2 (key :: leaf.1)) (rest.map (under key)) := rfl
      _ = members ++ [(key, .obj (insertAll (insertPath [] leaf.2 leaf.1) rest))] := by
        rw [hfirst, insertAll_under absent _ rest hrest]
      _ = members ++ [(key, .obj (insertAll [] (leaf :: rest)))] := rfl

mutual

/-- Writing the leaves below a new name writes the document under this name. -/
theorem insertAll_leaves : ∀ (value : Json) (key : String) (members : List (String × Json)),
    Nested value → key ∉ Entries.keys members →
      insertAll members ((leaves value).map (under key)) = members ++ [(key, value)]
  | .obj inner, key, members, ⟨nonempty, nested⟩, absent => by
    have hinner := insertAll_leavesOfMembers inner [] nested (by simp)
    rw [leaves, insertAll_new absent (leavesOfMembers_ne_nil inner nested nonempty)
      (fun leaf hleaf ↦ names_ne_nil hleaf), hinner, List.nil_append]
  | .null, key, members, _, absent | .bool _, key, members, _, absent | .int _, key, members, _, absent
  | .float _, key, members, _, absent | .str _, key, members, _, absent
  | .arr _, key, members, _, absent => Entries.put_of_not_mem absent

/-- Writing the leaves of members behind others writes the members. -/
theorem insertAll_leavesOfMembers : ∀ members front : List (String × Json), NestedMembers members →
    (∀ key ∈ Entries.keys members, key ∉ Entries.keys front) →
      insertAll front (leavesOfMembers members) = front ++ members
  | [], front, _, _ => (List.append_nil front).symm
  | (key, value) :: rest, front, ⟨⟨_, hnew, hvalue⟩, hrest⟩, apart => by
    obtain ⟨hkey, hlater⟩ := List.forall_mem_cons.mp apart
    have hbehind : ∀ name ∈ Entries.keys rest, name ∉ Entries.keys (front ++ [(key, value)]) := by
      intro name hname hmem
      rw [Entries.keys_append] at hmem
      rcases List.mem_append.mp hmem with hfront | hlast
      · exact hlater name hname hfront
      · obtain rfl := List.mem_singleton.mp hlast
        exact hnew hname
    calc
      insertAll front (leavesOfMembers ((key, value) :: rest)) =
          insertAll (insertAll front ((leaves value).map (under key))) (leavesOfMembers rest) := by
        rw [leavesOfMembers, insertAll, List.foldl_append]
        rfl
      _ = front ++ [(key, value)] ++ rest := by
        rw [insertAll_leaves value key front hvalue hkey,
          insertAll_leavesOfMembers rest _ hrest hbehind]
      _ = front ++ (key, value) :: rest := List.append_assoc front [(key, value)] rest

end

theorem unflatten_flatten (nested : NestedMembers members) :
    unflatten (flatten (.obj members)) = .obj members := by
  have hleaves : (flatten (.obj members)).map undotted = leavesOfMembers members := by
    rw [flatten_obj nested, List.map_map]
    conv_rhs => rw [← List.map_id (leavesOfMembers members)]
    apply List.map_congr_left
    intro leaf hleaf
    exact Prod.ext (segments_dotted nested hleaf) rfl
  rw [unflatten_eq, hleaves, insertAll_leavesOfMembers members [] nested (by simp), List.nil_append]

/-! ## One more leaf -/

theorem put_ne_nil (key : String) (value : Json) (members : List (String × Json)) :
    Entries.put key value members ≠ [] := by
  cases members with
  | nil => exact List.cons_ne_nil _ _
  | cons member rest =>
    obtain ⟨other, held⟩ := member
    rw [Entries.put]
    split <;> exact List.cons_ne_nil _ _

theorem NestedMembers.put (h : NestedMembers members) (hkey : IsSegment key) (hvalue : Nested value) :
    NestedMembers (Entries.put key value members) := by
  obtain ⟨distinct, hmembers⟩ := nestedMembers_iff.mp h
  refine nestedMembers_iff.mpr ⟨Entries.nodup_keys_put distinct, fun member hmember ↦ ?_⟩
  rcases (Entries.mem_put distinct).mp hmember with ⟨hname, hheld⟩ | ⟨-, hold⟩
  · rw [hname, hheld]
    exact ⟨hkey, hvalue⟩
  · exact hmembers member hold

theorem NestedMembers.child (h : NestedMembers members) (key : String) :
    NestedMembers (childMembers members key) := by
  unfold childMembers
  cases hget : Entries.get? members key with
  | none => exact trivial
  | some held =>
    cases held with
    | obj inner => exact ((nestedMembers_iff.mp h).2 _ (Entries.mem_of_get? hget)).2.2
    | _ => exact trivial

/-- Writing a leaf keeps documents nested. -/
theorem NestedMembers.insertPath (h : NestedMembers members) (hvalue : Nested value)
    (nonempty : path ≠ []) (segments : ∀ name ∈ path, IsSegment name) :
    Nested (.obj (insertPath members value path)) := by
  induction path generalizing members with
  | nil => exact absurd rfl nonempty
  | cons key rest ih =>
    obtain ⟨hkey, hrest⟩ := List.forall_mem_cons.mp segments
    by_cases hnil : rest = []
    · subst hnil
      exact ⟨put_ne_nil _ _ _, h.put hkey hvalue⟩
    · rw [insertPath_cons _ _ _ hnil]
      exact ⟨put_ne_nil _ _ _, h.put hkey (ih (h.child key) hnil hrest)⟩

/-- Neither path leads to or through the place of the other. -/
def Apart (first second : List String) : Prop := ¬first <+: second ∧ ¬second <+: first

theorem apart_cons {first second : List String} :
    Apart (key :: first) (key :: second) ↔ Apart first second := by
  simp [Apart, List.cons_prefix_cons]

theorem mem_leavesOfMembers_under {held : Json} {inner : List String × Json}
    (hmember : (key, held) ∈ members) (hinner : inner ∈ leaves held) :
    under key inner ∈ leavesOfMembers members :=
  mem_leavesOfMembers.mpr ⟨(key, held), hmember, inner, hinner, rfl⟩

/-- A name that paths apart from all leaves start with holds an object, if anything, and they lead on. -/
theorem exists_obj_of_apart {held : Json} (nested : NestedMembers members)
    (hmember : (key, held) ∈ members)
    (apart : ∀ leaf ∈ leavesOfMembers members, Apart leaf.1 (key :: path)) :
    path ≠ [] ∧ ∃ inner, held = .obj inner ∧ NestedMembers inner ∧
      ∀ leaf ∈ leavesOfMembers inner, Apart leaf.1 path := by
  have hheld : Nested held := ((nestedMembers_iff.mp nested).2 _ hmember).2
  have hbelow : ∀ leaf ∈ leaves held, Apart leaf.1 path := fun leaf hleaf ↦
    apart_cons.mp (apart _ (mem_leavesOfMembers_under hmember hleaf))
  constructor
  · rintro rfl
    obtain ⟨leaf, hleaf⟩ := List.exists_mem_of_ne_nil _ (leaves_ne_nil held hheld)
    exact (hbelow leaf hleaf).2 List.nil_prefix
  · cases held with
    | obj inner => exact ⟨inner, rfl, hheld.2, hbelow⟩
    | _ => exact absurd List.nil_prefix (hbelow ([], _) (List.mem_singleton_self _)).1

/-- Writing a leaf that is apart from the others adds it and keeps them. -/
theorem leavesOfMembers_insertPath (nested : NestedMembers members) (plain : value.isObject = false)
    (nonempty : path ≠ []) (apart : ∀ leaf ∈ leavesOfMembers members, Apart leaf.1 path) :
    (leavesOfMembers (insertPath members value path)).Perm ((path, value) :: leavesOfMembers members) := by
  induction path generalizing members with
  | nil => exact absurd rfl nonempty
  | cons key rest ih =>
    cases hget : Entries.get? members key with
    | none =>
      have absent := Entries.get?_eq_none_iff.mp hget
      -- the leaf is the only one below a new name
      have hnew : leavesOfMembers (insertPath members value (key :: rest)) =
          leavesOfMembers members ++ [(key :: rest, value)] := by
        by_cases hnil : rest = []
        · subst hnil
          rw [insertPath, Entries.put_of_not_mem absent, leavesOfMembers_append,
            leavesOfMembers_singleton, leaves_single plain]
          rfl
        · have hinner : (leavesOfMembers (insertPath [] value rest)).Perm [(rest, value)] :=
            ih trivial hnil (by simp [leavesOfMembers])
          rw [insertPath_cons _ _ _ hnil, childMembers_of_absent absent, Entries.put_of_not_mem absent,
            leavesOfMembers_append, leavesOfMembers_singleton, leaves, List.perm_singleton.mp hinner]
          rfl
      rw [hnew]
      exact List.perm_append_singleton _ _
    | some held =>
      obtain ⟨hnil, inner, rfl, hinner, hbelow⟩ :=
        exists_obj_of_apart nested (Entries.mem_of_get? hget) apart
      obtain ⟨front, back, rfl, habsent⟩ := Entries.exists_split hget
      have hchild : childMembers (front ++ (key, .obj inner) :: back) key = inner := by
        rw [childMembers, hget]
        rfl
      have hleaves : ∀ inner : List (String × Json),
          leavesOfMembers (front ++ (key, .obj inner) :: back) =
            leavesOfMembers front ++ ((leavesOfMembers inner).map (under key) ++ leavesOfMembers back) := by
        intro inner
        rw [leavesOfMembers_append, leavesOfMembers, leaves]
      rw [insertPath_cons _ _ _ hnil, hchild, Entries.put_append_cons habsent, hleaves, hleaves]
      have hwritten := ((ih hinner hnil hbelow).map (under key)).append_right (leavesOfMembers back)
      exact (hwritten.append_left (leavesOfMembers front)).trans List.perm_middle

/-! ## Every leaf -/

variable {below : List (List String × Json)}

/-- The leaves have places of their own, and nothing but objects can be written below them. -/
structure Placed (below : List (List String × Json)) : Prop where
  nonempty : ∀ leaf ∈ below, leaf.1 ≠ []
  segments : ∀ leaf ∈ below, ∀ name ∈ leaf.1, IsSegment name
  plain : ∀ leaf ∈ below, leaf.2.isObject = false
  apart : below.Pairwise fun leaf later ↦ Apart leaf.1 later.1

theorem nested_of_plain (plain : value.isObject = false) : Nested value := by
  cases value with
  | obj members => cases plain
  | _ => exact trivial

/-- Writing leaves apart from each other and from those that are there adds all of them. -/
theorem leavesOfMembers_insertAll (nested : NestedMembers members) (placed : Placed below)
    (apart : ∀ leaf ∈ leavesOfMembers members, ∀ later ∈ below, Apart leaf.1 later.1) :
    NestedMembers (insertAll members below) ∧
      (leavesOfMembers (insertAll members below)).Perm (leavesOfMembers members ++ below) := by
  induction below generalizing members with
  | nil => exact ⟨nested, by rw [List.append_nil]; exact List.Perm.refl _⟩
  | cons leaf rest ih =>
    obtain ⟨hnonempty, hnonemptyRest⟩ := List.forall_mem_cons.mp placed.nonempty
    obtain ⟨hsegments, hsegmentsRest⟩ := List.forall_mem_cons.mp placed.segments
    obtain ⟨hplain, hplainRest⟩ := List.forall_mem_cons.mp placed.plain
    obtain ⟨hapart, hapartRest⟩ := List.pairwise_cons.mp placed.apart
    have hwritten := leavesOfMembers_insertPath nested hplain hnonempty
      fun held hheld ↦ apart held hheld leaf List.mem_cons_self
    have hnested := (nested.insertPath (nested_of_plain hplain) hnonempty hsegments).2
    have hlater : ∀ held ∈ leavesOfMembers (insertPath members leaf.2 leaf.1), ∀ later ∈ rest,
        Apart held.1 later.1 := by
      intro held hheld later hmem
      rcases List.mem_cons.mp (hwritten.mem_iff.mp hheld) with rfl | hold
      · exact hapart later hmem
      · exact apart held hold later (List.mem_cons_of_mem _ hmem)
    obtain ⟨hresult, hperm⟩ :=
      ih hnested ⟨hnonemptyRest, hsegmentsRest, hplainRest, hapartRest⟩ hlater
    refine ⟨hresult, hperm.trans ?_⟩
    calc
      (leavesOfMembers (insertPath members leaf.2 leaf.1) ++ rest).Perm
          (leaf :: leavesOfMembers members ++ rest) := hwritten.append_right rest
      _ |>.Perm (leavesOfMembers members ++ leaf :: rest) := List.perm_middle.symm

/-! ## Flat documents -/

variable {flat : Flat}

/-- Every path has filled segments and a value that is no object, and no path lies below another. -/
structure Flattened (flat : Flat) : Prop where
  distinct : flat.keys.Nodup
  filled : ∀ path ∈ flat.keys, ∀ text ∈ Path.segments path, text ≠ ""
  plain : ∀ value ∈ flat.values, value.isObject = false
  apart : ∀ path ∈ flat.keys, ∀ other ∈ flat.keys, Path.isWithin path other = true → other = path

theorem dotted_undotted (entry : String × Json) : dotted (undotted entry) = entry :=
  Prod.ext (Path.join_segments entry.1) rfl

theorem Flattened.apart_segments (h : Flattened flat) {entry later : String × Json} (hentry : entry ∈ flat)
    (hlater : later ∈ flat) (hne : entry.1 ≠ later.1) : Apart (undotted entry).1 (undotted later).1 := by
  have hfirst := List.mem_map_of_mem (f := Prod.fst) hentry
  have hsecond := List.mem_map_of_mem (f := Prod.fst) hlater
  constructor
  · intro hprefix
    exact hne (h.apart _ hfirst _ hsecond (Path.isWithin_of_prefix hprefix)).symm
  · intro hprefix
    exact hne (h.apart _ hsecond _ hfirst (Path.isWithin_of_prefix hprefix))

theorem Flattened.placed (h : Flattened flat) : Placed (flat.map undotted) where
  nonempty := List.forall_mem_map.mpr fun entry _ ↦ Path.segments_ne_nil entry.1
  segments := List.forall_mem_map.mpr fun _ hentry _ htext ↦
    Path.isSegment_of_mem_segments htext (h.filled _ (List.mem_map_of_mem hentry) _ htext)
  plain := List.forall_mem_map.mpr fun _ hentry ↦ h.plain _ (List.mem_map_of_mem hentry)
  apart := by
    have hdistinct : flat.Pairwise fun entry later ↦ entry.1 ≠ later.1 :=
      List.pairwise_map.mp h.distinct
    rw [List.pairwise_map]
    exact hdistinct.imp_of_mem fun hentry hlater hne ↦ h.apart_segments hentry hlater hne

/-- Nesting a flat document and flattening it again gives its entries, in the order of the nested one. -/
theorem flatten_unflatten (h : Flattened flat) : (flatten (unflatten flat)).Perm flat := by
  have hempty : ∀ leaf ∈ leavesOfMembers [], ∀ later ∈ flat.map undotted, Apart leaf.1 later.1 := nofun
  have hnil : NestedMembers [] := trivial
  obtain ⟨hnested, hleaves⟩ := leavesOfMembers_insertAll hnil h.placed hempty
  have hid : dotted ∘ undotted = id := funext dotted_undotted
  calc
    flatten (unflatten flat) = (leavesOfMembers (insertAll [] (flat.map undotted))).map dotted := by
      rw [unflatten_eq, flatten_obj hnested]
    List.Perm _ ((flat.map undotted).map dotted) := hleaves.map dotted
    _ = flat := by rw [List.map_map, hid, List.map_id]

/-- Flattening and nesting are inverse to each other. -/
theorem flatten_inverse :
    (∀ members, NestedMembers members → unflatten (flatten (.obj members)) = .obj members) ∧
      ∀ flat, Flattened flat → (flatten (unflatten flat)).Perm flat :=
  ⟨fun _ nested ↦ unflatten_flatten nested, fun _ h ↦ flatten_unflatten h⟩

/-- A nested document whose leaves are of different depth, and a flat one that does not keep the paths
below one name together. -/
theorem flatten_inverse_mixed :
    let nested : List (String × Json) :=
      [("read", .obj [("one", .bool true), ("many", .obj [("paged", .bool false)])]),
        ("ids", .arr [.int 1, .obj []])]
    let flat : Flat := [("read.many.paged", .bool false), ("ids", .null), ("read.one", .bool true)]
    (NestedMembers nested ∧ unflatten (flatten (.obj nested)) = .obj nested) ∧
      Flattened flat ∧ (flatten (unflatten flat)).Perm flat := by
  intro nested flat
  have hnested : NestedMembers nested := by
    simp [nested, NestedMembers, Nested, IsSegment, Entries.keys]
  have hflat : Flattened flat := ⟨by decide, by decide, by decide, by decide⟩
  exact ⟨⟨hnested, flatten_inverse.1 _ hnested⟩, hflat, flatten_inverse.2 _ hflat⟩

end ResourceApi.Options

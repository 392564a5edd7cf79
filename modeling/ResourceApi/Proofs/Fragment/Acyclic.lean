import Mathlib.Algebra.Order.BigOperators.Group.List
import Mathlib.Algebra.Order.Ring.Nat
import Mathlib.Logic.Relation
import ResourceApi.Proofs.Compilation.Stages
import ResourceApi.Proofs.Fragment.Generation

/-!
# Spreads without cycles

A spread leads to a part of lower rank, or to a part of the same rank of a nested type, whose name is
longer.  So spreads cannot come back, as long as the name of a fragment tells the type and the part it
is for.  The names of fragments are put together without separators: they tell that unless the name of
one type is that of another with the beginning of a custom part behind it.
-/

namespace ResourceApi

open Relation (TransGen)

namespace FragmentSet

open Fragment

variable {objects : List TypeNode} {set : FragmentSet} {node node' : TypeNode}
  {object part part' name other : String} {weight : Nat}

/-- The fragment of the first name spreads one of the second name. -/
def Spreads (set : FragmentSet) (name other : String) : Prop :=
  ∃ fragment, set.get? name = some fragment ∧ other ∈ fragment.spreads

/-- The name of a fragment tells the type and the part it is for. -/
def Apart (objects : List TypeNode) : Prop :=
  ∀ node ∈ objects, ∀ node' ∈ objects, ∀ part ∈ listedParts node, ∀ part' ∈ listedParts node',
    nameFor node part = nameFor node' part' →
      node.name = node'.name ∧ node.base = node'.base ∧ part = part'

/-- Nested types have longer names than those around them. -/
def Deepens (objects : List TypeNode) : Prop :=
  ∀ node ∈ objects, ∀ field ∈ node.fields.values, field.kind = .object →
    ∀ target ∈ objects, target.name = field.typeName → node.base.length < target.base.length

/-! ## Weights -/

/-- A bound of the lengths of the names of all types. -/
def bound (objects : List TypeNode) : Nat := (objects.map fun node ↦ node.base.length).sum

theorem length_le_bound (mem : node ∈ objects) : node.base.length ≤ bound objects :=
  List.le_sum_of_mem (List.mem_map_of_mem mem)

/-- The fragment of the name is for a part and a type of the given weight: parts of higher rank are
heavier, and among those of one rank the parts of types with shorter names. -/
inductive Weighs (objects : List TypeNode) : String → Nat → Prop
  | intro {node : TypeNode} {part : String} (mem : node ∈ objects) (listed : part ∈ listedParts node) :
      Weighs objects (nameFor node part)
        (rank part * (bound objects + 1) + (bound objects - node.base.length))

theorem Provides.weighs (h : Provides objects set object part name) :
    ∃ node ∈ objects, node.name = object ∧
      Weighs objects name (rank part * (bound objects + 1) + (bound objects - node.base.length)) := by
  cases h with
  | intro mem named listed defined => exact ⟨_, mem, named, .intro mem listed⟩

theorem Weighs.unique (h : Weighs objects name weight) (apart : Apart objects) {weight' : Nat}
    (h' : Weighs objects name weight') : weight = weight' := by
  obtain ⟨key, hkey⟩ : ∃ key, name = key := ⟨_, rfl⟩
  rw [hkey] at h'
  cases h with
  | intro mem listed =>
    cases h' with
    | intro mem' listed' =>
      obtain ⟨-, hbase, hpart⟩ := apart _ mem _ mem' _ listed _ listed' hkey
      rw [hbase, hpart]

/-- A fragment is heavier than those that it spreads. -/
theorem Sound.lighter (h : Sound objects set) (apart : Apart objects) (deepens : Deepens objects)
    (spreads : set.Spreads name other) (weighs : Weighs objects name weight) :
    ∃ less < weight, Weighs objects other less := by
  obtain ⟨fragment, hfragment, hother⟩ := spreads
  obtain ⟨node, mem, listed, rfl, -, selects⟩ := h.exists_node hfragment
  have hweight := weighs.unique apart (.intro mem listed)
  obtain ⟨selection, hselection, hspread⟩ := List.mem_filterMap.mp hother
  obtain ⟨field, hfield, hselects⟩ := selects selection hselection
  have hbound := length_le_bound mem
  cases hselects with
  | leaf => cases hspread
  | identifier => cases hspread
  | @nested part _ kind provided lower =>
    cases hspread
    obtain ⟨target, htarget, htype, htargetWeighs⟩ := provided.weighs
    have hlonger := deepens node mem field hfield kind target htarget htype
    have htargetBound := length_le_bound htarget
    refine ⟨_, ?_, htargetWeighs⟩
    calc rank part * (bound objects + 1) + (bound objects - target.base.length)
        ≤ rank fragment.part * (bound objects + 1) + (bound objects - target.base.length) :=
          Nat.add_le_add_right (Nat.mul_le_mul_right _ lower) _
      _ < rank fragment.part * (bound objects + 1) + (bound objects - node.base.length) := by omega
      _ = weight := hweight.symm
  | @referred part _ kind provided lower =>
    cases hspread
    obtain ⟨target, htarget, -, htargetWeighs⟩ := provided.weighs
    refine ⟨_, ?_, htargetWeighs⟩
    calc rank part * (bound objects + 1) + (bound objects - target.base.length)
        < (rank part + 1) * (bound objects + 1) := by
          rw [Nat.succ_mul]
          omega
      _ ≤ rank fragment.part * (bound objects + 1) := Nat.mul_le_mul_right _ lower
      _ ≤ weight := by omega

theorem Sound.lighter_of_transGen (h : Sound objects set) (apart : Apart objects)
    (deepens : Deepens objects) (path : TransGen set.Spreads name other)
    (weighs : Weighs objects name weight) : ∃ less < weight, Weighs objects other less := by
  induction path with
  | single spreads => exact h.lighter apart deepens spreads weighs
  | tail _ spreads ih =>
    obtain ⟨middle, hmiddle, hweighs⟩ := ih
    obtain ⟨less, hless, hlast⟩ := h.lighter apart deepens spreads hweighs
    exact ⟨less, hless.trans hmiddle, hlast⟩

/-- No fragment spreads itself, directly or through others. -/
theorem Sound.acyclic (h : Sound objects set) (apart : Apart objects) (deepens : Deepens objects)
    (name : String) : ¬TransGen set.Spreads name name := by
  intro hcycle
  obtain ⟨first, ⟨fragment, hfragment, -⟩, -⟩ := TransGen.head'_iff.mp hcycle
  obtain ⟨node, mem, listed, rfl, -, -⟩ := h.exists_node hfragment
  have hweighs := Weighs.intro mem listed
  obtain ⟨less, hless, hlighter⟩ := h.lighter_of_transGen apart deepens hcycle hweighs
  have hsame := hlighter.unique apart hweighs
  omega

/-- The fragment that is provided for a part of a type is on that type and holds that part. -/
theorem Sound.exists_fragment (h : Sound objects set) (apart : Apart objects)
    (provides : Provides objects set object part name) :
    ∃ fragment, set.get? name = some fragment ∧ fragment.on = object ∧ fragment.part = part := by
  cases provides with
  | intro mem owner listed defined =>
    obtain ⟨fragment, hfragment⟩ := Option.isSome_iff_exists.mp defined
    obtain ⟨node', mem', listed', named, on, -⟩ := h.exists_node hfragment
    obtain ⟨howner, -, hpart⟩ := apart _ mem _ mem' _ listed _ listed' named
    exact ⟨fragment, hfragment, on.trans (howner.symm.trans owner), hpart.symm⟩

theorem Sound.owned (h : Sound objects set) (apart : Apart objects)
    (found : set.fragmentFor? object part = some name) :
    ∃ fragment, set.get? name = some fragment ∧ fragment.on = object ∧ fragment.part = part :=
  h.exists_fragment apart (h.parts object part name found)

end FragmentSet
end ResourceApi

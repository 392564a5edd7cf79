import Mathlib.Logic.Relation
import ResourceApi.Proofs.Graph.Root
import ResourceApi.Resolver.Table

/-!
# The walk over inputs

The scalar checks of an action are collected by a walk that follows object fields from input to input,
by the names of their types.  The walk looks names up anew at every step, so nothing but the names keeps
it from coming back.  `Collects` is the walk without a bound on its depth: a derivation is a walk that
ends.  If no input leads to itself, every step leaves a type behind, and the bound that `inputChecks` is
given is never met; so it is if every step leads to a longer name.
-/

namespace ResourceApi

open Relation (ReflTransGen TransGen)

variable {scalars : ScalarRegistry} {graph : TypeGraph} {input next : String} {path : List String}
  {checks : List ScalarCheck} {fuel : Nat}

namespace TypeGraph

/-- The input of the first name has an object field of the second name, as the graph finds the input. -/
def LeadsTo (graph : TypeGraph) (input next : String) : Prop :=
  ∃ node, (graph.get? input).filter TypeNode.isInput = some node ∧
    ∃ field ∈ node.fields.values, field.kind = .object ∧ field.typeName = next

instance (graph : TypeGraph) (input next : String) : Decidable (graph.LeadsTo input next) :=
  decidable_of_iff (((graph.get? input).filter TypeNode.isInput).any fun node ↦
      node.fields.values.any fun field ↦ field.kind == .object && field.typeName == next) <| by
    simp [LeadsTo, Option.any_eq_true, and_assoc]

/-- Inputs lead to longer names only. -/
def InputsLengthen (graph : TypeGraph) : Prop :=
  ∀ input next, graph.LeadsTo input next → input.length < next.length

/-- No input leads to itself, directly or through others. -/
theorem InputsLengthen.acyclic (h : graph.InputsLengthen) (input : String) :
    ¬TransGen graph.LeadsTo input input := by
  have hlonger : ∀ {next}, TransGen graph.LeadsTo input next → input.length < next.length := by
    intro next hpath
    induction hpath with
    | single hstep => exact h _ _ hstep
    | tail _ hstep ih => exact ih.trans (h _ _ hstep)
  exact fun hcycle ↦ Nat.lt_irrefl _ (hlonger hcycle)

/-- It is enough that the object fields of every type are of longer names than the type. -/
theorem inputsLengthen_of_types (h : ∀ types ∈ graph.levels, ∀ entry ∈ types,
    ∀ field ∈ entry.2.fields.values, field.kind = .object →
      entry.1.length < field.typeName.length) : graph.InputsLengthen := by
  rintro input next ⟨node, hnode, field, hfield, hkind, rfl⟩
  obtain ⟨types, htypes, hget⟩ :=
    List.exists_of_findSome?_eq_some (Option.eq_some_of_filter_eq_some hnode)
  exact h types htypes (input, node) (Entries.mem_of_get? hget) field hfield hkind

/-- The names that types stand under. -/
def typeNames (graph : TypeGraph) : List String := graph.levels.flatMap Entries.keys

theorem length_typeNames (graph : TypeGraph) : graph.typeNames.length = graph.size := by
  simp only [typeNames, size, definitions, List.length_flatMap, Entries.keys, Entries.values,
    List.length_map]

theorem mem_typeNames {node : TypeNode} (h : graph.get? input = some node) :
    input ∈ graph.typeNames := by
  obtain ⟨types, htypes, hnode⟩ := List.exists_of_findSome?_eq_some h
  exact List.mem_flatMap.mpr ⟨types, htypes, List.mem_map_of_mem (Entries.mem_of_get? hnode)⟩

theorem exists_typeAt?_of_get? {node : TypeNode} (h : graph.get? input = some node) :
    ∃ level, graph.typeAt? level input = some node := by
  obtain ⟨types, htypes, hnode⟩ := List.exists_of_findSome?_eq_some h
  obtain ⟨level, hlevel⟩ := List.mem_iff_getElem?.mp htypes
  refine ⟨level, ?_⟩
  unfold typeAt?
  rw [hlevel]
  exact hnode

open Classical in
/-- The names of types that the walk from an input may come to. -/
noncomputable def namesFrom (graph : TypeGraph) (input : String) : List String :=
  graph.typeNames.filter fun name ↦ ReflTransGen graph.LeadsTo input name

/-- If no input leads to itself, a step leaves its input behind. -/
theorem length_namesFrom_lt (acyclic : ∀ input, ¬TransGen graph.LeadsTo input input)
    (step : graph.LeadsTo input next) :
    (graph.namesFrom next).length < (graph.namesFrom input).length := by
  have hsublist : (graph.namesFrom next).Sublist (graph.namesFrom input) := by
    refine List.monotone_filter_right _ fun name hname ↦ ?_
    simp only [decide_eq_true_eq] at hname ⊢
    exact .head step hname
  refine Nat.lt_of_le_of_ne hsublist.length_le fun hlength ↦ ?_
  have ⟨node, hnode, _⟩ := step
  have hmem := mem_typeNames (Option.eq_some_of_filter_eq_some hnode)
  have hinput : input ∈ graph.namesFrom next := by
    rw [hsublist.eq_of_length hlength]
    simpa [namesFrom] using And.intro hmem ReflTransGen.refl
  have hback : ReflTransGen graph.LeadsTo next input := by
    simpa [namesFrom, hmem] using hinput
  exact acyclic input (TransGen.head' step hback)

end TypeGraph

namespace ResourceResolvers

/-- What the walk collects at a field: a check, or what has been collected in the nested input. -/
def fieldChecks (scalars : ScalarRegistry) (path : List String) (nested : List ScalarCheck)
    (field : FieldNode) : List ScalarCheck :=
  match field.kind with
  | .scalar =>
    if !Scalar.isBuiltin field.typeName && scalars.has field.typeName then [⟨path, field.typeName⟩]
    else []
  | .object => nested
  | _ => []

/-- The walk from an input ends with the given checks. -/
inductive Collects (scalars : ScalarRegistry) (graph : TypeGraph) :
    String → List String → List ScalarCheck → Prop
  | absent {input : String} {path : List String}
      (missing : (graph.get? input).filter TypeNode.isInput = none) :
      Collects scalars graph input path []
  | input {input : String} {path : List String} {node : TypeNode}
      {nested : FieldNode → List ScalarCheck}
      (found : (graph.get? input).filter TypeNode.isInput = some node)
      (walks : ∀ field ∈ node.fields.values, field.kind = .object →
        Collects scalars graph field.typeName (path ++ [field.name]) (nested field)) :
      Collects scalars graph input path (node.fields.values.flatMap fun field ↦
        fieldChecks scalars (path ++ [field.name]) (nested field) field)

/-- A walk that ends does not come back to where it started. -/
theorem Collects.acyclic (h : Collects scalars graph input path checks) :
    ¬TransGen graph.LeadsTo input input := by
  intro hcycle
  induction h with
  | absent missing =>
    obtain ⟨_, ⟨node, hnode, _⟩, _⟩ := TransGen.head'_iff.mp hcycle
    cases missing.symm.trans hnode
  | input found walks ih =>
    obtain ⟨_, hstep, hback⟩ := TransGen.head'_iff.mp hcycle
    have hlater := TransGen.tail' hback hstep
    obtain ⟨node, hnode, field, hfield, hkind, rfl⟩ := hstep
    obtain rfl := Option.some.inj (found.symm.trans hnode)
    exact ih field hfield hkind hlater

theorem inputChecks_of_none (h : (graph.get? input).filter TypeNode.isInput = none) (fuel : Nat) :
    inputChecks scalars graph fuel input path = [] := by
  cases fuel with
  | zero => rfl
  | succ fuel => rw [inputChecks, h]

theorem inputChecks_of_some {node : TypeNode}
    (h : (graph.get? input).filter TypeNode.isInput = some node) (fuel : Nat) :
    inputChecks scalars graph (fuel + 1) input path = node.fields.values.flatMap fun field ↦
      fieldChecks scalars (path ++ [field.name])
        (inputChecks scalars graph fuel field.typeName (path ++ [field.name])) field := by
  rw [inputChecks, h]
  rfl

/-- A bound on the depth that is above the number of types ahead is not met. -/
theorem collects_inputChecks (acyclic : ∀ input, ¬TransGen graph.LeadsTo input input)
    (enough : (graph.namesFrom input).length < fuel) :
    Collects scalars graph input path (inputChecks scalars graph fuel input path) := by
  induction fuel generalizing input path with
  | zero => exact absurd enough (Nat.not_lt_zero _)
  | succ fuel ih =>
    cases hinput : (graph.get? input).filter TypeNode.isInput with
    | none =>
      rw [inputChecks_of_none hinput]
      exact .absent hinput
    | some node =>
      rw [inputChecks_of_some hinput]
      refine .input hinput fun field hfield hkind ↦ ih ?_
      have hless := TypeGraph.length_namesFrom_lt acyclic ⟨node, hinput, field, hfield, hkind, rfl⟩
      exact Nat.lt_of_lt_of_le hless (Nat.le_of_lt_succ enough)

/-- If no input leads to itself, the checks of an action are what the walk from its input collects. -/
theorem collects_of_acyclic (acyclic : ∀ input, ¬TransGen graph.LeadsTo input input)
    (scalars : ScalarRegistry) (action : InputAction) :
    Collects scalars graph (inputTypeName action graph.resource) []
      (scalarChecks scalars graph action) := by
  refine collects_inputChecks acyclic (Nat.lt_succ_of_le ?_)
  rw [← graph.length_typeNames]
  exact List.length_filter_le _ _

theorem collects_scalarChecks (lengthen : graph.InputsLengthen) (scalars : ScalarRegistry)
    (action : InputAction) :
    Collects scalars graph (inputTypeName action graph.resource) []
      (scalarChecks scalars graph action) :=
  collects_of_acyclic lengthen.acyclic scalars action

end ResourceResolvers
end ResourceApi

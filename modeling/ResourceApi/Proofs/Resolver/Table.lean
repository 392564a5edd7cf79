import Mathlib.Data.List.Induction
import ResourceApi.Proofs.Entries
import ResourceApi.Proofs.Signature
import ResourceApi.Resolver.Table

/-!
# What a resolver table serves

The resolver of a root field runs one operation of one resource.  The resolvers of a resource are added
one signature after another, so of several signatures with one name the last is served; among resources
the first that has the name serves it.
-/

namespace ResourceApi

/-! ## The operations of resolvers -/

def QueryResolver.operation (resolver : QueryResolver) : Operation :=
  .query resolver.range resolver.segment resolver.part

def MutationResolver.operation (resolver : MutationResolver) : Operation :=
  .mutation resolver.action resolver.target

/-- The operation that is run for a root field of a kind. -/
def ResourceResolvers.operation? (resolvers : ResourceResolvers) :
    OperationKind → String → Option Operation
  | .query, field => (resolvers.query.get? field).map (·.operation)
  | .mutation, field => (resolvers.mutation.get? field).map (·.operation)

/-- The resource and the operation that a root field of a kind is resolved with. -/
def ResolverTable.served? (table : ResolverTable) :
    OperationKind → String → Option (String × Operation)
  | .query, field => (table.query? field).map fun resolver ↦ (resolver.resource, resolver.operation)
  | .mutation, field =>
    (table.mutation? field).map fun resolver ↦ (resolver.model.resource, resolver.operation)

namespace ResourceResolvers

variable {scalars : ScalarRegistry} {graph : TypeGraph} {model : ModelHandle}
  {resolvers : ResourceResolvers} {signatures : List Signature} {kind : OperationKind}
  {field : String}

/-! ## One signature -/

/-- Adding a signature changes what its own field is served with, and nothing else. -/
theorem operation?_addSignature (scalars : ScalarRegistry) (graph : TypeGraph) (model : ModelHandle)
    (resolvers : ResourceResolvers) (signature : Signature) (kind : OperationKind) (field : String) :
    (addSignature scalars graph model resolvers signature).operation? kind field =
      if signature.kind = kind ∧ signature.name = field then some signature.operation
      else resolvers.operation? kind field := by
  unfold addSignature Signature.kind
  cases hoperation : signature.operation with
  | query range segment part =>
    cases kind with
    | query =>
      by_cases hfield : signature.name = field
      · subst hfield
        simp only [operation?, Entries.get?_put_self, Operation.kind, and_self, if_true]
        rfl
      · simp [operation?, Entries.get?_put_of_ne _ _ (Ne.symm hfield), hfield]
    | mutation => simp [operation?, Operation.kind]
  | mutation action target =>
    cases kind with
    | query => simp [operation?, Operation.kind]
    | mutation =>
      by_cases hfield : signature.name = field
      · subst hfield
        simp only [operation?, Entries.get?_put_self, Operation.kind, and_self, if_true]
        rfl
      · simp [operation?, Entries.get?_put_of_ne _ _ (Ne.symm hfield), hfield]

theorem mem_rootFields {segment : Segment} : field ∈ rootFields graph segment ↔
    ∃ root, graph.root? segment = some root ∧ field ∈ root.fields.keys := by
  unfold rootFields
  cases graph.root? segment <;> simp

/-- The resolvers are those of one resource and of its graph. -/
structure MadeFor (graph : TypeGraph) (model : ModelHandle) (resolvers : ResourceResolvers) :
    Prop where
  query : ∀ field resolver, resolvers.query.get? field = some resolver →
    resolver = queryResolver graph resolver.range resolver.segment resolver.part
  mutation : ∀ field resolver, resolvers.mutation.get? field = some resolver →
    resolver.model = model

section Queries

variable {resolver : QueryResolver} (h : MadeFor graph model resolvers)
  (found : resolvers.query.get? field = some resolver)
include h found

theorem MadeFor.resource : resolver.resource = graph.resource :=
  congrArg QueryResolver.resource (h.query field resolver found)

theorem MadeFor.projection : resolver.projection = rootFields graph resolver.segment :=
  congrArg QueryResolver.projection (h.query field resolver found)

theorem MadeFor.label : resolver.label = labelField? graph resolver.segment :=
  congrArg QueryResolver.label (h.query field resolver found)

end Queries

theorem MadeFor.addSignature (h : MadeFor graph model resolvers) (scalars : ScalarRegistry)
    (signature : Signature) :
    MadeFor graph model (addSignature scalars graph model resolvers signature) := by
  unfold ResourceResolvers.addSignature
  cases signature.operation with
  | query range segment part =>
    refine ⟨fun field resolver hget ↦ ?_, h.mutation⟩
    by_cases hfield : field = signature.name
    · subst hfield
      rw [Entries.get?_put_self] at hget
      rw [← Option.some.inj hget]
      rfl
    · rw [Entries.get?_put_of_ne _ _ hfield] at hget
      exact h.query field resolver hget
  | mutation action target =>
    refine ⟨h.query, fun field resolver hget ↦ ?_⟩
    by_cases hfield : field = signature.name
    · subst hfield
      rw [Entries.get?_put_self] at hget
      rw [← Option.some.inj hget]
      rfl
    · rw [Entries.get?_put_of_ne _ _ hfield] at hget
      exact h.mutation field resolver hget

/-! ## All signatures -/

/-- The operation of the last signature of a kind and a name. -/
def lastOperation? (signatures : List Signature) (kind : OperationKind) (field : String) :
    Option Operation :=
  (signatures.filter fun signature ↦
    signature.kind = kind ∧ signature.name = field).getLast?.map (·.operation)

/-- A root field is served with the last signature of its name. -/
theorem operation?_ofGraph (scalars : ScalarRegistry) (graph : TypeGraph)
    (operations : OperationSchema) (model : ModelHandle) (kind : OperationKind) (field : String) :
    (ofGraph scalars graph operations model).operation? kind field =
      lastOperation? operations.signatures kind field := by
  unfold ofGraph lastOperation?
  induction operations.signatures using List.reverseRecOn with
  | nil => cases kind <;> rfl
  | append_singleton front last ih =>
    rw [List.foldl_append, List.foldl_cons, List.foldl_nil, operation?_addSignature, ih,
      List.filter_append]
    by_cases hlast : last.kind = kind ∧ last.name = field <;> simp [hlast]

/-- Of the operations that a graph serves under one name the last one has the field. -/
theorem lastOperation?_ofGraph (names : OperationNames) (config : GenerationConfig)
    (graph : TypeGraph) (kind : OperationKind) (field : String) :
    lastOperation? (OperationSchema.ofGraph names config graph).signatures kind field =
      ((Operation.served names.resource config graph kind).filter fun operation ↦
        (names.signature operation).name = field).getLast? := by
  have hsplit : (OperationSchema.ofGraph names config graph).signatures.filter
      (fun signature ↦ signature.kind = kind ∧ signature.name = field) =
        ((Operation.served names.resource config graph kind).filter
          fun operation ↦ (names.signature operation).name = field).map names.signature := by
    have hnamed := congrArg (List.filter fun signature ↦ signature.name = field)
      (OperationSchema.filter_kind_signatures names config graph kind)
    rw [OperationSchema.ofKind_ofGraph, List.filter_map, List.filter_filter] at hnamed
    refine Eq.trans (List.filter_congr fun signature _ ↦ ?_) hnamed
    rw [Bool.decide_and, Bool.and_comm]
  unfold lastOperation?
  rw [hsplit, List.getLast?_map, Option.map_map]
  exact congrFun Option.map_id _

/-! ## Names of root fields -/

/-- The names of the root fields of a kind that are resolved. -/
def fieldNames (resolvers : ResourceResolvers) : OperationKind → List String
  | .query => resolvers.query.keys
  | .mutation => resolvers.mutation.keys

/-- A new name of the kind goes to the end. -/
theorem fieldNames_addSignature (scalars : ScalarRegistry) (graph : TypeGraph) (model : ModelHandle)
    (signature : Signature)
    (fresh : signature.kind = kind → signature.name ∉ resolvers.fieldNames kind) :
    (addSignature scalars graph model resolvers signature).fieldNames kind =
      resolvers.fieldNames kind ++ if signature.kind = kind then [signature.name] else [] := by
  unfold Signature.kind at fresh ⊢
  unfold addSignature
  cases hoperation : signature.operation <;> rw [hoperation] at fresh <;> cases kind
  · simp [fieldNames, Operation.kind, Entries.put_of_not_mem (fresh rfl), Entries.keys_append]
  · simp [fieldNames, Operation.kind]
  · simp [fieldNames, Operation.kind]
  · simp [fieldNames, Operation.kind, Entries.put_of_not_mem (fresh rfl), Entries.keys_append]

/-- Signatures of a kind that have different names are resolved under just these names, in their
order. -/
theorem fieldNames_ofGraph (scalars : ScalarRegistry) (graph : TypeGraph)
    (operations : OperationSchema) (model : ModelHandle)
    (distinct : ((operations.signatures.filter fun signature ↦ signature.kind = kind).map
      (·.name)).Nodup) :
    (ofGraph scalars graph operations model).fieldNames kind =
      (operations.signatures.filter fun signature ↦ signature.kind = kind).map (·.name) := by
  unfold ofGraph
  revert distinct
  induction operations.signatures using List.reverseRecOn with
  | nil => cases kind <;> exact fun _ ↦ rfl
  | append_singleton front last ih =>
    intro distinct
    rw [List.filter_append, List.map_append] at distinct ⊢
    obtain ⟨hfront, -, hdisjoint⟩ := List.nodup_append'.mp distinct
    rw [List.foldl_append, List.foldl_cons, List.foldl_nil, fieldNames_addSignature, ih hfront]
    · by_cases hlast : last.kind = kind <;> simp [hlast]
    · intro hlast hmem
      rw [ih hfront] at hmem
      exact hdisjoint hmem (by simp [hlast])

theorem madeFor_ofGraph (scalars : ScalarRegistry) (graph : TypeGraph)
    (operations : OperationSchema) (model : ModelHandle) :
    MadeFor graph model (ofGraph scalars graph operations model) := by
  unfold ofGraph
  induction operations.signatures using List.reverseRecOn with
  | nil => exact ⟨(fun _ _ h ↦ nomatch h), (fun _ _ h ↦ nomatch h)⟩
  | append_singleton front last ih =>
    rw [List.foldl_append]
    exact ih.addSignature scalars last

end ResourceResolvers

/-! ## Tables -/

namespace ResolverTable

variable {table : ResolverTable} {kind : OperationKind} {field : String}

/-- Every resolver is of the resource it is found under. -/
def Owned (table : ResolverTable) : Prop :=
  ∀ entry ∈ table, ∃ graph model, ResourceResolvers.MadeFor graph model entry.2 ∧
    graph.resource = entry.1 ∧ model.resource = entry.1

theorem query?_cons (entry : String × ResourceResolvers) (rest : ResolverTable) (field : String) :
    query? (entry :: rest) field = (entry.2.query.get? field).or (query? rest field) := by
  obtain ⟨resource, resolvers⟩ := entry
  cases hget : resolvers.query.get? field <;> simp [query?, hget]

theorem mutation?_cons (entry : String × ResourceResolvers) (rest : ResolverTable)
    (field : String) :
    mutation? (entry :: rest) field = (entry.2.mutation.get? field).or (mutation? rest field) := by
  obtain ⟨resource, resolvers⟩ := entry
  cases hget : resolvers.mutation.get? field <;> simp [mutation?, hget]

/-- A root field is served by the first resource that has it. -/
theorem served?_eq (owned : table.Owned) (kind : OperationKind) (field : String) :
    table.served? kind field =
      table.findSome? fun entry ↦ (entry.2.operation? kind field).map (entry.1, ·) := by
  induction table with
  | nil => cases kind <;> rfl
  | cons entry rest ih =>
    obtain ⟨⟨graph, model, hmade, hgraph, hmodel⟩, hrest⟩ := List.forall_mem_cons.mp owned
    rw [List.findSome?_cons, ← ih hrest]
    cases kind with
    | query =>
      simp only [served?, query?_cons, ResourceResolvers.operation?]
      cases hget : entry.2.query.get? field with
      | none => rfl
      | some resolver =>
        have hresource : resolver.resource = entry.1 := (hmade.resource hget).trans hgraph
        simp [hresource]
    | mutation =>
      simp only [served?, mutation?_cons, ResourceResolvers.operation?]
      cases hget : entry.2.mutation.get? field with
      | none => rfl
      | some resolver =>
        have hresource : resolver.model.resource = entry.1 :=
          (congrArg ModelHandle.resource (hmade.mutation field resolver hget)).trans hmodel
        simp [hresource]

end ResolverTable
end ResourceApi

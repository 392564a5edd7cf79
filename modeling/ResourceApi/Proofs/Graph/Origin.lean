import ResourceApi.Proofs.Graph.Walk

/-!
# Where the parts of a graph come from

Everything in a builder goes back to a step of the walk: the name of a type fits its kind, every field was
written for a reason that held at the time and is none of an initial document, and the members of a union
are available.  Steps keep this, so it holds of the builder at the end of a walk, which decides what
stands in the finished graph.
-/

namespace ResourceApi.Synthesis

variable {scalars : ScalarRegistry} {start : Position} {builder next : GraphBuilder} {level : Nat}
  {name : String} {node : TypeNode}

/-- What is known of a type that the walk below `start` has built up. -/
structure TypeBuilt (scalars : ScalarRegistry) (start : Position) (builder : GraphBuilder)
    (level : Nat) (name : String) (node : TypeNode) : Prop where
  opened : Opens scalars start level name node.kind node.base
  named : node.name = name
  extending : node.extending = builder.existing.has name
  fields : ∀ entry ∈ node.fields, entry.1 = entry.2.name ∧
    ∃ before, Steps scalars start before builder ∧ Writes scalars start before level name entry.2
  undefined : ∀ entry ∈ node.fields, builder.definedBefore name entry.1 = false
  members : ∀ member ∈ node.members, builder.isAvailable level member = true

theorem TypeBuilt.kind (h : TypeBuilt scalars start builder level name node) :
    node.kind.Names name :=
  h.opened.names

theorem definedBefore_of_steps (steps : Steps scalars start builder next) (name field : String) :
    next.definedBefore name field = builder.definedBefore name field := by
  unfold GraphBuilder.definedBefore
  rw [steps.grows.existing]

theorem TypeBuilt.later (h : TypeBuilt scalars start builder level name node)
    (steps : Steps scalars start builder next) : TypeBuilt scalars start next level name node where
  opened := h.opened
  named := h.named
  extending := by rw [steps.grows.existing, h.extending]
  fields entry hentry := by
    obtain ⟨hname, before, hbefore, hwrites⟩ := h.fields entry hentry
    exact ⟨hname, before, hbefore.trans steps, hwrites⟩
  undefined entry hentry := by
    rw [definedBefore_of_steps steps]
    exact h.undefined entry hentry
  members member hmember := steps.grows.isAvailable (h.members member hmember)

/-- A builder that the walk below `start` has built up. -/
structure Traced (scalars : ScalarRegistry) (start : Position) (builder : GraphBuilder) : Prop where
  distinct : builder.Distinct
  types : ∀ level name node, builder.get? level name = some node →
    TypeBuilt scalars start builder level name node

/-- A builder that the walk below `start` has built up without an initial document. -/
structure Built (scalars : ScalarRegistry) (start : Position) (builder : GraphBuilder) : Prop
    extends Traced scalars start builder where
  existing : builder.existing = []

theorem traced_new (scalars : ScalarRegistry) (start : Position) (resource : String)
    (existing : Entries (List String)) :
    Traced scalars start (GraphBuilder.new resource existing) :=
  ⟨GraphBuilder.distinct_new resource existing, fun _ _ _ h ↦ nomatch h⟩

theorem built_new (scalars : ScalarRegistry) (start : Position) (resource : String) :
    Built scalars start (GraphBuilder.new resource []) :=
  ⟨traced_new scalars start resource [], rfl⟩

theorem Comes.typeBuilt (h : Comes scalars start builder level name node)
    (traced : Traced scalars start builder) : TypeBuilt scalars start builder level name node := by
  cases h with
  | unchanged found => exact traced.types level name node found
  | opened absent opens =>
    exact ⟨opens, rfl, rfl, (fun _ h ↦ nomatch h), (fun _ h ↦ nomatch h), (fun _ h ↦ nomatch h)⟩
  | labelled below found =>
    have hbefore := traced.types _ _ _ found
    exact ⟨hbefore.opened, hbefore.named, hbefore.extending, hbefore.fields, hbefore.undefined,
      hbefore.members⟩
  | field found writes absent undefined =>
    have hbefore := traced.types _ _ _ found
    refine ⟨hbefore.opened, hbefore.named, hbefore.extending, fun entry hentry ↦ ?_,
      fun entry hentry ↦ ?_, hbefore.members⟩
    · rcases List.mem_append.mp hentry with hold | hnew
      · exact hbefore.fields entry hold
      · obtain rfl := List.mem_singleton.mp hnew
        exact ⟨rfl, builder, .refl, writes⟩
    · rcases List.mem_append.mp hentry with hold | hnew
      · exact hbefore.undefined entry hold
      · obtain rfl := List.mem_singleton.mp hnew
        exact undefined
  | members below found available =>
    have hbefore := traced.types _ _ _ found
    refine ⟨hbefore.opened, hbefore.named, hbefore.extending, hbefore.fields, hbefore.undefined,
      fun member hmember ↦ ?_⟩
    rcases mem_addMissing.mp hmember with hold | hnew
    · exact hbefore.members member hold
    · exact available member hnew
  | values below declared kind found =>
    have hbefore := traced.types _ _ _ found
    exact ⟨hbefore.opened, hbefore.named, hbefore.extending, hbefore.fields, hbefore.undefined,
      hbefore.members⟩

theorem Step.distinct (h : Step scalars start builder next) (distinct : builder.Distinct) :
    next.Distinct := by
  cases h with
  | ensure opens => exact distinct.ensure _ _
  | addField writes =>
    unfold GraphBuilder.addField
    split
    · exact distinct.modify _
    · exact distinct
  | _ => exact distinct.modify _

theorem Step.traced (h : Step scalars start builder next) (traced : Traced scalars start builder) :
    Traced scalars start next where
  distinct := h.distinct traced.distinct
  types _ _ _ hnode := ((h.comes hnode).typeBuilt traced).later (.single h)

theorem Steps.traced (h : Steps scalars start builder next) (traced : Traced scalars start builder) :
    Traced scalars start next := by
  induction h with
  | refl => exact traced
  | tail _ hstep ih => exact hstep.traced ih

theorem Steps.built (h : Steps scalars start builder next) (built : Built scalars start builder) :
    Built scalars start next :=
  ⟨Steps.traced h built.toTraced, (Steps.grows h).existing.trans built.existing⟩

theorem Steps.resource (h : Steps scalars start builder next) :
    next.graph.resource = builder.graph.resource := by
  induction h with
  | refl => rfl
  | tail _ hstep ih =>
    rw [← ih]
    cases hstep with
    | addField =>
      unfold GraphBuilder.addField
      split <;> rfl
    | _ => rfl

/-! ## Finished graphs -/

/-- The graph of a resource is what the walk of its root has built up, less the empty types. -/
theorem ofSchema_traced {schema : ResourceSchema} {config : GenerationConfig} {graph : TypeGraph}
    {existing : Entries (List String)}
    (h : TypeGraph.ofSchema scalars schema config existing = .ok graph) :
    ∃ builder, (Position.root schema config).walk scalars
        (GraphBuilder.new schema.resource existing) = .ok builder ∧
      Traced scalars (Position.root schema config) builder ∧ builder.existing = existing ∧
      graph = builder.finish := by
  obtain ⟨builder, hwalk, hgraph⟩ := Except.bind_eq_ok_iff.mp h
  have hsteps : Steps scalars (.root schema config) _ builder := Position.walk_steps .refl hwalk
  exact ⟨builder, hwalk, Steps.traced hsteps (traced_new ..), (Steps.grows hsteps).existing,
    (Except.ok.inj hgraph).symm⟩

theorem ofSchema_built {schema : ResourceSchema} {config : GenerationConfig} {graph : TypeGraph}
    (h : TypeGraph.ofSchema scalars schema config [] = .ok graph) :
    ∃ builder, (Position.root schema config).walk scalars (GraphBuilder.new schema.resource []) =
        .ok builder ∧ Built scalars (Position.root schema config) builder ∧
      graph = builder.finish := by
  obtain ⟨builder, hwalk, htraced, hexisting, hgraph⟩ := ofSchema_traced h
  exact ⟨builder, hwalk, ⟨htraced, hexisting⟩, hgraph⟩

theorem resource_ofSchema {schema : ResourceSchema} {config : GenerationConfig} {graph : TypeGraph}
    {existing : Entries (List String)}
    (h : TypeGraph.ofSchema scalars schema config existing = .ok graph) :
    graph.resource = schema.resource := by
  obtain ⟨builder, hwalk, -, -, rfl⟩ := ofSchema_traced h
  have hsteps : Steps scalars (.root schema config) _ builder := Position.walk_steps .refl hwalk
  exact Steps.resource hsteps

theorem Traced.typeAt?_finish (h : Traced scalars start builder) :
    builder.finish.typeAt? level name = some node ↔
      builder.get? level name = some node ∧ node.isEmpty = false := by
  rw [GraphBuilder.typeAt?_finish h.distinct, Option.filter_eq_some_iff]
  simp

theorem Traced.get?_of_mem_finish (traced : Traced scalars start builder)
    (h : (name, node) ∈ builder.finish.levels[level]?.getD []) :
    builder.get? level name = some node := by
  have hget := Entries.get?_of_mem (GraphBuilder.nodup_finish traced.distinct level) h
  exact (traced.typeAt?_finish.mp hget).1

/-- Without an initial document no type extends another. -/
theorem Built.defined (h : Built scalars start builder) (found : builder.get? level name = some node) :
    node.extending = false := by
  rw [(h.types _ _ _ found).extending, h.existing]
  rfl

/-- A type that can be pointed at stands in the finished graph. -/
theorem Built.exists_of_isAvailable (h : Built scalars start builder)
    (available : builder.isAvailable level name = true) :
    ∃ node, builder.finish.typeAt? level name = some node := by
  unfold GraphBuilder.isAvailable at available
  rw [h.existing] at available
  cases hget : builder.get? level name with
  | none =>
    rw [hget] at available
    cases available
  | some node =>
    rw [hget] at available
    exact ⟨node, h.typeAt?_finish.mpr ⟨hget, by simpa [Entries.has] using available⟩⟩

end ResourceApi.Synthesis

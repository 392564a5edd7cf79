import ResourceApi.Proofs.Compilation.Names
import ResourceApi.Proofs.Compilation.Resolvers

/-!
# Projections and served types

A query returns records cut down to the fields that generation gives to the root object of its segment.
These are the fields of the type in the merged document, less those that an initial document defines for
it: generation does not write them again, so the resolver does not know them.  Without an initial
document nothing of a type is cut off.
-/

namespace ResourceApi

/-- No nested node of a model is named like the resource. -/
def RootApart (schemas : List ResourceSchema) (resource : String) : Prop :=
  ∀ schema ∈ schemas, ∀ path node, schema.NodeAt path resource node → path = []

theorem NodesApart.rootApart {schemas : List ResourceSchema} {schema : ResourceSchema}
    (apart : NodesApart schemas) (hschema : schema ∈ schemas) : RootApart schemas schema.resource :=
  fun other hother path node hnode ↦
    (apart other hother schema hschema path [] _ node schema.node hnode .root).2

/-- The shared types are no objects of a resource. -/
theorem not_isShared_of_names_object {name : String} (h : TypeKind.object.Names name) :
    ¬TypeDocument.IsShared name := by
  have hletters := TypeKind.lastLetters_of_names h rfl
  rintro (rfl | rfl)
  · exact absurd hletters (by decide)
  · exact absurd hletters (by decide)

namespace Stage

variable {scalars : ScalarRegistry} {initial : TypeDocument} {stage : Stage} {name field : String}

/-- The fields that a stage gives to a type are those of its graph. -/
theorem mem_typeFields_document {kind : TypeKind} (named : kind.Names name) :
    field ∈ stage.document.typeFields name ↔
      ∃ node ∈ stage.graph.definitions, node.name = name ∧
        field ∈ (TypeDocument.ofNode stage.graph.resource node).fields.map (·.name) := by
  rw [TypeDocument.mem_typeFields]
  constructor
  · rintro ⟨definition, hdefinition, hname, hfield⟩
    obtain ⟨node, hnode, rfl⟩ := exists_of_names hdefinition (hname ▸ named)
    exact ⟨node, hnode, hname, hfield⟩
  · rintro ⟨node, hnode, hname, hfield⟩
    exact ⟨_, mem_document hnode, hname, hfield⟩

/-- The walk of a model finds the name of a resource at its root only. -/
theorem Traced.root {resource : String} {segment : Segment} {schemas : List ResourceSchema}
    {level : Nat} {node : TypeNode}
    (traced : stage.Traced scalars initial level (objectTypeName segment resource) node)
    (roots : RootApart schemas resource) (hschema : stage.schema ∈ schemas) :
    level = 0 ∧ stage.schema.resource = resource := by
  obtain ⟨position, below, rfl, hname, -, -⟩ := traced.opened.object_position rfl
  obtain ⟨path, hpath, hlength⟩ := below.exists_path
  obtain rfl := roots _ hschema _ _ (hname ▸ hpath)
  have hroot := below.eq_of_level hlength.symm
  exact ⟨hlength.symm, by rw [← hname, hroot]; rfl⟩

end Stage

namespace Compiler

variable {compiler : Compiler} {schemas : List ResourceSchema} {initial : TypeDocument}
  {compiled : CompiledSchema} {stages : List Stage} {stage : Stage} {name field : String}

/-- The fields that the resolver of a stage knows of a root object are given to it by some stage. -/
theorem Ran.mem_stageFields (ran : compiler.Ran schemas initial compiled stages)
    (hstage : stage ∈ stages) {segment : Segment}
    (hfield : field ∈ ResourceResolvers.rootFields stage.graph segment) :
    field ∈ stages.flatMap fun other ↦
      other.document.typeFields (objectTypeName segment stage.schema.resource) := by
  obtain ⟨root, hroot, hheld⟩ := ResourceResolvers.mem_rootFields.mp hfield
  have hmem := (ran.root?_eq_some_iff hstage).mp hroot
  have htraced := traced_of_mem ran.staged hstage hmem
  refine List.mem_flatMap.mpr ⟨stage, hstage, ?_⟩
  refine (Stage.mem_typeFields_document (TypeKind.names_object ..)).mpr ⟨root, ?_, htraced.named, ?_⟩
  · exact TypeGraph.mem_definitions.mpr ⟨0, _, hmem⟩
  · rwa [htraced.names_ofNode]

/-- If only roots are named like the resource, then no other type gives fields to its root objects. -/
theorem Ran.mem_rootFields_iff (ran : compiler.Ran schemas initial compiled stages)
    (hstage : stage ∈ stages) (roots : RootApart schemas stage.schema.resource) (segment : Segment) :
    field ∈ ResourceResolvers.rootFields stage.graph segment ↔
      field ∈ stages.flatMap fun other ↦
        other.document.typeFields (objectTypeName segment stage.schema.resource) := by
  refine ⟨ran.mem_stageFields hstage, fun hfields ↦ ?_⟩
  obtain ⟨other, hother, hfield⟩ := List.mem_flatMap.mp hfields
  obtain ⟨node, hnode, hname, hheld⟩ :=
    (Stage.mem_typeFields_document (TypeKind.names_object ..)).mp hfield
  obtain ⟨level, key, hmem⟩ := TypeGraph.mem_definitions.mp hnode
  have htraced := traced_of_mem ran.staged hother hmem
  obtain rfl : key = _ := htraced.named.symm.trans hname
  obtain ⟨rfl, hresource⟩ := htraced.root roots (ran.schema_mem hother)
  obtain rfl := ran.eq_of_resource hother hstage hresource
  rw [htraced.names_ofNode] at hheld
  exact ResourceResolvers.mem_rootFields.mpr ⟨node, (ran.root?_eq_some_iff hother).mpr hmem, hheld⟩

theorem Ran.rootFields_subset (ran : compiler.Ran schemas initial compiled stages)
    (hstage : stage ∈ stages) (segment : Segment) :
    ResourceResolvers.rootFields stage.graph segment ⊆
      compiled.document.typeFields (objectTypeName segment stage.schema.resource) := by
  intro field hfield
  rw [ran.document, typeFields_document _ _ (not_isShared_of_names_object (TypeKind.names_object ..))]
  exact List.mem_append_right _ (ran.mem_stageFields hstage hfield)

/-- The projection of a query is what the merged document gives to the root object of its segment, less
what the initial document gives to it. -/
theorem compileAll_projection (compiler : Compiler) (schemas : List ResourceSchema)
    (initial : TypeDocument) (compiled : CompiledSchema)
    (h : compiler.compileAll schemas initial = .ok compiled) (resource : String)
    (roots : RootApart schemas resource) (resolvers : ResourceResolvers)
    (hresolvers : compiled.resolvers.get? resource = some resolvers) (query : String)
    (resolver : QueryResolver) (hresolver : resolvers.query.get? query = some resolver)
    (field : String) :
    field ∈ resolver.projection ↔
      field ∈ compiled.document.typeFields (objectTypeName resolver.segment resource) ∧
        field ∉ initial.typeFields (objectTypeName resolver.segment resource) := by
  obtain ⟨stages, ran⟩ := exists_ran h
  obtain ⟨stage, hstage, rfl, rfl⟩ := ran.get?_resolvers.mp hresolvers
  have hundefined : field ∈ ResourceResolvers.rootFields stage.graph resolver.segment →
      field ∉ initial.typeFields (objectTypeName resolver.segment stage.schema.resource) := by
    intro hfield
    obtain ⟨root, hroot, hheld⟩ := ResourceResolvers.mem_rootFields.mp hfield
    have htraced := traced_of_mem ran.staged hstage ((ran.root?_eq_some_iff hstage).mp hroot)
    obtain ⟨entry, hentry, rfl⟩ := List.mem_map.mp hheld
    exact htraced.undefined entry hentry
  have hobject := TypeKind.names_object resolver.segment stage.schema.resource
  rw [ran.document, typeFields_document _ _ (not_isShared_of_names_object hobject), List.mem_append,
    (stage.madeFor_resolvers compiler.scalars).projection hresolver,
    ← ran.mem_rootFields_iff hstage roots]
  constructor
  · exact fun hfield ↦ ⟨.inr hfield, hundefined hfield⟩
  · exact fun hfield ↦ hfield.1.resolve_left hfield.2

/-- The initial document has a field for the type of users that their model does not declare.  The type
keeps it, but no query returns it. -/
theorem compileAll_projection_legacy :
    let user : ResourceSchema := ⟨"User", ⟨none, [("name", .primitive "String")], []⟩, [], [], none⟩
    let initial : TypeDocument :=
      [{ Definition.new "MixedUserObject" .object with fields := [.new "legacy" "String"] }]
    let wholes : GenerationConfig := ⟨fun leaf ↦ leaf matches .object .mixed | .query _ .mixed .whole⟩
    ∃ compiled resolvers resolver, compileAll ⟨wholes, ⟨[]⟩⟩ [user] initial = .ok compiled ∧
      compiled.resolvers.get? "User" = some resolvers ∧
      resolvers.query.get? "getAllMixedUsersWhole" = some resolver ∧
      "legacy" ∈ compiled.document.typeFields (objectTypeName resolver.segment "User") ∧
      "legacy" ∉ resolver.projection := by
  intro user initial wholes
  obtain ⟨compiled, hcompiled, hchecks⟩ :
      ∃ compiled, compileAll ⟨wholes, ⟨[]⟩⟩ [user] initial = .ok compiled ∧
        ((compiled.resolvers.get? "User").any fun resolvers ↦
          (resolvers.query.get? "getAllMixedUsersWhole").any fun resolver ↦
            (compiled.document.typeFields (objectTypeName resolver.segment "User")).contains
              "legacy" && !resolver.projection.contains "legacy") = true :=
    Except.exists_of_passes (by decide +kernel)
  simp only [Option.any_eq_true, Bool.and_eq_true, List.contains_iff_mem, Bool.not_eq_true',
    ← Bool.not_eq_true] at hchecks
  obtain ⟨resolvers, hresolvers, resolver, hresolver, hserved, hprojected⟩ := hchecks
  exact ⟨compiled, resolvers, resolver, hcompiled, hresolvers, hresolver, hserved, hprojected⟩

/-- Users with a name, beside an initial document that has another field for them. -/
theorem compileAll_projection_users :
    let user : ResourceSchema := ⟨"User", ⟨none, [("name", .primitive "String")], []⟩, [], [], none⟩
    let initial : TypeDocument :=
      [{ Definition.new "MixedUserObject" .object with fields := [.new "legacy" "String"] }]
    let wholes : GenerationConfig := ⟨fun leaf ↦ leaf matches .object .mixed | .query _ .mixed .whole⟩
    ∃ compiled resolvers resolver, compileAll ⟨wholes, ⟨[]⟩⟩ [user] initial = .ok compiled ∧
      compiled.resolvers.get? "User" = some resolvers ∧
      resolvers.query.get? "getAllMixedUsersWhole" = some resolver ∧ RootApart [user] "User" ∧
      ∀ field, field ∈ resolver.projection ↔
        field ∈ compiled.document.typeFields (objectTypeName resolver.segment "User") ∧
          field ∉ initial.typeFields (objectTypeName resolver.segment "User") := by
  intro user initial wholes
  have hapart : NodesApart [user] :=
    nodesApart_of_nodup (by decide +kernel : ∀ schema ∈ [user], schema.level 1 = [])
      (by decide +kernel)
  have hroot : RootApart [user] "User" := hapart.rootApart (List.mem_singleton_self user)
  obtain ⟨compiled, hcompiled, hchecks⟩ :
      ∃ compiled, compileAll ⟨wholes, ⟨[]⟩⟩ [user] initial = .ok compiled ∧
        ((compiled.resolvers.get? "User").any fun resolvers ↦
          (resolvers.query.get? "getAllMixedUsersWhole").isSome) = true :=
    Except.exists_of_passes (by decide +kernel)
  obtain ⟨resolvers, hresolvers, hquery⟩ := (Option.any_eq_true ..).mp hchecks
  obtain ⟨resolver, hresolver⟩ := Option.isSome_iff_exists.mp hquery
  exact ⟨compiled, resolvers, resolver, hcompiled, hresolvers, hresolver, hroot,
    compileAll_projection _ _ _ compiled hcompiled "User" hroot resolvers hresolvers _ resolver
      hresolver⟩

end Compiler
end ResourceApi

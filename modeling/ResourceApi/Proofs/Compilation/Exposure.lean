import ResourceApi.Proofs.Compilation.Projection
import ResourceApi.Proofs.Resolver.Agreement

/-!
# Hidden fields

A query of a segment returns fields of the root object of the segment only, and it identifies and names
records by such fields.  Without a filter or a sort document it looks at no other field but the owner.
Filters and sort documents, though, reach the store as they are: what they name of a record decides which
records are counted and in which order they come, whether the segment shows it or not.
-/

namespace ResourceApi

/-- What a segment shows of the records of a resource: their owner, and the fields of its root object. -/
def CompiledSchema.shown (compiled : CompiledSchema) (resource : String) (segment : Segment) :
    List String :=
  ownerField :: compiled.document.typeFields (objectTypeName segment resource)

namespace Compiler

variable {compiler : Compiler} {schemas : List ResourceSchema} {compiled : CompiledSchema}
  {stages : List Stage} {stage : Stage}

/-- A query that is resolved has its root object, with an identifier. -/
theorem Ran.exists_root (ran : compiler.Ran schemas [] compiled stages) (hstage : stage ∈ stages)
    {query : String} {resolver : QueryResolver}
    (h : (stage.resolvers compiler.scalars).query.get? query = some resolver) :
    ∃ root, stage.graph.root? resolver.segment = some root ∧ "id" ∈ root.fields.keys := by
  have hoperation : (stage.resolvers compiler.scalars).operation? .query query =
      some resolver.operation := congrArg (Option.map QueryResolver.operation) h
  rw [stage.operation?_resolvers] at hoperation
  have hserved := (List.mem_filter.mp (List.mem_of_getLast? hoperation)).1
  have hneeded := (Bool.and_eq_true_iff.mp (List.mem_filter.mp hserved).2).2
  exact Compiler.exists_root ran.staged hstage
    (object_enabled ran.staged hstage (Bool.and_eq_true_iff.mp hneeded).1)

/-- The name of a record is a field of the root object. -/
theorem Ran.labelField?_subset (ran : compiler.Ran schemas [] compiled stages)
    (hstage : stage ∈ stages) (segment : Segment) :
    (ResourceResolvers.labelField? stage.graph segment).toList ⊆
      ResourceResolvers.rootFields stage.graph segment := by
  intro label hlabel
  unfold ResourceResolvers.labelField? at hlabel
  obtain ⟨root, hroot, hlabel⟩ := Option.bind_eq_some_iff.mp (Option.mem_toList.mp hlabel)
  obtain ⟨field, hfound, hlabel⟩ := Option.bind_eq_some_iff.mp hlabel
  cases hlabel
  have hheld : ∃ key, (key, field) ∈ root.fields := by
    cases hnamed : (root.fields.get? QueryResolver.nameField).filter FieldNode.isText with
    | some named =>
      rw [hnamed] at hfound
      cases hfound
      exact ⟨_, Entries.mem_of_get? (Option.filter_eq_some_iff.mp hnamed).1⟩
    | none =>
      rw [hnamed] at hfound
      obtain ⟨entry, hentry, rfl⟩ := List.mem_map.mp (List.mem_of_find?_eq_some hfound)
      exact ⟨entry.1, hentry⟩
  obtain ⟨key, hentry⟩ := hheld
  have htraced := traced_of_mem ran.staged hstage ((ran.root?_eq_some_iff hstage).mp hroot)
  rw [← htraced.keyed _ hentry]
  exact ResourceResolvers.mem_rootFields.mpr ⟨root, hroot, Entries.mem_keys_of_mem hentry⟩

/-- A query reads the fields of the root object of its segment. -/
theorem Ran.within (ran : compiler.Ran schemas [] compiled stages) (hstage : stage ∈ stages)
    {query : String} {resolver : QueryResolver}
    (h : (stage.resolvers compiler.scalars).query.get? query = some resolver) :
    resolver.Within (compiled.document.typeFields
      (objectTypeName resolver.segment stage.schema.resource)) := by
  have hmade := stage.madeFor_resolvers compiler.scalars
  obtain ⟨root, hroot, hid⟩ := ran.exists_root hstage h
  refine List.Subset.trans ?_ (ran.rootFields_subset hstage resolver.segment)
  rw [hmade.label h, hmade.projection h]
  refine List.cons_subset.mpr ⟨?_, List.append_subset.mpr ⟨?_, List.Subset.refl _⟩⟩
  · exact ResourceResolvers.mem_rootFields.mpr ⟨root, hroot, hid⟩
  · exact ran.labelField?_subset hstage resolver.segment

/-- A call gives the same result on stores that differ in hidden fields only, if its filter and its sort
document name none of these: the records agree on their owner and on the fields of the root object of the
segment, and the caller and the arguments are the same. -/
theorem compileAll_hidden (compiler : Compiler) (schemas : List ResourceSchema)
    (compiled : CompiledSchema) (h : compiler.compileAll schemas [] = .ok compiled)
    (resource : String) (resolvers : ResourceResolvers)
    (hresolvers : compiled.resolvers.get? resource = some resolvers) (query : String)
    (resolver : QueryResolver) (hresolver : resolvers.query.get? query = some resolver)
    (arguments : Json)
    (consulted : resolver.range.consults arguments ⊆ compiled.shown resource resolver.segment)
    (context context' : RequestContext) (caller : context.caller = context'.caller)
    (stores : context.stores = context'.stores)
    (alike : context.store.Alike (compiled.shown resource resolver.segment) resource
      context'.store) :
    SameResult (resolver.resolve context arguments) (resolver.resolve context' arguments) := by
  obtain ⟨stages, ran⟩ := exists_ran h
  obtain ⟨stage, hstage, rfl, rfl⟩ := ran.get?_resolvers.mp hresolvers
  have hresource : resolver.resource = stage.schema.resource :=
    ((stage.madeFor_resolvers compiler.scalars).resource hresolver).trans
      (resource_graph ran.staged hstage)
  have hwithin := List.Subset.trans (ran.within hstage hresolver)
    (List.subset_cons_self ownerField _)
  exact QueryResolver.sameResult_resolve hwithin List.mem_cons_self consulted caller stores
    (hresource.symm ▸ alike)

/-- A record of a user with a secret that no object type shows. -/
def userWithSecret (secret : String) : Json :=
  .obj [("id", .str "1"), ("owner", .str "u1"), ("name", .str "Ann"), ("secret", .str secret)]

theorem alike_userWithSecret (secret secret' : String) :
    Json.Alike ["owner", "id", "name"] (userWithSecret secret) (userWithSecret secret') := by
  have hrecord : ∀ secret, (userWithSecret secret).IsRecord := by
    intro secret
    have hkeys : ["id", "owner", "name", "secret"].Nodup := by decide
    refine ⟨rfl, Json.wellFormed_obj.mpr ⟨hkeys, ?_⟩⟩
    simp only [List.forall_mem_cons, Json.wellFormed_str, List.not_mem_nil, false_imp_iff,
      implies_true, and_self]
  refine ⟨?_, hrecord secret, hrecord secret'⟩
  intro field hfield
  simp only [List.mem_cons, List.not_mem_nil, or_false] at hfield
  rcases hfield with rfl | rfl | rfl <;> rfl

/-- A filter names the secret of a user, and the count of users tells whether it is the right one. -/
theorem compileAll_hidden_filtered :
    let hidden : FieldAttributes := ⟨some "String", none, none, none, none, false, none, none,
      .obj [("attach", .obj [("object", .bool false)])]⟩
    let user : ResourceSchema := ⟨"User",
      ⟨none, [("name", .primitive "String"), ("secret", .attributes hidden)], []⟩, [], [], none⟩
    let counts : GenerationConfig :=
      ⟨fun leaf ↦ leaf matches .object .mixed | .query .filtered .mixed .count⟩
    let context : String → RequestContext := fun secret ↦
      ⟨some "u1", ["User"], ⟨[("User", [("1", userWithSecret secret)])]⟩⟩
    let arguments : Json := .obj [("filter", .obj [("secret", .str "a")])]
    ∃ compiled resolvers resolver, compileAll ⟨counts, ⟨[]⟩⟩ [user] [] = .ok compiled ∧
      compiled.resolvers.get? "User" = some resolvers ∧
      resolvers.query.get? "getFilteredMixedUsersCount" = some resolver ∧
      (context "a").store.Alike (compiled.shown "User" resolver.segment) "User"
        (context "b").store ∧
      ¬SameResult (resolver.resolve (context "a") arguments)
        (resolver.resolve (context "b") arguments) := by
  intro hidden user counts context arguments
  obtain ⟨compiled, hcompiled, hchecks⟩ :
      ∃ compiled, compileAll ⟨counts, ⟨[]⟩⟩ [user] [] = .ok compiled ∧
        ((compiled.resolvers.get? "User").any fun resolvers ↦
          (resolvers.query.get? "getFilteredMixedUsersCount").any fun resolver ↦
            compiled.shown "User" resolver.segment == ["owner", "id", "name"] &&
              resolver == ⟨"User", .filtered, .mixed, .count, ["id", "name"], some "name"⟩) = true :=
    Except.exists_of_passes (by decide +kernel)
  simp only [Option.any_eq_true, Bool.and_eq_true, beq_iff_eq] at hchecks
  obtain ⟨resolvers, hresolvers, resolver, hresolver, hshown, hvalue⟩ := hchecks
  refine ⟨compiled, resolvers, resolver, hcompiled, hresolvers, hresolver, ?_, ?_⟩
  · rw [hshown]
    exact .cons (alike_userWithSecret "a" "b") .nil
  · rw [hvalue]
    intro hsame
    change Json.equal (.ofNat 1) (.ofNat 0) = true at hsame
    exact absurd hsame (by decide)

/-- A filter names the name of a user, which all users see. -/
theorem compileAll_hidden_users :
    let hidden : FieldAttributes := ⟨some "String", none, none, none, none, false, none, none,
      .obj [("attach", .obj [("object", .bool false)])]⟩
    let user : ResourceSchema := ⟨"User",
      ⟨none, [("name", .primitive "String"), ("secret", .attributes hidden)], []⟩, [], [], none⟩
    let counts : GenerationConfig :=
      ⟨fun leaf ↦ leaf matches .object .mixed | .query .filtered .mixed .count⟩
    let context : String → RequestContext := fun secret ↦
      ⟨some "u1", ["User"], ⟨[("User", [("1", userWithSecret secret)])]⟩⟩
    let arguments : Json := .obj [("filter", .obj [("name", .str "Ann")])]
    ∃ compiled resolvers resolver, compileAll ⟨counts, ⟨[]⟩⟩ [user] [] = .ok compiled ∧
      compiled.resolvers.get? "User" = some resolvers ∧
      resolvers.query.get? "getFilteredMixedUsersCount" = some resolver ∧
      resolver.range.consults arguments ⊆ compiled.shown "User" resolver.segment ∧
      (context "a").store.Alike (compiled.shown "User" resolver.segment) "User"
        (context "b").store ∧
      SameResult (resolver.resolve (context "a") arguments)
        (resolver.resolve (context "b") arguments) := by
  intro hidden user counts context arguments
  obtain ⟨compiled, hcompiled, hchecks⟩ :
      ∃ compiled, compileAll ⟨counts, ⟨[]⟩⟩ [user] [] = .ok compiled ∧
        ((compiled.resolvers.get? "User").any fun resolvers ↦
          (resolvers.query.get? "getFilteredMixedUsersCount").any fun resolver ↦
            compiled.shown "User" resolver.segment == ["owner", "id", "name"] &&
              resolver.range == .filtered) = true :=
    Except.exists_of_passes (by decide +kernel)
  simp only [Option.any_eq_true, Bool.and_eq_true, beq_iff_eq] at hchecks
  obtain ⟨resolvers, hresolvers, resolver, hresolver, hshown, hrange⟩ := hchecks
  have hconsulted : resolver.range.consults arguments ⊆ compiled.shown "User" resolver.segment := by
    rw [hshown, hrange, show QueryRange.filtered.consults arguments = ["name"] by decide]
    decide
  have halike : (context "a").store.Alike (compiled.shown "User" resolver.segment) "User"
      (context "b").store := by
    rw [hshown]
    exact .cons (alike_userWithSecret "a" "b") .nil
  exact ⟨compiled, resolvers, resolver, hcompiled, hresolvers, hresolver, hconsulted, halike,
    compileAll_hidden _ _ compiled hcompiled "User" resolvers hresolvers _ resolver hresolver arguments
      hconsulted (context "a") (context "b") rfl rfl halike⟩

end Compiler
end ResourceApi

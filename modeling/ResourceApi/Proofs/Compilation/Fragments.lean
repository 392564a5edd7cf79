import ResourceApi.Proofs.Compilation.Stages
import ResourceApi.Proofs.Fragment.Acyclic
import ResourceApi.Proofs.Fragment.Settled

/-!
# Fragments of a run

The fragments of a run are generated for the object types of all its stages.  Nested types have longer
names, unless a field adds nothing to the name of its node, and the name of a fragment tells its type
and its part, unless a custom part begins like the rest of the name of another type.  Apart from these
two cases no fragment spreads itself, and every fragment stays on the type that it is listed for.  The
graphs of a run are leveled and its object types tell their segments and model types by their names, so
fragments settle as soon as their names differ.
-/

namespace ResourceApi

open Relation (TransGen)

/-! ## Names that models bring -/

/-- Some model of the run has the node, under the given type name. -/
def HasNode (schemas : List ResourceSchema) (typeName : String) (node : SchemaNode) : Prop :=
  ∃ schema ∈ schemas, ∃ path, schema.NodeAt path typeName node

/-- The parts that are generated for the types of a node. -/
def SchemaNode.parts (node : SchemaNode) : List String :=
  Fragment.builtinParts ++ node.fragments.map Prod.fst

/-- Every nested node adds something to the name of the type around it. -/
def Lengthens (schemas : List ResourceSchema) : Prop :=
  ∀ typeName node name spec child, HasNode schemas typeName node → (name, spec) ∈ node.fields →
    spec.nested? = some child → spec.localName name ≠ ""

/-- The name of a type with a part behind it tells the name of the type. -/
def PartsApart (schemas : List ResourceSchema) : Prop :=
  ∀ typeName node typeName' node', HasNode schemas typeName node → HasNode schemas typeName' node' →
    ∀ part ∈ node.parts, ∀ part' ∈ node'.parts, typeName ++ part = typeName' ++ part' →
      typeName = typeName'

theorem HasNode.exists_placed {schemas : List ResourceSchema} {depth : Nat} {typeName : String}
    {node : SchemaNode} (h : HasNode schemas typeName node)
    (shallow : ∀ schema ∈ schemas, schema.level depth = []) :
    ∃ placed ∈ schemas.flatMap (·.nodesTo depth), placed.typeName = typeName ∧ placed.node = node := by
  obtain ⟨schema, hschema, path, hpath⟩ := h
  exact ⟨⟨path, typeName, node⟩, List.mem_flatMap.mpr ⟨schema, hschema,
    hpath.mem_nodesTo (shallow schema hschema)⟩, rfl, rfl⟩

/-- It is enough to look at the nodes of models of bounded depth. -/
theorem lengthens_of_nodes {schemas : List ResourceSchema} {depth : Nat}
    (shallow : ∀ schema ∈ schemas, schema.level depth = [])
    (longer : ∀ placed ∈ schemas.flatMap (·.nodesTo depth), ∀ field ∈ placed.node.fields,
      field.2.nested?.isSome = true → field.2.localName field.1 ≠ "") : Lengthens schemas := by
  intro typeName node name spec child hnode hmem hnested
  obtain ⟨placed, hplaced, rfl, rfl⟩ := hnode.exists_placed shallow
  exact longer placed hplaced (name, spec) hmem (Option.isSome_iff_exists.mpr ⟨child, hnested⟩)

/-- It is enough to look at the nodes of models of bounded depth. -/
theorem partsApart_of_nodes {schemas : List ResourceSchema} {depth : Nat}
    (shallow : ∀ schema ∈ schemas, schema.level depth = [])
    (apart : ∀ placed ∈ schemas.flatMap (·.nodesTo depth),
      ∀ placed' ∈ schemas.flatMap (·.nodesTo depth), ∀ part ∈ placed.node.parts,
        ∀ part' ∈ placed'.node.parts, placed.typeName ++ part = placed'.typeName ++ part' →
          placed.typeName = placed'.typeName) : PartsApart schemas := by
  intro typeName node typeName' node' hnode hnode'
  obtain ⟨placed, hplaced, rfl, rfl⟩ := hnode.exists_placed shallow
  obtain ⟨placed', hplaced', rfl, rfl⟩ := hnode'.exists_placed shallow
  exact apart placed hplaced placed' hplaced'

/-- Models without custom parts keep the names of fragments apart. -/
theorem partsApart_of_builtin {schemas : List ResourceSchema}
    (plain : ∀ typeName node, HasNode schemas typeName node → node.fragments = []) :
    PartsApart schemas := by
  intro typeName node typeName' node' hnode hnode' part hpart part' hpart' h
  rw [SchemaNode.parts, plain typeName node hnode, List.map_nil, List.append_nil] at hpart
  rw [SchemaNode.parts, plain typeName' node' hnode', List.map_nil, List.append_nil] at hpart'
  exact (Fragment.eq_of_append_builtin hpart hpart' h).1

/-! ## Retargeted graphs -/

namespace TypeGraph

variable {graph : TypeGraph}

theorem mem_objectsAt_mapFields {f : FieldNode → FieldNode} {level : Nat} {node : TypeNode} :
    node ∈ (graph.mapFields f).objectsAt level ↔
      ∃ before ∈ graph.objectsAt level, before.mapFields f = node := by
  rw [mem_objectsAt, getD_mapFields]
  constructor
  · rintro ⟨name, hentry, hkind⟩
    obtain ⟨⟨_, before⟩, hbefore, heq⟩ := List.mem_map.mp hentry
    obtain ⟨rfl, rfl⟩ := Prod.mk.inj heq
    exact ⟨before, mem_objectsAt.mpr ⟨_, hbefore, hkind⟩, rfl⟩
  · rintro ⟨before, hbefore, rfl⟩
    obtain ⟨name, hentry, hkind⟩ := mem_objectsAt.mp hbefore
    exact ⟨name, List.mem_map_of_mem hentry, hkind⟩

/-- Retargeting touches references only, so object fields lead where they have led. -/
theorem Leveled.retarget (h : graph.Leveled) (known : List String) :
    (graph.mapFields (Stage.retargetField known)).Leveled := by
  intro level node hnode field hfield hkind
  obtain ⟨before, hbefore, rfl⟩ := mem_objectsAt_mapFields.mp hnode
  obtain ⟨entry, hentry, rfl⟩ := List.mem_map.mp hfield
  obtain ⟨kept, hkept, heq⟩ := TypeNode.mem_mapFields hentry
  rcases Stage.retargetField_cases known kept with ⟨hscalar, -⟩ | ⟨hsame, -⟩
  · rw [heq, hscalar] at hkind
    cases hkind
  · rw [heq, hsame] at hkind ⊢
    obtain ⟨target, htarget, hname⟩ := h level before hbefore kept (List.mem_map_of_mem hkept) hkind
    exact ⟨_, mem_objectsAt_mapFields.mpr ⟨target, htarget, rfl⟩, hname⟩

end TypeGraph

/-! ## Objects of a run -/

namespace Compiler

open FragmentSet (deepestFirst)

variable {compiler : Compiler} {schemas : List ResourceSchema} {stages : List Stage}
  {node : TypeNode}

/-- The objects that fragments are generated for are object types of the stages. -/
theorem object_of_mem (h : compiler.stages [] schemas = .ok stages)
    (mem : node ∈ deepestFirst (stages.map (·.graph))) :
    ∃ stage ∈ stages, ∃ level : Nat, (node.name, node) ∈ stage.graph.levels[level]?.getD [] ∧
      node.kind = .object ∧ Synthesis.Described stage.schema level node ∧
      Synthesis.DescribedObject compiler.scalars stage.schema level node := by
  obtain ⟨graph, hgraph, level, name, hentry, hkind⟩ := FragmentSet.mem_deepestFirst mem
  obtain ⟨stage, hstage, rfl⟩ := List.mem_map.mp hgraph
  obtain ⟨rfl, hdescribed, hobject⟩ := (modeled_stages h stage hstage).types level name node hentry
  exact ⟨stage, hstage, level, hentry, hkind, hdescribed, hobject hkind⟩

/-- An object is labelled with the segment of its name. -/
theorem segment_of_mem (h : compiler.stages [] schemas = .ok stages)
    (mem : node ∈ deepestFirst (stages.map (·.graph))) :
    ∃ segment, node.segment = some segment ∧ node.name = objectTypeName segment node.base := by
  obtain ⟨stage, -, level, -, -, -, hobject⟩ := object_of_mem h mem
  exact hobject.segment

/-- The parts that are generated for an object are listed by a node of its model type. -/
theorem hasNode_of_listed (h : compiler.stages [] schemas = .ok stages)
    (mem : node ∈ deepestFirst (stages.map (·.graph))) {part : String}
    (listed : part ∈ Fragment.listedParts node) :
    ∃ holder, HasNode schemas node.base holder ∧ part ∈ holder.parts := by
  obtain ⟨stage, hstage, level, -, hkind, hdescribed, hobject⟩ := object_of_mem h mem
  rcases List.mem_append.mp listed with hbuiltin | hcustom
  · obtain ⟨path, horigin⟩ := hdescribed.origin
    rw [hkind] at horigin
    obtain ⟨-, holder, hpath, -⟩ := horigin.of_object
    exact ⟨holder, ⟨stage.schema, schema_mem h hstage, path, hpath⟩,
      List.mem_append_left _ hbuiltin⟩
  · obtain ⟨entry, hentry, rfl⟩ := List.mem_map.mp hcustom
    obtain ⟨path, holder, hpath, -, hheld⟩ := hobject.fragments entry hentry
    exact ⟨holder, ⟨stage.schema, schema_mem h hstage, path, hpath⟩,
      List.mem_append_right _ (List.mem_map_of_mem hheld)⟩

theorem nameFor_of_segment {segment : Segment} (h : node.segment = some segment) (part : String) :
    Fragment.nameFor node part = segment.label ++ (node.base ++ part) ++ "Fragment" := by
  unfold Fragment.nameFor
  rw [h]
  simp only [Option.map_some, Option.getD_some, String.append_assoc]

theorem apart_of_partsApart (h : compiler.stages [] schemas = .ok stages)
    (apart : PartsApart schemas) : FragmentSet.Apart (deepestFirst (stages.map (·.graph))) := by
  intro node mem node' mem' part listed part' listed' hname
  obtain ⟨segment, hsegment, hobject⟩ := segment_of_mem h mem
  obtain ⟨segment', hsegment', hobject'⟩ := segment_of_mem h mem'
  rw [nameFor_of_segment hsegment, nameFor_of_segment hsegment'] at hname
  obtain ⟨rfl, hparts⟩ := Segment.eq_of_append hname
  obtain ⟨holder, hholder, hpart⟩ := hasNode_of_listed h mem listed
  obtain ⟨holder', hholder', hpart'⟩ := hasNode_of_listed h mem' listed'
  have hbase := apart _ _ _ _ hholder hholder' part hpart part' hpart' hparts
  refine ⟨?_, hbase, ?_⟩
  · rw [hobject, hobject', hbase]
  · rw [hbase] at hparts
    exact (String.append_right_inj _).mp hparts

/-- Nested objects have longer names than the objects around them. -/
theorem deepens_of_lengthens (h : compiler.stages [] schemas = .ok stages)
    (lengthens : Lengthens schemas) :
    FragmentSet.Deepens (deepestFirst (stages.map (·.graph))) := by
  intro node mem field hfield hkind target htarget htype
  obtain ⟨stage, hstage, level, -, -, -, hobject⟩ := object_of_mem h mem
  obtain ⟨⟨name, _⟩, hentry, rfl⟩ := List.mem_map.mp hfield
  obtain ⟨path, holder, hpath, -, hfollows⟩ := hobject.follows _ hentry
  obtain ⟨spec, child, segment, hspec, hnested, hobjectType⟩ := hfollows.nested hkind
  have hlocal := lengthens _ _ _ _ _ ⟨stage.schema, schema_mem h hstage, path, hpath⟩ hspec hnested
  obtain ⟨segment', -, hname⟩ := segment_of_mem h htarget
  obtain ⟨-, hbase⟩ := objectTypeName_injective (hname.symm.trans (htype.trans hobjectType))
  rw [hbase, String.length_append]
  have hpositive := Nat.pos_of_ne_zero (mt String.length_eq_zero_iff.mp hlocal)
  omega

/-- The object fields of each stage lead one level deeper. -/
theorem leveled_stages (h : compiler.stages [] schemas = .ok stages) :
    ∀ graph ∈ stages.map (·.graph), graph.Leveled := by
  intro graph hgraph
  obtain ⟨stage, hstage, rfl⟩ := List.mem_map.mp hgraph
  obtain ⟨before, known, hbefore, hretarget⟩ := exists_graph h hstage
  rw [hretarget]
  exact (Synthesis.ofSchema_leveled hbefore).retarget known

/-- If nested types have longer names and parts are told apart, no fragment of a run spreads itself,
directly or through others, and the fragment that is listed for a part of an object type is on that type
and holds that part. -/
theorem compileAll_spreads (compiler : Compiler) (schemas : List ResourceSchema)
    (compiled : CompiledSchema) (lengthens : Lengthens schemas) (apart : PartsApart schemas)
    (h : compiler.compileAll schemas [] = .ok compiled) :
    (∀ name, ¬TransGen compiled.fragments.Spreads name name) ∧
      ∀ object part name, compiled.fragments.fragmentFor? object part = some name →
        ∃ fragment, compiled.fragments.get? name = some fragment ∧ fragment.on = object ∧
          fragment.part = part := by
  obtain ⟨stages, -, hstages, -, hfragments⟩ := compileAll_eq_ok h
  have hsound := FragmentSet.sound_ofGraphs (stages.map (·.graph))
  have hapart := apart_of_partsApart hstages apart
  have hdeepens := deepens_of_lengthens hstages lengthens
  rw [hfragments]
  exact ⟨hsound.acyclic hapart hdeepens, fun object part name ↦ hsound.owned hapart⟩

/-- Users have an address, and a custom part that continues the name of the user type to that of the
whole address.  The fragment of the custom part takes the place of the one for the whole address, so it
spreads itself, and the address type is left with a fragment on the user type. -/
theorem compileAll_spreads_taken :
    let address : SchemaNode := ⟨none, [("city", .primitive "String")], []⟩
    let table : FieldAttributes := ⟨none, none, none, none, some address, false, none, none, .null⟩
    let user : ResourceSchema := ⟨"User", ⟨none, [("address", .attributes table)],
      [("AddressWhole", [.nested "address" "Whole"])]⟩, [], [], none⟩
    let own : GenerationConfig := ⟨fun leaf ↦ leaf == .object .own⟩
    ∃ compiled fragment, compileAll ⟨own, ⟨[]⟩⟩ [user] [] = .ok compiled ∧
      compiled.fragments.get? "SelfUserAddressWholeFragment" = some fragment ∧
      "SelfUserAddressWholeFragment" ∈ fragment.spreads ∧
      compiled.fragments.fragmentFor? "SelfUserAddressObject" "Whole" =
        some "SelfUserAddressWholeFragment" ∧
      fragment.on = "SelfUserObject" := by
  intro address table user own
  obtain ⟨compiled, hcompiled, hfragments⟩ :
      ∃ compiled, compileAll ⟨own, ⟨[]⟩⟩ [user] [] = .ok compiled ∧
        (compiled.fragments.get? "SelfUserAddressWholeFragment" == some ⟨"SelfUserAddressWholeFragment",
            "SelfUserObject", "AddressWhole", [.spread "address" "SelfUserAddressWholeFragment"]⟩ &&
          compiled.fragments.fragmentFor? "SelfUserAddressObject" "Whole" ==
            some "SelfUserAddressWholeFragment") = true :=
    Except.exists_of_passes (by decide +kernel)
  rw [Bool.and_eq_true, beq_iff_eq, beq_iff_eq] at hfragments
  exact ⟨compiled, _, hcompiled, hfragments.1, List.mem_singleton_self _, hfragments.2, rfl⟩

/-- Users have an address, and a custom part for it. -/
theorem compileAll_spreads_users :
    let address : SchemaNode := ⟨none, [("city", .primitive "String")], []⟩
    let table : FieldAttributes := ⟨none, none, none, none, some address, false, none, none, .null⟩
    let user : ResourceSchema := ⟨"User", ⟨none, [("address", .attributes table)],
      [("Card", [.nested "address" "Whole"])]⟩, [], [], none⟩
    ∃ compiled, compileAll ⟨.full, ⟨[]⟩⟩ [user] [] = .ok compiled ∧
      (∀ name, ¬TransGen compiled.fragments.Spreads name name) ∧
      ∃ fragment, compiled.fragments.get? "SelfUserCardFragment" = some fragment ∧
        fragment.on = "SelfUserObject" ∧ fragment.part = "Card" := by
  intro address table user
  have hshallow : ∀ schema ∈ [user], schema.level 2 = [] := by decide +kernel
  have hlengthens : Lengthens [user] := lengthens_of_nodes hshallow (by decide +kernel)
  have hapart : PartsApart [user] := partsApart_of_nodes hshallow (by decide +kernel)
  obtain ⟨compiled, hcompiled, hcard⟩ :
      ∃ compiled, compileAll ⟨.full, ⟨[]⟩⟩ [user] [] = .ok compiled ∧
        (compiled.fragments.fragmentFor? "SelfUserObject" "Card" ==
          some "SelfUserCardFragment") = true :=
    Except.exists_of_passes (by decide +kernel)
  obtain ⟨hacyclic, howned⟩ := compileAll_spreads _ _ compiled hlengthens hapart hcompiled
  exact ⟨compiled, hcompiled, hacyclic, howned _ _ _ (beq_iff_eq.mp hcard)⟩

end Compiler
end ResourceApi

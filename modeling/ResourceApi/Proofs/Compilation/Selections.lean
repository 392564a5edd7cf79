import ResourceApi.Proofs.Compilation.Fragments
import ResourceApi.Proofs.Compilation.Lookup

/-!
# Selections of a run

A fragment selects fields of the type that it is on.  What it selects of a field has to fit the type of
the field: a leaf is selected by itself, an object by its identifier or by a fragment on that very
object.  Types and fragments come from the same graphs, so selections fit as long as names tell types
and references lead to resources.
-/

namespace ResourceApi

/-! ## Valid selections -/

/-- The selection can be made of a field of the named type. -/
def Selection.Fits (document : TypeDocument) (fragments : FragmentSet) (typeName : String) :
    Selection → Prop
  | .field _ => Scalar.isStandard typeName = true ∨ ∃ leaf, document.get? typeName = some leaf ∧
      (leaf.kind = .scalar ∨ leaf.kind = .enumeration)
  | .idOnly _ => ∃ target, document.get? typeName = some target ∧ target.kind = .object ∧
      (target.field? "id").isSome = true
  | .spread _ name => ∃ fragment, fragments.get? name = some fragment ∧ typeName = fragment.on

/-- Every selection is of a field of the type that the fragment is on, and fits the type of that
field. -/
def Fragment.Valid (document : TypeDocument) (fragments : FragmentSet) (fragment : Fragment) : Prop :=
  ∀ selection ∈ fragment.selections, ∃ definition field, document.get? fragment.on = some definition ∧
    definition.field? selection.fieldName = some field ∧
      selection.Fits document fragments field.namedType

/-- References lead to the root nodes of models, if they lead to a node at all. -/
def RefersToRoots (schemas : List ResourceSchema) : Prop :=
  ∀ typeName node name spec resource, HasNode schemas typeName node → (name, spec) ∈ node.fields →
    spec.reference? = some resource → ∀ schema ∈ schemas, ∀ path target,
      schema.NodeAt path resource target → path = []

/-- It is enough to look at the nodes of models of bounded depth. -/
theorem refersToRoots_of_nodes {schemas : List ResourceSchema} {depth : Nat}
    (shallow : ∀ schema ∈ schemas, schema.level depth = [])
    (roots : ∀ placed ∈ schemas.flatMap (·.nodesTo depth), ∀ field ∈ placed.node.fields,
      ∀ target ∈ schemas.flatMap (·.nodesTo depth), field.2.reference? = some target.typeName →
        target.path = []) : RefersToRoots schemas := by
  intro typeName node name spec resource hnode hmem hreference schema hschema path target htarget
  obtain ⟨placed, hplaced, rfl, rfl⟩ := hnode.exists_placed shallow
  have hplace : ⟨path, resource, target⟩ ∈ schemas.flatMap (·.nodesTo depth) :=
    List.mem_flatMap.mpr ⟨schema, hschema, htarget.mem_nodesTo (shallow schema hschema)⟩
  exact roots placed hplaced (name, spec) hmem _ hplace hreference

namespace Compiler

open FragmentSet (Selects deepestFirst)

variable {compiler : Compiler} {schemas : List ResourceSchema} {stages : List Stage}
  {stage : Stage} {node : TypeNode} {field : FieldNode} {name : String}

/-! ## Types of fields -/

section Fields

variable (named : ∀ schema ∈ schemas, schema.Named) (scalars : compiler.scalars.Named)
  (h : compiler.stages [] schemas = .ok stages) (hstage : stage ∈ stages)
  (hnode : node ∈ stage.graph.definitions) (hfield : field ∈ node.fields.values)

include named scalars h hstage hnode hfield

/-- A field is written with its named type. -/
theorem namedType_ofField : (TypeDocument.ofField field).namedType = field.typeName := by
  obtain ⟨hsettled, hwords⟩ := settled_stages named h
  obtain ⟨entry, hentry, rfl⟩ := List.mem_map.mp hfield
  have hword : IsWord entry.2.typeName :=
    ((hsettled stage hstage).fields node hnode entry hentry).elim scalars.isWord (hwords _)
  change TypeRef.nameOf entry.2.decorated = entry.2.typeName
  rw [(hsettled stage hstage).decorated node hnode entry hentry]
  exact TypeRef.nameOf_decorate (Text.isPlain_of_isWord hword) _

/-- The type of a field is a scalar of the language, or it is defined. -/
theorem defines_typeName : Scalar.isStandard field.typeName = true ∨
    (compiler.document [] stages).Defines field.typeName := by
  have hrefers : TypeDocument.Refers (stages.flatMap Stage.document) field.typeName := by
    refine ⟨_, List.mem_flatMap.mpr ⟨stage, hstage, Stage.mem_document hnode⟩,
      TypeDocument.mem_referencesOf.mpr (.inl ⟨_, List.mem_map_of_mem hfield, ?_⟩)⟩
    rw [← namedType_ofField named scalars h hstage hnode hfield]
    exact List.mem_cons_self
  obtain ⟨hsettled, -⟩ := settled_stages named h
  obtain ⟨entry, hentry, rfl⟩ := List.mem_map.mp hfield
  rcases (hsettled stage hstage).fields node hnode entry hentry with hoffers | hknown
  · exact hrefers.defines_complete (TypeDocument.isSome_supportFor?_of_offers hoffers)
  · obtain ⟨other, hother, target, htarget, hname⟩ := Stage.mem_knownTypes.mp hknown
    have hdefines := (hsettled other hother).defines_node htarget
    rw [hname] at hdefines
    exact .inr ((TypeDocument.defines_flatMap hother hdefines).complete _)

/-- A leaf leads to a scalar or an enum. -/
theorem exists_leaf (apart : compiler.scalars.Apart) {typeName : String} {holder : SchemaNode}
    (follows : Synthesis.Follows compiler.scalars typeName holder field)
    (kind : field.kind.isLeaf = true) : Scalar.isStandard field.typeName = true ∨
      ∃ leaf, (compiler.document [] stages).get? field.typeName = some leaf ∧
        (leaf.kind = .scalar ∨ leaf.kind = .enumeration) := by
  have hleaf : ¬IsComposite field.typeName := by
    rcases follows.leaf kind with hoffers | ⟨-, henum⟩
    · exact apart.not_isComposite hoffers
    · exact IsComposite.not_of_enumeration henum
  refine (defines_typeName named scalars h hstage hnode hfield).imp_right fun hdefines ↦ ?_
  obtain ⟨leaf, hfound⟩ := Option.isSome_iff_exists.mp (TypeDocument.get?_isSome_iff.mpr hdefines)
  obtain ⟨hmem, hname, -⟩ := TypeDocument.exists_of_get? hfound
  exact ⟨leaf, hfound, kind_of_mem_document h hmem (hname ▸ hleaf)⟩

end Fields

/-- A reference leads to an object with an identifier. -/
theorem exists_identified (checked : checkSchemas schemas = .ok ())
    (h : compiler.stages [] schemas = .ok stages) (nodes : NodesApart schemas)
    (roots : RefersToRoots schemas) (hstage : stage ∈ stages)
    (hnode : node ∈ stage.graph.definitions) (hfield : field ∈ node.fields.values)
    {typeName : String} {holder : SchemaNode} (hholder : HasNode schemas typeName holder)
    (follows : Synthesis.Follows compiler.scalars typeName holder field)
    (kind : field.kind = .reference) :
    ∃ target, (compiler.document [] stages).get? field.typeName = some target ∧
      target.kind = .object ∧ (target.field? "id").isSome = true := by
  obtain ⟨entry, hentry, rfl⟩ := List.mem_map.mp hfield
  obtain ⟨spec, resource, segment, hspec, hreference, htypeName⟩ := follows.referred kind
  obtain ⟨other, hother, target, htarget, hname⟩ :=
    Stage.mem_knownTypes.mp ((modeled_stages h stage hstage).references node hnode entry hentry kind)
  obtain ⟨level, hplace, hdescribed⟩ := (modeled_stages h other hother).exists_level htarget
  obtain ⟨path, horigin⟩ := hdescribed.origin
  have hobject : target.kind = .object :=
    horigin.names.unique ⟨segment, resource, hname.trans htypeName⟩
  have hidentified := ((modeled_stages h other hother).types level _ target hplace).2.2 hobject
  rw [hobject] at horigin
  obtain ⟨segment', holder', hpath, hlevel, hnamed⟩ := horigin.of_object
  obtain ⟨-, hbase⟩ := objectTypeName_injective (hnamed.symm.trans (hname.trans htypeName))
  rw [hbase] at hpath
  have hroot := roots _ _ _ _ _ hholder hspec hreference _ (schema_mem h hother) _ _ hpath
  have hid := hidentified.identified (by rw [← hlevel, hroot, List.length_nil])
  refine ⟨_, ?_, ?_, TypeDocument.field?_isSome_of_has other.graph.resource hdescribed.distinct
    hdescribed.named hid⟩
  · rw [← hname]
    exact get?_document checked h nodes hother htarget (by rw [hobject]; decide)
  · change TypeDocument.kindOf target.kind = .object
    rw [hobject]
    rfl

/-- If names tell types and references lead to resources, every selection of a run is of a field of the
type that its fragment is on, and fits the type of that field. -/
theorem compileAll_selections (compiler : Compiler) (schemas : List ResourceSchema)
    (compiled : CompiledSchema) (named : ∀ schema ∈ schemas, schema.Named)
    (scalars : compiler.scalars.Named) (leaves : compiler.scalars.Apart)
    (plain : ∀ typeName node, HasNode schemas typeName node → node.fragments = [])
    (nodes : NodesApart schemas) (roots : RefersToRoots schemas)
    (h : compiler.compileAll schemas [] = .ok compiled) :
    ∀ name fragment, compiled.fragments.get? name = some fragment →
      fragment.Valid compiled.document compiled.fragments := by
  obtain ⟨stages, hchecked, hstages, hdocument, hfragments⟩ := compileAll_eq_ok h
  have hsound := FragmentSet.sound_ofGraphs (stages.map (·.graph))
  have hapart := apart_of_partsApart hstages (partsApart_of_builtin plain)
  rw [hdocument, hfragments]
  intro name fragment hfragment selection hselection
  obtain ⟨node, hmem, -, -, hon, hselects⟩ := hsound.exists_node hfragment
  obtain ⟨field, hfield, hselect⟩ := hselects selection hselection
  obtain ⟨stage, hstage, level, hentry, hkind, hdescribed, hobject⟩ := object_of_mem hstages hmem
  have hnode : node ∈ stage.graph.definitions :=
    TypeGraph.mem_definitions.mpr ⟨level, node.name, hentry⟩
  have hfound := get?_document hchecked hstages nodes hstage hnode (by rw [hkind]; decide)
  have hheld := TypeDocument.field?_ofNode stage.graph.resource hdescribed.distinct hdescribed.named
    hfield
  have htype := namedType_ofField named scalars hstages hstage hnode hfield
  obtain ⟨entry, hfieldEntry, heq⟩ := List.mem_map.mp hfield
  obtain ⟨path, holder, hpath, -, hfollows⟩ := hobject.follows entry hfieldEntry
  rw [heq] at hfollows
  refine ⟨_, TypeDocument.ofField field, hon ▸ hfound, ?_, ?_⟩
  · cases hselect <;> exact hheld
  rw [htype]
  cases hselect with
  | leaf kind => exact exists_leaf named scalars hstages hstage hnode hfield leaves hfollows kind
  | identifier kind =>
    exact exists_identified hchecked hstages nodes roots hstage hnode hfield
      ⟨stage.schema, schema_mem hstages hstage, path, hpath⟩ hfollows kind
  | nested kind provided =>
    obtain ⟨spread, hspread, hon', -⟩ := hsound.exists_fragment hapart provided
    exact ⟨spread, hspread, hon'.symm⟩
  | referred kind provided =>
    obtain ⟨spread, hspread, hon', -⟩ := hsound.exists_fragment hapart provided
    exact ⟨spread, hspread, hon'.symm⟩

/-- A user has an address and a home, which refers to a resource that is not there but whose name is
that of the type of the address.  The reference is kept, so the home is selected by the identifier of an
object that has none. -/
theorem compileAll_selections_dangling :
    let address : SchemaNode := ⟨none, [("city", .primitive "String")], []⟩
    let table : FieldAttributes := ⟨none, none, none, none, some address, false, none, none, .null⟩
    let home : FieldAttributes :=
      ⟨none, none, some "UserAddress", none, none, false, none, none, .null⟩
    let user : ResourceSchema :=
      ⟨"User", ⟨none, [("address", .attributes table), ("home", .attributes home)], []⟩, [], [], none⟩
    let mixed : GenerationConfig := ⟨fun leaf ↦ leaf == .object .mixed⟩
    ∃ compiled fragment, compileAll ⟨mixed, ⟨[]⟩⟩ [user] [] = .ok compiled ∧
      compiled.fragments.get? "MixedUserObjectsNoneFragment" = some fragment ∧
      .idOnly "home" ∈ fragment.selections ∧
      ¬fragment.Valid compiled.document compiled.fragments := by
  intro address table home user mixed
  obtain ⟨compiled, hcompiled, hchecks⟩ :
      ∃ compiled, compileAll ⟨mixed, ⟨[]⟩⟩ [user] [] = .ok compiled ∧
        (compiled.fragments.get? "MixedUserObjectsNoneFragment" == some
            ⟨"MixedUserObjectsNoneFragment", "MixedUserObject", "ObjectsNone",
              [.field "id", .idOnly "home"]⟩ &&
          ((compiled.document.get? "MixedUserObject").bind (·.field? "home")).map (·.namedType) ==
            some "MixedUserAddressObject" &&
          (compiled.document.get? "MixedUserAddressObject").bind (·.field? "id") == none) = true :=
    Except.exists_of_passes (by decide +kernel)
  simp only [Bool.and_eq_true, beq_iff_eq] at hchecks
  obtain ⟨⟨hfragment, htype⟩, hid⟩ := hchecks
  have hselected : .idOnly "home" ∈ [Selection.field "id", .idOnly "home"] := by decide
  refine ⟨compiled, _, hcompiled, hfragment, hselected, fun hvalid ↦ ?_⟩
  obtain ⟨definition, field, hdefinition, hfield, target, htarget, -, hidentified⟩ :=
    hvalid _ hselected
  change compiled.document.get? "MixedUserObject" = some definition at hdefinition
  change definition.field? "home" = some field at hfield
  rw [hdefinition, Option.bind_some, hfield, Option.map_some, Option.some_inj] at htype
  rw [htype] at htarget
  rw [htarget, Option.bind_some] at hid
  rw [hid] at hidentified
  cases hidentified

/-- Users with an address, a role and a friend. -/
theorem compileAll_selections_users :
    let address : SchemaNode := ⟨none, [("city", .primitive "String")], []⟩
    let table : FieldAttributes := ⟨none, none, none, none, some address, false, none, none, .null⟩
    let roles : FieldAttributes :=
      ⟨none, some ["Admin", "Guest"], none, none, none, false, none, none, .null⟩
    let friend : FieldAttributes := ⟨none, none, some "User", none, none, true, none, none, .null⟩
    let user : ResourceSchema := ⟨"User", ⟨none, [("address", .attributes table),
      ("role", .attributes roles), ("friend", .attributes friend)], []⟩, [], [], none⟩
    ∃ compiled fragment, compileAll ⟨.full, .default⟩ [user] [] = .ok compiled ∧
      compiled.fragments.get? "SelfUserWholeFragment" = some fragment ∧
      fragment.selections = [.field "id", .spread "address" "SelfUserAddressWholeFragment",
        .field "role", .spread "friend" "MixedUserRefsNoneFragment"] ∧
      fragment.Valid compiled.document compiled.fragments := by
  intro address table roles friend user
  have hshallow : ∀ schema ∈ [user], schema.level 2 = [] := by decide +kernel
  have haddress : address.Named := SchemaNode.named_of_leaves (by decide)
  have hnode : user.node.Named := by
    refine SchemaNode.named_of_forall (List.forall_mem_cons.mpr ⟨⟨by decide, ?_, ?_⟩,
      List.forall_mem_cons.mpr ⟨⟨by decide, ?_, ?_⟩, List.forall_mem_singleton.mpr ⟨by decide, ?_, ?_⟩⟩⟩)
    case refine_2 =>
      intro child hchild
      obtain rfl : address = child := Option.some.inj hchild
      exact haddress
    all_goals exact fun _ h ↦ nomatch h
  have hnamed : ∀ schema ∈ [user], schema.Named :=
    List.forall_mem_singleton.mpr ⟨by decide, (fun _ h ↦ nomatch h), hnode⟩
  have hscalars : ScalarRegistry.default.Named := by
    have hnames : ∀ name ∈ ScalarRegistry.default.names, IsName name := by decide
    exact hnames
  have hleaves : ScalarRegistry.default.Apart := by
    have hendings : ∀ name ∈ ScalarRegistry.default.names,
        TypeKind.lastLetters name ∉ IsComposite.endings := by decide
    exact fun name hname hcomposite ↦ hendings name hname hcomposite.lastLetters_mem
  have hplain : ∀ typeName node, HasNode [user] typeName node → node.fragments = [] := by
    intro typeName node hnode
    obtain ⟨placed, hplaced, -, rfl⟩ := hnode.exists_placed hshallow
    have hnone : ∀ placed ∈ [user].flatMap (·.nodesTo 2), placed.node.fragments.isEmpty = true := by
      decide +kernel
    exact List.isEmpty_iff.mp (hnone placed hplaced)
  have hnodes : NodesApart [user] := nodesApart_of_nodup hshallow (by decide +kernel)
  have hroots : RefersToRoots [user] := refersToRoots_of_nodes hshallow (by decide +kernel)
  obtain ⟨compiled, hcompiled, hfragment⟩ :
      ∃ compiled, compileAll ⟨.full, .default⟩ [user] [] = .ok compiled ∧
        (compiled.fragments.get? "SelfUserWholeFragment" == some
          ⟨"SelfUserWholeFragment", "SelfUserObject", "Whole", [.field "id",
            .spread "address" "SelfUserAddressWholeFragment", .field "role",
            .spread "friend" "MixedUserRefsNoneFragment"]⟩) = true :=
    Except.exists_of_passes (by decide +kernel)
  have hfound := beq_iff_eq.mp hfragment
  exact ⟨compiled, _, hcompiled, hfound, rfl, compileAll_selections _ _ compiled hnamed hscalars hleaves
    hplain hnodes hroots hcompiled _ _ hfound⟩

end Compiler
end ResourceApi

import ResourceApi.Proofs.Graph.Origin

/-!
# Graphs beside an initial document

The same walk is taken twice, without an initial document and beside one.  Step by step the second builder
keeps what the first one has: each type, of the same kind, and of its fields all but those that the
initial document defines.  So the second walk finds every type that the first one can point at, and a type
of which some field is left stands in both graphs.
-/

namespace ResourceApi

/-! ## Types -/

namespace TypeNode

/-- The second type has what the first one has, apart from fields that are defined elsewhere. -/
structure Kept (defined : String → Bool) (node next : TypeNode) : Prop where
  kind : next.kind = node.kind
  fields : ∀ field, node.fields.has field = true →
    next.fields.has field = true ∨ defined field = true
  members : node.members ⊆ next.members
  values : node.values ⊆ next.values

variable {defined : String → Bool} {node next : TypeNode}

/-- A type that has something to define keeps something, unless all of it is defined elsewhere. -/
theorem Kept.filled (h : node.Kept defined next) (filled : node.isEmpty = false) :
    next.isEmpty = false ∨ (∃ field, node.fields.has field = true) ∧
      ∀ field, node.fields.has field = true → defined field = true := by
  have hfields : node.fields ≠ [] → next.fields ≠ [] ∨
      (∃ field, node.fields.has field = true) ∧
        ∀ field, node.fields.has field = true → defined field = true := by
    intro hfilled
    by_cases hnil : next.fields = []
    · obtain ⟨field, held, hheld⟩ := exists_get?_of_ne_nil hfilled
      refine .inr ⟨⟨field, Option.isSome_iff_exists.mpr ⟨held, hheld⟩⟩, fun other hother ↦ ?_⟩
      have hkept := h.fields other hother
      rw [hnil] at hkept
      exact hkept.resolve_left Bool.false_ne_true
    · exact .inl hnil
  unfold isEmpty at filled ⊢
  rw [h.kind]
  cases hkind : node.kind with
  | union =>
    simp only [hkind, List.isEmpty_eq_false_iff] at filled ⊢
    exact .inl fun hnil ↦ filled (List.subset_nil.mp (hnil ▸ h.members))
  | enumeration =>
    simp only [hkind, List.isEmpty_eq_false_iff] at filled ⊢
    exact .inl fun hnil ↦ filled (List.subset_nil.mp (hnil ▸ h.values))
  | _ =>
    simp only [hkind, List.isEmpty_eq_false_iff] at filled ⊢
    exact hfields filled

/-- Writes a field unless it is defined elsewhere or the type has it. -/
def write (defined : Bool) (field : FieldNode) (node : TypeNode) : TypeNode :=
  if !defined && !node.fields.has field.name then
    { node with fields := node.fields ++ [(field.name, field)] }
  else node

theorem has_write (defined : Bool) (field : FieldNode) (node : TypeNode) (key : String) :
    (node.write defined field).fields.has key = true ↔
      node.fields.has key = true ∨ defined = false ∧ key = field.name := by
  unfold write
  split
  · rename_i hwritten
    obtain ⟨hdefined, -⟩ := Bool.and_eq_true_iff.mp hwritten
    simp only [Entries.has_iff, Entries.keys_append, List.mem_append, Entries.keys_cons,
      Entries.keys_nil, List.mem_singleton, Bool.not_eq_true'] at hdefined ⊢
    simp [hdefined]
  · rename_i hkept
    refine ⟨.inl, fun h ↦ h.elim id fun ⟨hdefined, hkey⟩ ↦ ?_⟩
    simpa [hdefined, hkey] using hkept

theorem kind_write (defined : Bool) (field : FieldNode) (node : TypeNode) :
    (node.write defined field).kind = node.kind := by
  unfold write
  split <;> rfl

theorem Kept.write_right (h : node.Kept defined next) (written : Bool) (field : FieldNode) :
    node.Kept defined (next.write written field) := by
  refine ⟨(kind_write ..).trans h.kind, fun key hkey ↦ ?_, ?_, ?_⟩
  · exact (h.fields key hkey).imp_left fun hheld ↦ (has_write ..).mpr (.inl hheld)
  · unfold write
    split <;> exact h.members
  · unfold write
    split <;> exact h.values

/-- The first type gets a field, and the second one too unless it is defined elsewhere. -/
theorem Kept.write {field field' : FieldNode} (h : node.Kept defined next)
    (same : field'.name = field.name) :
    (node.write false field).Kept defined (next.write (defined field.name) field') := by
  have hright := h.write_right (defined field.name) field'
  refine ⟨hright.kind.trans (kind_write ..).symm, fun key hkey ↦ ?_, ?_, ?_⟩
  · rcases (has_write ..).mp hkey with hheld | ⟨-, rfl⟩
    · exact hright.fields key hheld
    · cases hdefined : defined field.name with
      | true => exact .inr rfl
      | false => exact .inl ((has_write ..).mpr (.inr ⟨rfl, same.symm⟩))
  · unfold TypeNode.write at hright ⊢
    split <;> exact hright.members
  · unfold TypeNode.write at hright ⊢
    split <;> exact hright.values

end TypeNode

namespace GraphBuilder

variable {builder next plain extended plain' extended' : GraphBuilder} {level : Nat} {name : String}
  {f g : TypeNode → TypeNode}

/-! ## Changes of one type -/

/-- The second builder is the first one with the type under a name changed, if there is one. -/
structure Changes (level : Nat) (name : String) (f : TypeNode → TypeNode)
    (builder next : GraphBuilder) : Prop where
  existing : next.existing = builder.existing
  types : ∀ other key, next.get? other key =
    if other = level ∧ key = name then (builder.get? level name).map f else builder.get? other key

theorem changes_modify (builder : GraphBuilder) (level : Nat) (name : String)
    (f : TypeNode → TypeNode) : Changes level name f builder (builder.modify level name f) :=
  ⟨rfl, fun _ _ ↦ get?_modify f⟩

theorem changes_id (builder : GraphBuilder) (level : Nat) (name : String) :
    Changes level name id builder builder := by
  refine ⟨rfl, fun other key ↦ ?_⟩
  split
  · rename_i hat
    rw [hat.1, hat.2, Option.map_id]
    rfl
  · rfl

theorem changes_addField (builder : GraphBuilder) (level : Nat) (name : String)
    (field : FieldNode) :
    Changes level name (TypeNode.write (builder.definedBefore name field.name) field) builder
      (builder.addField level name field) := by
  refine ⟨?_, fun other key ↦ ?_⟩
  · unfold addField
    split <;> rfl
  · unfold addField canAdd
    cases hfound : builder.get? level name with
    | none =>
      rw [if_neg (by simp)]
      split
      · rename_i hat
        rw [hat.1, hat.2, hfound]
        rfl
      · rfl
    | some node =>
      by_cases hadd : (!builder.definedBefore name field.name && !node.fields.has field.name) = true
      · rw [if_pos hadd, get?_modify, hfound]
        simp [TypeNode.write, hadd]
      · rw [if_neg hadd]
        split
        · rename_i hat
          rw [hat.1, hat.2, hfound]
          simp [TypeNode.write, hadd]
        · rfl

/-! ## Builders -/

/-- The first builder knows no initial document, and the second one keeps what it has. -/
structure Keeps (plain extended : GraphBuilder) : Prop where
  existing : plain.existing = []
  named : ∀ level name node, extended.get? level name = some node → node.kind.Names name
  types : ∀ level name node, plain.get? level name = some node →
    ∃ next, extended.get? level name = some next ∧ node.Kept (extended.definedBefore name) next

namespace Keeps

theorem new (resource : String) (existing : Entries (List String)) :
    Keeps (.new resource []) (.new resource existing) :=
  ⟨rfl, (fun _ _ _ h ↦ nomatch h), (fun _ _ _ h ↦ nomatch h)⟩

theorem isAvailable (h : plain.Keeps extended) (available : plain.isAvailable level name = true) :
    extended.isAvailable level name = true := by
  unfold GraphBuilder.isAvailable at available ⊢
  rw [h.existing] at available
  cases hget : plain.get? level name with
  | none => simp [hget, Entries.has] at available
  | some node =>
    have hfilled : node.isEmpty = false := by simpa [hget, Entries.has] using available
    obtain ⟨next, hnext, hkept⟩ := h.types level name node hget
    rw [hnext]
    rcases hkept.filled hfilled with hfilled' | ⟨⟨field, hfield⟩, hdefined⟩
    · simp [hfilled']
    · have hbefore := hdefined field hfield
      rw [definedBefore_iff] at hbefore
      cases hexisting : extended.existing.get? name with
      | none =>
        rw [hexisting] at hbefore
        cases hbefore
      | some fields => simp [Entries.has, hexisting]

theorem named_ensure (h : plain.Keeps extended) {kind : TypeKind} (names : kind.Names name)
    (level : Nat) (base : String) (other : Nat) (key : String) (node : TypeNode)
    (found : (extended.ensure level name kind base).get? other key = some node) :
    node.kind.Names key := by
  rw [get?_ensure] at found
  by_cases hat : other = level ∧ key = name
  · obtain ⟨rfl, rfl⟩ := hat
    rw [if_pos ⟨rfl, rfl⟩] at found
    cases hheld : extended.get? other key with
    | none =>
      rw [hheld] at found
      cases found
      exact names
    | some held =>
      rw [hheld] at found
      cases found
      exact h.named other key _ hheld
  · rw [if_neg hat] at found
    exact h.named other key node found

/-- A type is opened in both builders. -/
theorem ensure (h : plain.Keeps extended) {kind : TypeKind} (names : kind.Names name)
    (level : Nat) (base : String) :
    (plain.ensure level name kind base).Keeps (extended.ensure level name kind base) where
  existing := h.existing
  named := h.named_ensure names level base
  types other key node found := by
    rw [get?_ensure] at found
    by_cases hat : other = level ∧ key = name
    · obtain ⟨rfl, rfl⟩ := hat
      rw [if_pos ⟨rfl, rfl⟩] at found
      obtain ⟨next, hnext⟩ : ∃ next, (extended.ensure other key kind base).get? other key =
          some next := by
        rw [get?_ensure, if_pos ⟨rfl, rfl⟩]
        exact ⟨_, rfl⟩
      refine ⟨next, hnext, ?_⟩
      cases hheld : plain.get? other key with
      | none =>
        rw [hheld] at found
        cases found
        -- the second builder may have had a type of this name, but then one of the same kind
        exact ⟨(h.named_ensure names other base other key next hnext).unique names,
          (fun _ hfield ↦ nomatch hfield), List.nil_subset _, List.nil_subset _⟩
      | some held =>
        rw [hheld] at found
        cases found
        obtain ⟨later, hlater, hkept⟩ := h.types other key _ hheld
        rw [get?_ensure, if_pos ⟨rfl, rfl⟩, hlater] at hnext
        cases hnext
        exact hkept
    · rw [if_neg hat] at found
      rw [get?_ensure, if_neg hat]
      exact h.types other key node found

/-- A type is opened in the second builder only. -/
theorem ensure_right (h : plain.Keeps extended) {kind : TypeKind} (names : kind.Names name)
    (level : Nat) (base : String) : plain.Keeps (extended.ensure level name kind base) where
  existing := h.existing
  named := h.named_ensure names level base
  types other key node found := by
    obtain ⟨next, hnext, hkept⟩ := h.types other key node found
    refine ⟨next, ?_, hkept⟩
    rw [get?_ensure]
    split
    · rename_i hat
      rw [← hat.1, ← hat.2, hnext]
      rfl
    · exact hnext

/-- A type is changed in both builders. -/
theorem change (h : plain.Keeps extended) (hplain : Changes level name f plain plain')
    (hextended : Changes level name g extended extended') (kind : ∀ next, (g next).kind = next.kind)
    (kept : ∀ node next, node.Kept (extended.definedBefore name) next →
      (f node).Kept (extended.definedBefore name) (g next)) : plain'.Keeps extended' where
  existing := hplain.existing.trans h.existing
  named other key node found := by
    rw [hextended.types] at found
    by_cases hat : other = level ∧ key = name
    · rw [if_pos hat] at found
      obtain ⟨before, hbefore, rfl⟩ := Option.map_eq_some_iff.mp found
      rw [kind, hat.2]
      exact h.named level name before hbefore
    · rw [if_neg hat] at found
      exact h.named other key node found
  types other key node found := by
    have hdefined : extended'.definedBefore = extended.definedBefore := by
      funext name field
      unfold definedBefore
      rw [hextended.existing]
    rw [hplain.types] at found
    rw [hextended.types, hdefined]
    by_cases hat : other = level ∧ key = name
    · rw [if_pos hat] at found
      rw [if_pos hat, hat.2]
      obtain ⟨before, hbefore, rfl⟩ := Option.map_eq_some_iff.mp found
      obtain ⟨next, hnext, hkept⟩ := h.types level name before hbefore
      exact ⟨g next, by rw [hnext]; rfl, kept before next hkept⟩
    · rw [if_neg hat] at found
      rw [if_neg hat]
      exact h.types other key node found

theorem modify (h : plain.Keeps extended) (level : Nat) (name : String)
    (kind : ∀ next, (g next).kind = next.kind)
    (kept : ∀ node next, node.Kept (extended.definedBefore name) next →
      (f node).Kept (extended.definedBefore name) (g next)) :
    (plain.modify level name f).Keeps (extended.modify level name g) :=
  h.change (changes_modify plain level name f) (changes_modify extended level name g) kind kept

theorem modify_right (h : plain.Keeps extended) (level : Nat) (name : String)
    (kind : ∀ next, (g next).kind = next.kind)
    (kept : ∀ node next : TypeNode, node.Kept (extended.definedBefore name) next →
      node.Kept (extended.definedBefore name) (g next)) :
    plain.Keeps (extended.modify level name g) :=
  h.change (changes_id plain level name) (changes_modify extended level name g) kind kept

/-- A field is written in both builders. -/
theorem addField (h : plain.Keeps extended) (level : Nat) (name : String) {field field' : FieldNode}
    (same : field'.name = field.name) :
    (plain.addField level name field).Keeps (extended.addField level name field') := by
  have hundefined : plain.definedBefore name field.name = false := by
    unfold definedBefore
    rw [h.existing]
    rfl
  have hplain := changes_addField plain level name field
  rw [hundefined] at hplain
  refine h.change hplain (changes_addField extended level name field')
    (fun next ↦ TypeNode.kind_write _ _ next) fun node next hkept ↦ ?_
  rw [same]
  exact hkept.write same

theorem addField_right (h : plain.Keeps extended) (level : Nat) (name : String)
    (field : FieldNode) : plain.Keeps (extended.addField level name field) := by
  refine h.change (changes_id plain level name) (changes_addField extended level name field)
    (fun next ↦ TypeNode.kind_write _ _ next) fun node next hkept ↦ ?_
  exact hkept.write_right _ _

end Keeps
end GraphBuilder

/-! ## Steps of the walk -/

namespace Synthesis

variable {scalars : ScalarRegistry} {plain extended plain' extended' : GraphBuilder}
  {position : Position} {field : ClassifiedField} {options : FieldConfig} {level : Nat}
  {name : String}

theorem keeps_openObject (h : plain.Keeps extended) (node : SchemaNode) (typeName : String)
    (level : Nat) (segment : Segment) :
    (openObject node typeName level plain segment).Keeps
      (openObject node typeName level extended segment) := by
  have hopened := h.ensure (TypeKind.names_object segment typeName) level typeName
  have hlabelled := hopened.modify level (objectTypeName segment typeName)
    (f := fun object ↦ { object with segment := some segment, fragments := node.fragments })
    (g := fun object ↦ { object with segment := some segment, fragments := node.fragments })
    (fun _ ↦ rfl) fun _ _ hkept ↦ ⟨hkept.kind, hkept.fields, hkept.members, hkept.values⟩
  unfold openObject
  dsimp only
  split
  · exact hlabelled.addField level _ rfl
  · exact hlabelled

theorem keeps_openInput (h : plain.Keeps extended) (typeName : String) (level : Nat)
    (action : InputAction) :
    (openInput typeName level plain action).Keeps (openInput typeName level extended action) := by
  have hopened := h.ensure (TypeKind.names_input action typeName) level typeName
  unfold openInput
  dsimp only
  split
  · exact hopened.addField level _ rfl
  · exact hopened

theorem keeps_openNode (h : plain.Keeps extended) (node : SchemaNode) (typeName : String)
    (config : GenerationConfig) (visible : Visibility) (level : Nat) :
    (openNode node typeName config visible level plain).Keeps
      (openNode node typeName config visible level extended) := by
  have hobjects := List.foldl_rel (l := visible.segments) (r := GraphBuilder.Keeps) h
    fun segment _ _ _ hkeeps ↦ keeps_openObject hkeeps node typeName level segment
  have hinputs := List.foldl_rel (l := visible.inputs) (r := GraphBuilder.Keeps) hobjects
    fun action _ _ _ hkeeps ↦ keeps_openInput hkeeps typeName level action
  unfold openNode
  dsimp only
  split
  · exact hinputs.ensure (TypeKind.names_interface typeName) level typeName
  · exact hinputs

/-- The union is written in both, or in the second builder only. -/
theorem keeps_closeNode (h : plain.Keeps extended) (typeName : String) (config : GenerationConfig)
    (visible : Visibility) (level : Nat) :
    (closeNode typeName config visible level plain).Keeps
      (closeNode typeName config visible level extended) := by
  have hnames := TypeKind.names_union typeName
  unfold closeNode
  dsimp only
  generalize (visible.segments.map fun segment ↦ objectTypeName segment typeName) = names
  have hmembers : names.filter (plain.isAvailable level) ⊆
      names.filter (extended.isAvailable level) := by
    intro member hmember
    obtain ⟨hname, havailable⟩ := List.mem_filter.mp hmember
    exact List.mem_filter.mpr ⟨hname, h.isAvailable havailable⟩
  by_cases hplain : (config.enabled .union &&
      !(names.filter (plain.isAvailable level)).isEmpty) = true
  · have hextended : (config.enabled .union &&
        !(names.filter (extended.isAvailable level)).isEmpty) = true := by
      simp only [Bool.and_eq_true, Bool.not_eq_true', List.isEmpty_eq_false_iff] at hplain ⊢
      exact ⟨hplain.1, fun hnil ↦ hplain.2 (List.subset_nil.mp (hnil ▸ hmembers))⟩
    rw [if_pos hplain, if_pos hextended]
    refine (h.ensure hnames level typeName).modify level _ (fun _ ↦ rfl) fun node next hkept ↦ ?_
    refine ⟨hkept.kind, hkept.fields, fun member hmember ↦ ?_, hkept.values⟩
    rcases mem_addMissing.mp hmember with hheld | hnew
    · exact mem_addMissing.mpr (.inl (hkept.members hheld))
    · exact mem_addMissing.mpr (.inr (hmembers hnew))
  · rw [if_neg hplain]
    split
    · refine (h.ensure_right hnames level typeName).modify_right level _ (fun _ ↦ rfl)
        fun node next hkept ↦ ?_
      exact ⟨hkept.kind, hkept.fields, fun member hmember ↦
        mem_addMissing.mpr (.inl (hkept.members hmember)), hkept.values⟩
    · exact h

/-! ## Fields of the walk -/

theorem isSome_objectField? (level : Nat) (field : ClassifiedField) (options : FieldConfig)
    (builder : GraphBuilder) (segment : Segment) :
    (objectField? level field options builder segment).isSome =
      ((leafLink field options).isSome || field.kind.isReference ||
        builder.isAvailable (level + 1)
          (objectTypeName (options.authMapper segment) field.target)) := by
  unfold objectField?
  dsimp only
  generalize builder.isAvailable (level + 1) _ = available
  cases leafLink field options with
  | some link => rfl
  | none => cases field.kind.isReference <;> cases available <;> rfl

theorem isSome_inputField? (level : Nat) (field : ClassifiedField) (options : FieldConfig)
    (builder : GraphBuilder) (action : InputAction) :
    (inputField? level field options builder action).isSome =
      ((leafLink field options).isSome || field.kind.isReference ||
        builder.isAvailable (level + 1) (inputTypeName action field.target)) := by
  unfold inputField?
  dsimp only
  generalize builder.isAvailable (level + 1) _ = available
  cases leafLink field options with
  | some link => rfl
  | none => cases field.kind.isReference <;> cases available <;> rfl

theorem isSome_interfaceField? (level : Nat) (field : ClassifiedField) (options : FieldConfig)
    (builder : GraphBuilder) (nullable : List Bool) :
    (interfaceField? level field options builder nullable).isSome =
      ((leafLink field options).isSome || field.kind.isReference ||
        builder.isAvailable (level + 1) (unionTypeName field.target)) := by
  unfold interfaceField?
  dsimp only
  generalize builder.isAvailable (level + 1) _ = available
  cases leafLink field options with
  | some link => rfl
  | none => cases field.kind.isReference <;> cases available <;> rfl

/-- A field that is written as soon as a type can be pointed at is written in both, or in the second
builder only. -/
theorem keeps_write (h : plain.Keeps extended) {holder target : String} {below : Nat} {always : Bool}
    {found found' : Option FieldNode}
    (plainly : found.isSome = (always || plain.isAvailable below target))
    (beside : found'.isSome = (always || extended.isAvailable below target))
    (named : ∀ node, found = some node → node.name = name)
    (named' : ∀ node, found' = some node → node.name = name) (description : Option String) :
    (write level holder description plain found).Keeps
      (write level holder description extended found') := by
  cases found with
  | none =>
    cases found' with
    | none => exact h
    | some node' => exact h.addField_right level holder _
  | some node =>
    have hsome : found'.isSome = true := by
      rw [beside]
      exact Bool.or_eq_true_iff.mpr ((Bool.or_eq_true_iff.mp plainly.symm).imp_right h.isAvailable)
    obtain ⟨node', rfl⟩ := Option.isSome_iff_exists.mp hsome
    exact h.addField level holder ((named' node' rfl).trans (named node rfl).symm)

theorem keeps_defineEnum (h : plain.Keeps extended) (typeName : String)
    (names : ∀ values, field.kind = .enumeration values → TypeKind.enumeration.Names field.target)
    (level : Nat) (options : FieldConfig) :
    (defineEnum typeName level field options plain).Keeps
      (defineEnum typeName level field options extended) := by
  unfold defineEnum
  split
  · rename_i values hkind
    split
    · refine (h.ensure (names values hkind) level typeName).modify level _ (fun _ ↦ rfl)
        fun node next hkept ↦ ?_
      refine ⟨hkept.kind, hkept.fields, hkept.members, fun value hvalue ↦ ?_⟩
      exact mem_addMissing.mpr ((mem_addMissing.mp hvalue).imp_left fun hheld ↦ hkept.values hheld)
    · exact h
  · exact h

theorem keeps_writeObjects (h : plain.Keeps extended) (typeName : String) (level : Nat)
    (field : ClassifiedField) (options : FieldConfig) (visible : Visibility) :
    (writeObjects typeName level field options visible plain).Keeps
      (writeObjects typeName level field options visible extended) :=
  List.foldl_rel (r := GraphBuilder.Keeps) h fun _ _ _ _ hkeeps ↦
    keeps_write hkeeps (isSome_objectField? ..) (isSome_objectField? ..)
      (fun _ hfound ↦ (links_of_objectField? hfound).name)
      (fun _ hfound ↦ (links_of_objectField? hfound).name) _

theorem keeps_writeInputs (h : plain.Keeps extended) (typeName : String) (level : Nat)
    (field : ClassifiedField) (options : FieldConfig) (visible : Visibility) :
    (writeInputs typeName level field options visible plain).Keeps
      (writeInputs typeName level field options visible extended) :=
  List.foldl_rel (r := GraphBuilder.Keeps) h fun _ _ _ _ hkeeps ↦
    keeps_write hkeeps (isSome_inputField? ..) (isSome_inputField? ..)
      (fun _ hfound ↦ (links_of_inputField? hfound).name)
      (fun _ hfound ↦ (links_of_inputField? hfound).name) _

theorem keeps_writeInterface (h : plain.Keeps extended) (typeName : String) (level : Nat)
    (field : ClassifiedField) (options : FieldConfig) (visible : Visibility) :
    (writeInterface typeName level field options visible plain).Keeps
      (writeInterface typeName level field options visible extended) := by
  unfold writeInterface
  dsimp only
  split
  · exact h
  · split
    · rename_i hplain
      obtain ⟨hvisible, hfound⟩ := Bool.and_eq_true_iff.mp hplain
      obtain ⟨node, hnode⟩ := Option.isSome_iff_exists.mp hfound
      obtain ⟨next, hnext, -⟩ := h.types _ _ node hnode
      rw [if_pos (Bool.and_eq_true_iff.mpr ⟨hvisible, by rw [hnext]; rfl⟩)]
      exact keeps_write h (isSome_interfaceField? ..) (isSome_interfaceField? ..)
        (fun _ hfound ↦ (links_of_interfaceField? hfound).name)
        (fun _ hfound ↦ (links_of_interfaceField? hfound).name) _
    · split
      · cases interfaceField? level field options extended _ with
        | none => exact h
        | some node => exact h.addField_right _ _ _
      · exact h

theorem keeps_writeField (h : plain.Keeps extended) (declared : position.Declares scalars field options)
    (visible : Visibility) :
    (writeField position.typeName position.level field options visible plain).Keeps
      (writeField position.typeName position.level field options visible extended) := by
  obtain ⟨spec, -, hclassify, -⟩ := declared
  have hdefined := keeps_defineEnum h position.typeName (fun values hkind ↦ by
    rw [(ClassifiedField.enumeration_of_classify hclassify hkind).1]
    exact names_enumTypeName _ _) position.level options
  have hobjects := keeps_writeObjects hdefined position.typeName position.level field options visible
  have hinputs := keeps_writeInputs hobjects position.typeName position.level field options visible
  exact keeps_writeInterface hinputs position.typeName position.level field options visible

/-! ## Walks -/

theorem keeps_walkFields
    (walks : ∀ child, position.Child scalars child → ∀ plain extended plain' extended',
      plain.Keeps extended → child.walk scalars plain = .ok plain' →
        child.walk scalars extended = .ok extended' → plain'.Keeps extended')
    (h : plain.Keeps extended) {fields : List (String × FieldSpec)}
    (hfields : fields ⊆ position.node.fields)
    (hplain : walkFields scalars position.typeName position.config (.under position.path)
      position.level plain fields = .ok plain')
    (hextended : walkFields scalars position.typeName position.config (.under position.path)
      position.level extended fields = .ok extended') : plain'.Keeps extended' := by
  induction fields generalizing plain extended with
  | nil =>
    cases hplain
    cases hextended
    exact h
  | cons entry rest ih =>
    obtain ⟨name, spec⟩ := entry
    obtain ⟨hmem, hrest⟩ := List.cons_subset.mp hfields
    obtain ⟨field, options, walked, -, hclassify, declared, hnested, hplain⟩ :=
      walkFields_cons hmem hplain
    obtain ⟨field', options', walked', -, hclassify', declared', hnested', hextended⟩ :=
      walkFields_cons hmem hextended
    obtain rfl : field' = field := Except.ok.inj (hclassify'.symm.trans hclassify)
    obtain rfl : options' = options := declared'.options_unique declared
    have hwalked : walked.Keeps walked' := by
      rcases hnested with ⟨hleaf, rfl⟩ | ⟨child, config, hkind, hconfig, hwalk⟩
      · rcases hnested' with ⟨-, rfl⟩ | ⟨child', config', hkind', -, -⟩
        · exact h
        · rw [hkind'] at hleaf
          cases hleaf
      · rcases hnested' with ⟨hleaf, -⟩ | ⟨child', config', hkind', hconfig', hwalk'⟩
        · rw [hkind] at hleaf
          cases hleaf
        · obtain rfl := FieldKind.object.inj (hkind.symm.trans hkind')
          obtain rfl := Except.ok.inj (hconfig.symm.trans hconfig')
          exact walks _ (.intro declared hkind hconfig) _ _ _ _ h hwalk hwalk'
    exact ih (keeps_writeField hwalked declared _) hrest hplain hextended

/-- What a walk finds without an initial document it finds beside one. -/
theorem keeps_walk (h : plain.Keeps extended) (hplain : position.walk scalars plain = .ok plain')
    (hextended : position.walk scalars extended = .ok extended') : plain'.Keeps extended' := by
  obtain ⟨node, hnode⟩ : ∃ node, position.node = node := ⟨_, rfl⟩
  induction node using SchemaNode.induction generalizing position plain extended plain' extended' with
  | step node ih =>
    obtain ⟨walked, hwalked, rfl⟩ := walk_eq_ok hplain
    obtain ⟨walked', hwalked', rfl⟩ := walk_eq_ok hextended
    have hopened := keeps_openNode h position.node position.typeName position.config
      (.under position.path) position.level
    refine keeps_closeNode ?_ _ _ _ _
    refine keeps_walkFields (fun child hchild plain extended plain' extended' hkeeps hwalk hwalk' ↦ ?_)
      hopened (List.Subset.refl _) hwalked hwalked'
    obtain ⟨⟨spec, hmem, hclassified, -⟩, hkind, -⟩ := hchild
    rw [ClassifiedField.kind_eq_object_iff hclassified] at hkind
    exact ih _ spec _ (hnode ▸ hmem) hkind hkeeps hwalk hwalk' rfl

/-- A type with a field that the initial document does not define stands in the graph beside it. -/
theorem exists_of_undefined {schema : ResourceSchema} {config : GenerationConfig}
    {existing : Entries (List String)} {graph graph' : TypeGraph} {node : TypeNode} {held : String}
    (h : TypeGraph.ofSchema scalars schema config [] = .ok graph)
    (h' : TypeGraph.ofSchema scalars schema config existing = .ok graph')
    (found : graph.typeAt? level name = some node) (holds : node.fields.has held = true)
    (undefined : held ∉ (existing.get? name).getD []) :
    ∃ next, graph'.typeAt? level name = some next := by
  obtain ⟨plain, hplain, htraced, -, rfl⟩ := ofSchema_traced h
  obtain ⟨extended, hextended, htraced', hexisting, rfl⟩ := ofSchema_traced h'
  obtain ⟨hnode, hfilled⟩ := htraced.typeAt?_finish.mp found
  have hkeeps := keeps_walk (GraphBuilder.Keeps.new schema.resource existing) hplain hextended
  obtain ⟨next, hnext, hkept⟩ := hkeeps.types level name node hnode
  refine ⟨next, htraced'.typeAt?_finish.mpr ⟨hnext, ?_⟩⟩
  refine (hkept.filled hfilled).resolve_right fun hall ↦ undefined ?_
  have hheld := hall.2 held holds
  rwa [GraphBuilder.definedBefore_iff, hexisting] at hheld

end Synthesis
end ResourceApi

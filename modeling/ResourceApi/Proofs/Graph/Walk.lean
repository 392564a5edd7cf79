import ResourceApi.Proofs.Graph.Step

/-!
# The walk over a model

A walk is a sequence of steps (`Position.walk_steps`).  In it every position below its start is met, and
every field that a position declares is written (`Position.Below.field_written`).
-/

namespace ResourceApi.Synthesis

variable {scalars : ScalarRegistry} {start position : Position} {builder next : GraphBuilder}
  {field : ClassifiedField} {options : FieldConfig}

/-! ## Steps over a list -/

section Fold

variable {α : Type} {f : GraphBuilder → α → GraphBuilder} {xs : List α}
  {motive : GraphBuilder → Prop}

/-- What is taken in steps from every builder that keeps a motive can be repeated. -/
theorem steps_foldl
    (keep : ∀ builder next, motive builder → Steps scalars start builder next → motive next)
    (h : ∀ x ∈ xs, ∀ builder, motive builder → Steps scalars start builder (f builder x))
    (holds : motive builder) : Steps scalars start builder (xs.foldl f builder) := by
  induction xs generalizing builder with
  | nil => exact .refl
  | cons x rest ih =>
    obtain ⟨hx, hrest⟩ := List.forall_mem_cons.mp h
    have hfirst := hx builder holds
    exact hfirst.trans (ih hrest (keep builder _ holds hfirst))

/-- Each element of the list has its turn. -/
theorem steps_foldl_turn
    (keep : ∀ builder next, motive builder → Steps scalars start builder next → motive next)
    (h : ∀ x ∈ xs, ∀ builder, motive builder → Steps scalars start builder (f builder x))
    (holds : motive builder) {x : α} (hx : x ∈ xs) :
    ∃ turn, Steps scalars start builder turn ∧
      Steps scalars start (f turn x) (xs.foldl f builder) := by
  induction xs generalizing builder with
  | nil => cases hx
  | cons y rest ih =>
    obtain ⟨hy, hrest⟩ := List.forall_mem_cons.mp h
    have hfirst := hy builder holds
    have hheld := keep builder _ holds hfirst
    rcases List.mem_cons.mp hx with rfl | hlater
    · exact ⟨builder, .refl, steps_foldl keep hrest hheld⟩
    · obtain ⟨turn, hturn, hafter⟩ := ih hrest hheld hlater
      exact ⟨turn, hfirst.trans hturn, hafter⟩

end Fold

/-! ## The types of a node -/

theorem Opens.steps {level : Nat} {name base : String} {kind : TypeKind}
    (h : Opens scalars start level name kind base) (builder : GraphBuilder) :
    Steps scalars start builder (builder.ensure level name kind base) :=
  .single (.ensure h)

theorem openObject_steps {segment : Segment} (below : position.Below scalars start)
    (visible : (Visibility.under position.path).object segment = true) (builder : GraphBuilder) :
    Steps scalars start builder
      (openObject position.node position.typeName position.level builder segment) := by
  have hopened := Opens.steps (.object below visible) builder
  unfold openObject
  by_cases hlevel : position.level = 0
  · rw [if_pos (beq_iff_eq.mpr hlevel)]
    refine Relation.ReflTransGen.tail (Relation.ReflTransGen.tail hopened (.label segment below)) ?_
    exact .addField (.objectIdentifier below visible hlevel)
  · rw [if_neg (by simpa using hlevel)]
    exact hopened.tail (.label segment below)

theorem openInput_steps {action : InputAction} (below : position.Below scalars start)
    (visible : (Visibility.under position.path).input action = true) (builder : GraphBuilder) :
    Steps scalars start builder (openInput position.typeName position.level builder action) := by
  have hopened := Opens.steps (.input below visible) builder
  unfold openInput
  by_cases hroot : position.level = 0 ∧ action = .update
  · obtain ⟨hlevel, rfl⟩ := hroot
    rw [if_pos (by simp [hlevel])]
    exact hopened.tail (.addField (.inputIdentifier below visible hlevel))
  · rw [if_neg (by simpa using hroot)]
    exact hopened

theorem openObjects_steps (below : position.Below scalars start) (builder : GraphBuilder) :
    Steps scalars start builder ((Visibility.under position.path).segments.foldl
      (openObject position.node position.typeName position.level) builder) :=
  steps_foldl (motive := fun _ ↦ True) (fun _ _ _ _ ↦ trivial)
    (fun _ hsegment builder _ ↦
      openObject_steps below (Visibility.mem_segments.mp hsegment) builder) trivial

theorem openInputs_steps (below : position.Below scalars start) (builder : GraphBuilder) :
    Steps scalars start builder ((Visibility.under position.path).inputs.foldl
      (openInput position.typeName position.level) builder) :=
  steps_foldl (motive := fun _ ↦ True) (fun _ _ _ _ ↦ trivial)
    (fun _ haction builder _ ↦
      openInput_steps below (Visibility.mem_inputs.mp haction) builder) trivial

theorem openObjects_turn {segment : Segment} (below : position.Below scalars start)
    (visible : (Visibility.under position.path).object segment = true) (builder : GraphBuilder) :
    ∃ turn, Steps scalars start builder turn ∧
      Steps scalars start (openObject position.node position.typeName position.level turn segment)
        ((Visibility.under position.path).segments.foldl
          (openObject position.node position.typeName position.level) builder) :=
  steps_foldl_turn (motive := fun _ ↦ True) (fun _ _ _ _ ↦ trivial)
    (fun _ hsegment builder _ ↦
      openObject_steps below (Visibility.mem_segments.mp hsegment) builder) trivial
    (Visibility.mem_segments.mpr visible)

theorem openInputs_turn {action : InputAction} (below : position.Below scalars start)
    (visible : (Visibility.under position.path).input action = true) (builder : GraphBuilder) :
    ∃ turn, Steps scalars start builder turn ∧
      Steps scalars start (openInput position.typeName position.level turn action)
        ((Visibility.under position.path).inputs.foldl
          (openInput position.typeName position.level) builder) :=
  steps_foldl_turn (motive := fun _ ↦ True) (fun _ _ _ _ ↦ trivial)
    (fun _ haction builder _ ↦
      openInput_steps below (Visibility.mem_inputs.mp haction) builder) trivial
    (Visibility.mem_inputs.mpr visible)

theorem openInterface_steps (below : position.Below scalars start) (builder : GraphBuilder) :
    Steps scalars start builder
      (if position.config.enabled .interface then
        builder.ensure position.level (interfaceTypeName position.typeName) .interface
          position.typeName
      else builder) := by
  split
  · rename_i henabled
    exact Opens.steps (.interface below henabled) builder
  · exact .refl

theorem openNode_steps (below : position.Below scalars start) (builder : GraphBuilder) :
    Steps scalars start builder (openNode position.node position.typeName position.config
      (.under position.path) position.level builder) := by
  have hobjects := openObjects_steps below builder
  have hinputs := hobjects.trans (openInputs_steps below _)
  exact hinputs.trans (openInterface_steps below _)

theorem closeNode_steps (below : position.Below scalars start) (builder : GraphBuilder) :
    Steps scalars start builder (closeNode position.typeName position.config
      (.under position.path) position.level builder) := by
  unfold closeNode
  dsimp only
  split
  · rename_i henabled
    rw [Bool.and_eq_true] at henabled
    have hopened := Opens.steps (.union below henabled.1) builder
    refine hopened.tail (.addMembers below (fun member hmember ↦ ?_) fun member hmember ↦ ?_)
    · exact hopened.grows.isAvailable (List.mem_filter.mp hmember).2
    · obtain ⟨segment, -, rfl⟩ := List.mem_map.mp (List.mem_filter.mp hmember).1
      exact TypeKind.names_object segment position.typeName
  · exact .refl

/-! ## The types that hold a field -/

theorem defineEnum_steps (below : position.Below scalars start)
    (declared : position.Declares scalars field options) (builder : GraphBuilder) :
    Steps scalars start builder
      (defineEnum position.typeName position.level field options builder) := by
  unfold defineEnum
  split
  · rename_i values hkind
    split
    · rename_i henabled
      have hopened := Opens.steps (.enumeration below declared hkind henabled) builder
      exact hopened.tail (.addValues below declared hkind)
    · exact .refl
  · exact .refl

theorem enumOpen_defineEnum (typeName : String) (level : Nat) (field : ClassifiedField)
    (options : FieldConfig) (builder : GraphBuilder) :
    EnumOpen level field options (defineEnum typeName level field options builder) := by
  intro values hkind henabled
  unfold defineEnum
  rw [hkind]
  dsimp only
  rw [if_pos henabled, GraphBuilder.get?_modify, if_pos ⟨rfl, rfl⟩, GraphBuilder.get?_ensure,
    if_pos ⟨rfl, rfl⟩]
  exact ⟨_, rfl, fun value hvalue ↦ mem_addMissing.mpr (.inr hvalue)⟩

theorem write_steps {level : Nat} {holder : String} {description : Option String}
    {found : Option FieldNode} (builder : GraphBuilder)
    (writes : ∀ node, found = some node →
      Writes scalars start builder level holder { node with description := description }) :
    Steps scalars start builder (write level holder description builder found) := by
  cases found with
  | none => exact .refl
  | some node => exact .single (.addField (writes node rfl))

theorem writeObjects_steps (below : position.Below scalars start)
    (declared : position.Declares scalars field options)
    (enumOpen : EnumOpen position.level field options builder) :
    Steps scalars start builder (writeObjects position.typeName position.level field options
      (.under (position.fieldPath options)) builder) := by
  refine steps_foldl (fun _ _ h hsteps ↦ h.of_steps hsteps) ?_ enumOpen
  intro segment hsegment builder henum
  exact write_steps builder fun node hnode ↦
    .object below declared (Visibility.mem_segments.mp hsegment) henum hnode

theorem writeInputs_steps (below : position.Below scalars start)
    (declared : position.Declares scalars field options)
    (enumOpen : EnumOpen position.level field options builder) :
    Steps scalars start builder (writeInputs position.typeName position.level field options
      (.under (position.fieldPath options)) builder) := by
  refine steps_foldl (fun _ _ h hsteps ↦ h.of_steps hsteps) ?_ enumOpen
  intro action haction builder henum
  exact write_steps builder fun node hnode ↦
    .input below declared (Visibility.mem_inputs.mp haction) henum hnode

theorem writeInterface_steps (below : position.Below scalars start)
    (declared : position.Declares scalars field options)
    (enumOpen : EnumOpen position.level field options builder) :
    Steps scalars start builder (writeInterface position.typeName position.level field options
      (.under (position.fieldPath options)) builder) := by
  unfold writeInterface
  split
  · exact .refl
  · rename_i first rest hsegments
    dsimp only
    split
    · rename_i henabled
      simp only [Bool.and_eq_true, decide_eq_true_iff] at henabled
      exact write_steps builder fun node hnode ↦
        .interface below declared henabled.1.1 hsegments henabled.1.2 enumOpen hnode
    · exact .refl

/-- Writing a field defines its enum, and then takes steps that find the enum there. -/
theorem writeField_steps_defineEnum (below : position.Below scalars start)
    (declared : position.Declares scalars field options) (builder : GraphBuilder) :
    Steps scalars start (defineEnum position.typeName position.level field options builder)
      (writeField position.typeName position.level field options
        (.under (position.fieldPath options)) builder) := by
  have hopen := enumOpen_defineEnum position.typeName position.level field options builder
  have hobjects := writeObjects_steps below declared hopen
  have hinputs := writeInputs_steps below declared (hopen.of_steps hobjects)
  have hinterface := writeInterface_steps below declared
    ((hopen.of_steps hobjects).of_steps hinputs)
  exact (hobjects.trans hinputs).trans hinterface

theorem writeField_steps (below : position.Below scalars start)
    (declared : position.Declares scalars field options) (builder : GraphBuilder) :
    Steps scalars start builder (writeField position.typeName position.level field options
      (.under (position.fieldPath options)) builder) :=
  (defineEnum_steps below declared builder).trans
    (writeField_steps_defineEnum below declared builder)

/-! ## The walk of one field -/

theorem walkNested_eq (target : String) (parent : GenerationConfig) (visible : Visibility)
    (level : Nat) (builder : GraphBuilder) (spec : FieldSpec) :
    walkNested scalars target parent visible level builder spec =
      match spec.nested? with
      | none => .ok builder
      | some child => GenerationConfig.resolve (child.generate.getD .null) parent >>= fun config ↦
        walkNode scalars target config visible (level + 1) builder child := by
  induction spec using FieldSpec.nested?.induct with
  | case1 inner ih => simpa only [walkNested, FieldSpec.nested?] using ih
  | case2 table =>
    obtain ⟨_, _, _, _, schema, _, _, _, _⟩ := table
    rcases schema with _ | ⟨generate, fields, fragments⟩ <;> rfl
  | case3 spec hlist htable =>
    cases spec with
    | attributes table => exact absurd rfl (htable table)
    | primitive name => rfl
    | list items =>
      rcases items with _ | ⟨inner, _ | ⟨second, rest⟩⟩
      · rfl
      · exact absurd rfl (hlist inner)
      · rfl

namespace Position

/-- The walk of a field that is declared at a position, up to the writing of the field: its nested node
is walked, if it has one. -/
def WalksNested (scalars : ScalarRegistry) (position : Position) (field : ClassifiedField)
    (options : FieldConfig) (builder next : GraphBuilder) : Prop :=
  (field.kind.isObject = false ∧ next = builder) ∨
    ∃ child config, field.kind = .object child ∧
      GenerationConfig.resolve (child.generate.getD .null) options.config = .ok config ∧
      (position.nested field options child config).walk scalars builder = .ok next

end Position

/-- What the walk of a field does before the field is written. -/
theorem walksNested_of_walkNested {spec : FieldSpec} {visible : Visibility}
    (hvisible : visible = .under (position.fieldPath options))
    (classified : ClassifiedField.classify position.typeName field.name scalars spec = .ok field)
    (h : walkNested scalars field.target options.config visible position.level builder spec =
      .ok next) : position.WalksNested scalars field options builder next := by
  rw [walkNested_eq] at h
  cases hnested : spec.nested? with
  | none =>
    rw [hnested] at h
    refine .inl ⟨?_, (Except.ok.inj h).symm⟩
    cases hkind : field.kind with
    | object child =>
      rw [ClassifiedField.kind_eq_object_iff classified, hnested] at hkind
      cases hkind
    | _ => rfl
  | some child =>
    rw [hnested] at h
    obtain ⟨config, hconfig, hwalk⟩ := Except.bind_eq_ok_iff.mp h
    have hkind := (ClassifiedField.kind_eq_object_iff classified child).mpr hnested
    rw [hvisible] at hwalk
    exact .inr ⟨child, config, hkind, hconfig, hwalk⟩

/-- The walk of a list of declarations, taken apart at the first. -/
theorem walkFields_cons {name : String} {spec : FieldSpec} {rest : List (String × FieldSpec)}
    (hmem : (name, spec) ∈ position.node.fields)
    (h : walkFields scalars position.typeName position.config (.under position.path) position.level
      builder ((name, spec) :: rest) = .ok next) :
    ∃ field options walked, field.name = name ∧
      ClassifiedField.classify position.typeName name scalars spec = .ok field ∧
      position.Declares scalars field options ∧
      position.WalksNested scalars field options builder walked ∧
      walkFields scalars position.typeName position.config (.under position.path) position.level
        (writeField position.typeName position.level field options
          (.under (position.fieldPath options)) walked) rest = .ok next := by
  rw [walkFields] at h
  obtain ⟨field, hfield, h⟩ := Except.bind_eq_ok_iff.mp h
  obtain ⟨options, hoptions, h⟩ := Except.bind_eq_ok_iff.mp h
  obtain ⟨walked, hwalked, h⟩ := Except.bind_eq_ok_iff.mp h
  have hname : field.name = name := ClassifiedField.name_of_classify hfield
  have hpath : (Visibility.under position.path).restrict options.config =
      .under (position.fieldPath options) := Visibility.restrict_under ..
  rw [hpath] at h
  have hclassified := hfield
  rw [← hname] at hclassified hmem
  exact ⟨field, options, walked, hname, hfield, ⟨spec, hmem, hclassified, hoptions⟩,
    walksNested_of_walkNested hpath hclassified hwalked, h⟩

/-- The walk of a node: its types, its fields, and its union. -/
theorem walk_eq_ok (h : position.walk scalars builder = .ok next) :
    ∃ walked, walkFields scalars position.typeName position.config (.under position.path)
        position.level (openNode position.node position.typeName position.config
          (.under position.path) position.level builder) position.node.fields = .ok walked ∧
      next = closeNode position.typeName position.config (.under position.path) position.level
        walked := by
  obtain ⟨level, typeName, ⟨generate, fields, fragments⟩, config, above⟩ := position
  unfold Position.walk at h
  rw [walkNode] at h
  obtain ⟨walked, hwalked, h⟩ := Except.bind_eq_ok_iff.mp h
  rw [Visibility.restrict_under] at hwalked h
  exact ⟨walked, hwalked, (Except.ok.inj h).symm⟩

/-! ## Walks are steps -/

theorem Position.WalksNested.steps (h : position.WalksNested scalars field options builder next)
    (walks : ∀ child, position.Child scalars child → ∀ builder next,
      child.walk scalars builder = .ok next → Steps scalars start builder next)
    (declared : position.Declares scalars field options) : Steps scalars start builder next := by
  rcases h with ⟨-, rfl⟩ | ⟨child, config, hkind, hconfig, hwalk⟩
  · exact .refl
  · exact walks _ (.intro declared hkind hconfig) builder next hwalk

theorem walkFields_steps (below : position.Below scalars start)
    (walks : ∀ child, position.Child scalars child → ∀ builder next,
      child.walk scalars builder = .ok next → Steps scalars start builder next)
    {fields : List (String × FieldSpec)} (hfields : fields ⊆ position.node.fields)
    (h : walkFields scalars position.typeName position.config (.under position.path) position.level
      builder fields = .ok next) : Steps scalars start builder next := by
  induction fields generalizing builder with
  | nil =>
    cases h
    exact .refl
  | cons entry rest ih =>
    obtain ⟨name, spec⟩ := entry
    obtain ⟨hmem, hrest⟩ := List.cons_subset.mp hfields
    obtain ⟨field, options, walked, -, -, declared, hnested, h⟩ := walkFields_cons hmem h
    have hwalked := hnested.steps walks declared
    exact (hwalked.trans (writeField_steps below declared walked)).trans (ih hrest h)

/-- A walk is a sequence of steps. -/
theorem Position.walk_steps (below : position.Below scalars start)
    (h : position.walk scalars builder = .ok next) : Steps scalars start builder next := by
  obtain ⟨node, hnode⟩ : ∃ node, position.node = node := ⟨_, rfl⟩
  induction node using SchemaNode.induction generalizing position builder next with
  | step node ih =>
    obtain ⟨walked, hwalked, rfl⟩ := walk_eq_ok h
    have hopen := openNode_steps below builder
    have hfields : Steps scalars start (openNode position.node position.typeName position.config
        (.under position.path) position.level builder) walked := by
      refine walkFields_steps below (fun child hchild builder next hwalk ↦ ?_)
        (List.Subset.refl _) hwalked
      have hbelow : child.Below scalars start := Relation.ReflTransGen.tail below hchild
      obtain ⟨⟨spec, hmem, hclassified, -⟩, hkind, -⟩ := hchild
      rw [ClassifiedField.kind_eq_object_iff hclassified] at hkind
      exact ih _ spec _ (hnode ▸ hmem) hkind hbelow hwalk rfl
    exact (hopen.trans hfields).trans (closeNode_steps below walked)

/-! ## Every position is met -/

theorem Position.Declares.options_unique {options' : FieldConfig}
    (h : position.Declares scalars field options) (h' : position.Declares scalars field options') :
    options = options' := by
  obtain ⟨_, -, -, hoptions⟩ := h
  obtain ⟨_, -, -, hoptions'⟩ := h'
  exact Except.ok.inj (hoptions.symm.trans hoptions')

/-- In the walk of the fields of a node each declared field has its turn. -/
theorem walkFields_turn (below : position.Below scalars start) {spec : FieldSpec}
    (classified : ClassifiedField.classify position.typeName field.name scalars spec = .ok field)
    (declared : position.Declares scalars field options) {fields : List (String × FieldSpec)}
    (hfields : fields ⊆ position.node.fields) (hmem : (field.name, spec) ∈ fields)
    (h : walkFields scalars position.typeName position.config (.under position.path) position.level
      builder fields = .ok next) :
    ∃ before walked, Steps scalars start builder before ∧
      position.WalksNested scalars field options before walked ∧
      Steps scalars start (writeField position.typeName position.level field options
        (.under (position.fieldPath options)) walked) next := by
  have walks : ∀ child, position.Child scalars child → ∀ builder next,
      child.walk scalars builder = .ok next → Steps scalars start builder next :=
    fun child hchild builder next hwalk ↦
      Position.walk_steps (Relation.ReflTransGen.tail below hchild) hwalk
  induction fields generalizing builder with
  | nil => cases hmem
  | cons entry rest ih =>
    obtain ⟨name, first⟩ := entry
    obtain ⟨hfirst, hrest⟩ := List.cons_subset.mp hfields
    obtain ⟨field', options', walked, -, hclassify, declared', hnested, hafter⟩ :=
      walkFields_cons hfirst h
    rcases List.mem_cons.mp hmem with heq | hlater
    · obtain ⟨rfl, rfl⟩ := Prod.mk.inj heq
      obtain rfl : field' = field := Except.ok.inj (hclassify.symm.trans classified)
      obtain rfl : options' = options := declared'.options_unique declared
      exact ⟨builder, walked, .refl, hnested, walkFields_steps below walks hrest hafter⟩
    · obtain ⟨before, walked', hbefore, hturn, hend⟩ := ih hrest hlater hafter
      have hhead := (hnested.steps walks declared').trans (writeField_steps below declared' walked)
      exact ⟨before, walked', hhead.trans hbefore, hturn, hend⟩

/-- The walk of a node gives each declared field its turn, after the types of the node are opened. -/
theorem Position.walk_turn (below : position.Below scalars start)
    (declared : position.Declares scalars field options)
    (h : position.walk scalars builder = .ok next) :
    ∃ before walked,
      Steps scalars start (openNode position.node position.typeName position.config
        (.under position.path) position.level builder) before ∧
      position.WalksNested scalars field options before walked ∧
      Steps scalars start (writeField position.typeName position.level field options
        (.under (position.fieldPath options)) walked) next := by
  obtain ⟨walked, hwalked, rfl⟩ := walk_eq_ok h
  obtain ⟨spec, hmem, hclassify, -⟩ := id declared
  obtain ⟨before, nested, hbefore, hnested, hafter⟩ :=
    walkFields_turn below hclassify declared (List.Subset.refl _) hmem hwalked
  exact ⟨before, nested, hbefore, hnested, hafter.trans (closeNode_steps below walked)⟩

/-- Every position below the start of a walk is walked in it. -/
theorem Position.Below.walked (below : position.Below scalars start)
    (h : start.walk scalars builder = .ok next) :
    ∃ before after, Steps scalars start builder before ∧
      position.walk scalars before = .ok after ∧ Steps scalars start after next := by
  induction below with
  | refl => exact ⟨builder, next, .refl, h, .refl⟩
  | @tail parent child hparent hchild ih =>
    obtain ⟨before, after, hbefore, hwalk, hafter⟩ := ih
    obtain ⟨declared, hkind, hconfig⟩ := hchild
    obtain ⟨turn, walked, hturn, hnested, hrest⟩ := Position.walk_turn hparent declared hwalk
    rcases hnested with ⟨hobject, -⟩ | ⟨child', config', hkind', hconfig', hwalk'⟩
    · rw [hkind] at hobject
      cases hobject
    · obtain rfl := FieldKind.object.inj (hkind.symm.trans hkind')
      obtain rfl := Except.ok.inj (hconfig.symm.trans hconfig')
      have hopen := openNode_steps hparent before
      have hwritten := writeField_steps hparent declared walked
      exact ⟨turn, walked, (hbefore.trans hopen).trans hturn, hwalk',
        (hwritten.trans hrest).trans hafter⟩

/-- Every declared field is written in the walk, at a moment when the types of its node are open. -/
theorem Position.Below.field_written (below : position.Below scalars start)
    (declared : position.Declares scalars field options)
    (h : start.walk scalars builder = .ok next) :
    ∃ before walked, Steps scalars start builder before ∧
      Steps scalars start (openNode position.node position.typeName position.config
        (.under position.path) position.level before) walked ∧
      Steps scalars start (writeField position.typeName position.level field options
        (.under (position.fieldPath options)) walked) next := by
  obtain ⟨before, after, hbefore, hwalk, hafter⟩ := below.walked h
  obtain ⟨turn, walked, hturn, hnested, hrest⟩ := Position.walk_turn below declared hwalk
  have hwalked := hnested.steps (fun child hchild builder next hchildWalk ↦
    Position.walk_steps (Relation.ReflTransGen.tail below hchild) hchildWalk) declared
  exact ⟨before, walked, hbefore, hturn.trans hwalked, hrest.trans hafter⟩

end ResourceApi.Synthesis

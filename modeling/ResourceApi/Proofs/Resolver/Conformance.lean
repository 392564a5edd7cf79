import ResourceApi.Proofs.Json.Equality
import ResourceApi.Proofs.Resolver.InputWalk
import ResourceApi.Proofs.Resolver.Reports

/-!
# Conformance of items to their input type

A mutation checks its items by paths: the input type of its action is flattened into the paths of its
scalars, and every path is then followed into every item.  Here an item is walked along the input type
itself.  At each field the walk takes the value of that name, looks through the lists around it, and goes
on at the input that the field is of; nothing is asked of a value that is missing.  If no input leads to
itself, the paths come to the very same values as the walk, so the checks pass exactly if every value at a
registered scalar is null or satisfies the rule of the scalar.
-/

namespace ResourceApi

open Relation (TransGen)

/-! ## Values at a path -/

/-- The second value is the first, or is found in it by looking through lists; it is no list itself. -/
inductive Json.Unwraps : Json → Json → Prop
  | self {value : Json} (single : value.isArray = false) : Unwraps value value
  | item {items : List Json} {value held : Json} (mem : value ∈ items) (inside : Unwraps value held) :
      Unwraps (.arr items) held

theorem Json.unwraps_arr {items : List Json} {held : Json} :
    (Json.arr items).Unwraps held ↔ ∃ value ∈ items, value.Unwraps held := by
  constructor
  · rintro (⟨⟨⟩⟩ | ⟨mem, inside⟩)
    exact ⟨_, mem, inside⟩
  · rintro ⟨value, mem, inside⟩
    exact .item mem inside

theorem Json.unwraps_single {value held : Json} (single : value.isArray = false) :
    value.Unwraps held ↔ held = value := by
  constructor
  · rintro (_ | _)
    · rfl
    · cases single
  · rintro rfl
    exact .self single

namespace ScalarCheck

variable {path rest : List String} {segment : String} {value held : Json}

theorem mem_valuesAt_arr {items : List Json} :
    held ∈ valuesAt path (.arr items) ↔ ∃ value ∈ items, held ∈ valuesAt path value := by
  rw [valuesAt]
  induction items with
  | nil => simp [valuesAtItems]
  | cons first rest ih => simp [valuesAtItems, ih]

theorem valuesAt_single (single : value.isArray = false) : valuesAt [] value = [value] := by
  cases value with
  | arr items => cases single
  | _ => rfl

theorem mem_valuesAt_obj {members : List (String × Json)} :
    held ∈ valuesAt (segment :: rest) (.obj members) ↔
      ∃ next, Entries.get? members segment = some next ∧ held ∈ valuesAt rest next := by
  rw [valuesAt]
  induction members with
  | nil => simp [valuesAtMember]
  | cons member members ih =>
    obtain ⟨name, value⟩ := member
    rw [valuesAtMember, Entries.get?_cons]
    split <;> simp [ih]

theorem valuesAt_leaf (single : value.isArray = false) (plain : value.isObject = false) :
    valuesAt (segment :: rest) value = [] := by
  cases value with
  | arr items => cases single
  | obj members => cases plain
  | _ => rfl

/-- At the end of a path stand the values that are left when the lists have been looked through. -/
theorem mem_valuesAt_nil : held ∈ valuesAt [] value ↔ value.Unwraps held := by
  induction value using Json.induction with
  | leaf value single plain =>
    rw [valuesAt_single single, List.mem_singleton, Json.unwraps_single single]
  | arr items ih =>
    rw [mem_valuesAt_arr, Json.unwraps_arr]
    exact exists_congr fun value ↦ and_congr_right (ih value)
  | obj members ih =>
    rw [valuesAt_single rfl, List.mem_singleton, Json.unwraps_single rfl]

/-- A path goes on at the members of objects, inside the lists that are looked through. -/
theorem mem_valuesAt_cons : held ∈ valuesAt (segment :: rest) value ↔
    ∃ members next, value.Unwraps (.obj members) ∧ Entries.get? members segment = some next ∧
      held ∈ valuesAt rest next := by
  induction value using Json.induction with
  | leaf value single plain =>
    rw [valuesAt_leaf single plain]
    constructor
    · intro hmem
      cases hmem
    · rintro ⟨members, next, hunwraps, -⟩
      rw [← (Json.unwraps_single single).mp hunwraps] at plain
      cases plain
  | arr items ih =>
    rw [mem_valuesAt_arr]
    constructor
    · rintro ⟨value, hmem, hheld⟩
      obtain ⟨members, next, hunwraps, hnext⟩ := (ih value hmem).mp hheld
      exact ⟨members, next, .item hmem hunwraps, hnext⟩
    · rintro ⟨members, next, hunwraps, hnext⟩
      obtain ⟨value, hmem, hinside⟩ := Json.unwraps_arr.mp hunwraps
      exact ⟨value, hmem, (ih value hmem).mpr ⟨members, next, hinside, hnext⟩⟩
  | obj members ih =>
    rw [mem_valuesAt_obj]
    constructor
    · rintro ⟨next, hnext⟩
      exact ⟨members, next, .self rfl, hnext⟩
    · rintro ⟨found, next, hunwraps, hnext⟩
      cases (Json.unwraps_single rfl).mp hunwraps
      exact ⟨next, hnext⟩

end ScalarCheck

/-! ## The walk along an input type -/

namespace TypeGraph

/-- Walked along the input type of a name, a value has another one at a field.  Lists are looked through
at every step; a name stands for the type that the graph finds for it. -/
inductive Carries (graph : TypeGraph) : String → Json → FieldNode → Json → Prop
  | field {input : String} {node : TypeNode} {field : FieldNode} {value next held : Json}
      {members : List (String × Json)} (found : (graph.get? input).filter TypeNode.isInput = some node)
      (mem : field ∈ node.fields.values) (object : value.Unwraps (.obj members))
      (present : Entries.get? members field.name = some next) (unwraps : next.Unwraps held) :
      Carries graph input value field held
  | nested {input : String} {node : TypeNode} {outer field : FieldNode} {value next held : Json}
      {members : List (String × Json)} (found : (graph.get? input).filter TypeNode.isInput = some node)
      (mem : outer ∈ node.fields.values) (kind : outer.kind = .object)
      (object : value.Unwraps (.obj members))
      (present : Entries.get? members outer.name = some next)
      (below : Carries graph outer.typeName next field held) : Carries graph input value field held

/-- Every value that the walk comes to at a field of a registered scalar, one that is not built in, is
null or satisfies the rule of the scalar. -/
def Conforms (graph : TypeGraph) (scalars : ScalarRegistry) (input : String) (item : Json) : Prop :=
  ∀ field held, graph.Carries input item field held → field.kind = .scalar →
    Scalar.isBuiltin field.typeName = false →
      ∀ rule, scalars.rule? field.typeName = some rule → held = .null ∨ rule held = true

end TypeGraph

namespace ResourceResolvers

variable {scalars : ScalarRegistry} {graph : TypeGraph} {input : String} {path : List String}
  {checks nested : List ScalarCheck} {check : ScalarCheck} {field : FieldNode}

/-- The field is of a registered scalar that is not built in. -/
def IsChecked (scalars : ScalarRegistry) (field : FieldNode) : Prop :=
  field.kind = .scalar ∧ Scalar.isBuiltin field.typeName = false ∧ scalars.has field.typeName = true

theorem mem_fieldChecks : check ∈ fieldChecks scalars path nested field ↔
    IsChecked scalars field ∧ check = ⟨path, field.typeName⟩ ∨
      field.kind = .object ∧ check ∈ nested := by
  unfold fieldChecks IsChecked
  cases field.kind <;> simp [and_assoc]

/-- The walk goes on below the path it has come along. -/
theorem Collects.exists_rest (h : Collects scalars graph input path checks) (mem : check ∈ checks) :
    ∃ rest, check.path = path ++ rest := by
  induction h with
  | absent missing => cases mem
  | input found walks ih =>
    obtain ⟨field, hfield, hcheck⟩ := List.mem_flatMap.mp mem
    rcases mem_fieldChecks.mp hcheck with ⟨-, rfl⟩ | ⟨hkind, hnested⟩
    · exact ⟨_, rfl⟩
    · obtain ⟨rest, hrest⟩ := ih field hfield hkind hnested
      exact ⟨_, hrest.trans (List.append_assoc ..)⟩

/-- The collected checks and the walk along the input type come to the same values. -/
theorem Collects.mem_valuesAt_iff (h : Collects scalars graph input path checks) {scalar : String}
    {value held : Json} :
    (∃ rest, ⟨path ++ rest, scalar⟩ ∈ checks ∧ held ∈ ScalarCheck.valuesAt rest value) ↔
      ∃ field, graph.Carries input value field held ∧ IsChecked scalars field ∧
        field.typeName = scalar := by
  induction h generalizing value with
  | absent missing =>
    constructor
    · rintro ⟨rest, ⟨⟩, -⟩
    · rintro ⟨field, ⟨found, -⟩ | ⟨found, -⟩, -⟩ <;> cases missing.symm.trans found
  | @input input path node nested found walks ih =>
    constructor
    · rintro ⟨rest, hcheck, hheld⟩
      obtain ⟨field, hfield, hcheck⟩ := List.mem_flatMap.mp hcheck
      rcases mem_fieldChecks.mp hcheck with ⟨hchecked, heq⟩ | ⟨hkind, hnested⟩
      · obtain ⟨hpath, rfl⟩ := ScalarCheck.mk.inj heq
        obtain rfl := List.append_cancel_left hpath
        obtain ⟨members, next, hobject, hpresent, hend⟩ := ScalarCheck.mem_valuesAt_cons.mp hheld
        have hunwraps := ScalarCheck.mem_valuesAt_nil.mp hend
        exact ⟨field, .field found hfield hobject hpresent hunwraps, hchecked, rfl⟩
      · obtain ⟨later, hlater⟩ := (walks field hfield hkind).exists_rest hnested
        obtain rfl : rest = field.name :: later :=
          List.append_cancel_left (hlater.trans (List.append_assoc ..))
        obtain ⟨members, next, hobject, hpresent, hnext⟩ := ScalarCheck.mem_valuesAt_cons.mp hheld
        rw [List.append_cons] at hnested
        obtain ⟨inner, hinner, hchecked, hscalar⟩ :=
          (ih field hfield hkind).mp ⟨later, hnested, hnext⟩
        exact ⟨inner, .nested found hfield hkind hobject hpresent hinner, hchecked, hscalar⟩
    · rintro ⟨field, hcarries, hchecked, rfl⟩
      cases hcarries with
      | field found' mem object present unwraps =>
        obtain rfl := Option.some.inj (found.symm.trans found')
        refine ⟨[field.name], List.mem_flatMap.mpr ⟨field, mem, ?_⟩, ?_⟩
        · exact mem_fieldChecks.mpr (.inl ⟨hchecked, rfl⟩)
        · exact ScalarCheck.mem_valuesAt_cons.mpr
            ⟨_, _, object, present, ScalarCheck.mem_valuesAt_nil.mpr unwraps⟩
      | @nested _ _ outer _ _ _ _ _ found' mem kind object present below =>
        obtain rfl := Option.some.inj (found.symm.trans found')
        obtain ⟨later, hcheck, hheld⟩ := (ih outer mem kind).mpr ⟨field, below, hchecked, rfl⟩
        rw [← List.append_cons] at hcheck
        refine ⟨outer.name :: later, List.mem_flatMap.mpr ⟨outer, mem, ?_⟩, ?_⟩
        · exact mem_fieldChecks.mpr (.inr ⟨kind, hcheck⟩)
        · exact ScalarCheck.mem_valuesAt_cons.mpr ⟨_, _, object, present, hheld⟩

end ResourceResolvers

/-! ## Validation -/

theorem ScalarRegistry.accepts_iff {scalars : ScalarRegistry} {name : String} {value : Json} :
    scalars.accepts name value = true ↔
      ∀ rule, scalars.rule? name = some rule → value = .null ∨ rule value = true := by
  have hnull : value.isNull = true ↔ value = .null := by
    cases value <;> simp [Json.isNull]
  unfold accepts
  cases scalars.rule? name <;> simp [hnull]

namespace MutationResolver

variable {resolver : MutationResolver} {item : Json}

theorem failingCheck?_eq_none_iff : resolver.failingCheck? item = none ↔
    ∀ check ∈ resolver.checks, ∀ value ∈ ScalarCheck.valuesAt check.path item,
      resolver.scalars.accepts check.scalar value = true := by
  unfold failingCheck? ScalarCheck.fails
  simp

/-- An item passes the checks of an action exactly if it conforms to the input type of the action. -/
theorem failingCheck?_iff_conforms {graph : TypeGraph} {action : InputAction}
    (acyclic : ∀ input, ¬TransGen graph.LeadsTo input input)
    (checks : resolver.checks = ResourceResolvers.scalarChecks resolver.scalars graph action) :
    resolver.failingCheck? item = none ↔
      graph.Conforms resolver.scalars (inputTypeName action graph.resource) item := by
  have hwalk := (ResourceResolvers.collects_of_acyclic acyclic resolver.scalars action)
  rw [← checks] at hwalk
  rw [failingCheck?_eq_none_iff]
  constructor
  · intro hpasses field held hcarries hkind hbuiltin rule hrule
    have hhas : resolver.scalars.has field.typeName = true := Option.isSome_of_eq_some hrule
    obtain ⟨path, hcheck, hheld⟩ :=
      hwalk.mem_valuesAt_iff.mpr ⟨field, hcarries, ⟨hkind, hbuiltin, hhas⟩, rfl⟩
    exact ScalarRegistry.accepts_iff.mp (hpasses _ hcheck held hheld) rule hrule
  · rintro hconforms ⟨path, scalar⟩ hcheck held hheld
    obtain ⟨field, hcarries, ⟨hkind, hbuiltin, -⟩, rfl⟩ :=
      hwalk.mem_valuesAt_iff.mp ⟨path, hcheck, hheld⟩
    exact ScalarRegistry.accepts_iff.mpr (hconforms field held hcarries hkind hbuiltin)

/-- Where no input leads to itself, a mutation with the checks of an action accepts its items exactly if
every one of them conforms to the input type of the action: no value at a registered scalar, however
deep in nested inputs and lists, is skipped, and nothing else is asked. -/
theorem validate_iff_conforms (graph : TypeGraph)
    (acyclic : ∀ input, ¬TransGen graph.LeadsTo input input) (action : InputAction)
    (resolver : MutationResolver)
    (checks : resolver.checks = ResourceResolvers.scalarChecks resolver.scalars graph action)
    (items : List Json) :
    resolver.validate items = .ok () ↔
      ∀ item ∈ items, graph.Conforms resolver.scalars (inputTypeName action graph.resource) item := by
  unfold validate
  rw [validateFrom_eq_ok_iff]
  exact forall₂_congr fun item _ ↦ failingCheck?_iff_conforms acyclic checks

/-- Users have addresses with mails.  An address inside two lists that is no mail is found, so the item is
refused; mails and nulls in lists pass. -/
theorem validate_iff_conforms_nested :
    let mail : FieldNode := .leaf "mail" .scalar "Email" [true]
    let addresses : FieldNode := .leaf "addresses" .object "CreateUserAddressInput" [true, true]
    let address : TypeNode :=
      { TypeNode.new "CreateUserAddressInput" (.input .create) "UserAddress" false with
        fields := [("mail", mail)] }
    let user : TypeNode := { TypeNode.new "CreateUserInput" (.input .create) "User" false with
      fields := [("addresses", addresses)] }
    let graph : TypeGraph :=
      ⟨"User", [[("CreateUserInput", user)], [("CreateUserAddressInput", address)]]⟩
    let scalars : ScalarRegistry := ⟨[("Email", .onText fun text ↦ text.toList.contains '@')]⟩
    let resolver := ResourceResolvers.mutationResolver scalars graph ⟨"User", []⟩ .create .multi
    let good : Json := .obj [("mail", .arr [.str "ann@home", .null])]
    let bad : Json := .obj [("mail", .str "nobody")]
    (∀ input, ¬TransGen graph.LeadsTo input input) ∧
    resolver.checks = ResourceResolvers.scalarChecks scalars graph .create ∧
    graph.Conforms scalars "CreateUserInput" (.obj [("addresses", .arr [.arr [good], .null])]) ∧
    graph.Carries "CreateUserInput" (.obj [("addresses", .arr [good, .arr [bad]])]) mail
      (.str "nobody") ∧
    resolver.validate [.obj [("addresses", .arr [good, .arr [bad]])]] ≠ .ok () := by
  intro mail addresses address user graph scalars resolver good bad
  have hlengthen : graph.InputsLengthen := TypeGraph.inputsLengthen_of_types (by decide)
  have acyclic := hlengthen.acyclic
  have hconforms := validate_iff_conforms graph acyclic .create resolver rfl
  have hcarries : graph.Carries "CreateUserInput" (.obj [("addresses", .arr [good, .arr [bad]])]) mail
      (.str "nobody") := by
    have huser : (graph.get? "CreateUserInput").filter TypeNode.isInput = some user := rfl
    have haddress : (graph.get? "CreateUserAddressInput").filter TypeNode.isInput = some address := rfl
    have hbad : (Json.arr [good, .arr [bad]]).Unwraps bad :=
      .item (List.mem_cons_of_mem _ List.mem_cons_self) (.item List.mem_cons_self (.self rfl))
    exact .nested huser List.mem_cons_self rfl (.self rfl) rfl
      (.field haddress List.mem_cons_self hbad rfl (.self rfl))
  refine ⟨acyclic, rfl, ?_, hcarries, fun hvalid ↦ ?_⟩
  · exact (hconforms [_]).mp rfl _ List.mem_cons_self
  · have hholds := (hconforms _).mp hvalid _ List.mem_cons_self mail _ hcarries rfl rfl _ rfl
    rcases hholds with hnull | hmail
    · cases hnull
    · exact absurd hmail (by decide)

end MutationResolver
end ResourceApi

import Mathlib.Data.List.Infix
import ResourceApi.Proofs.Graph.Builder

/-!
# Calls of a builder

A builder is filled by two calls: one makes sure that a type is there and appends members and values to
it, the other offers a field to a type.  Whatever is called in whatever order, what a builder has stays
as it is and in its place, and new parts are put behind it (`begins_run`).  So the first writer of a type
or of a field wins, what can be pointed at stays so, and it stands in the finished graph, which leaves
out the empty types and nothing else.
-/

namespace ResourceApi

/-! ## Types that others begin -/

namespace TypeNode

/-- The type with members and values appended. -/
def append (node : TypeNode) (members values : List String) : TypeNode :=
  { node with members := node.members ++ members, values := node.values ++ values }

/-- The type after a field is offered to it: one that it has, or that is defined before, is not taken. -/
def offer (node : TypeNode) (defined : Bool) (field : FieldNode) : TypeNode :=
  if defined || node.fields.has field.name then node
  else { node with fields := node.fields ++ [(field.name, field)] }

/-- The second type is the first one with more at the ends of its lists. -/
structure Begins (node next : TypeNode) : Prop where
  name : next.name = node.name
  kind : next.kind = node.kind
  base : next.base = node.base
  segment : next.segment = node.segment
  fragments : next.fragments = node.fragments
  extending : next.extending = node.extending
  fields : node.fields <+: next.fields
  members : node.members <+: next.members
  values : node.values <+: next.values

namespace Begins

variable {first second third : TypeNode}

theorem refl (node : TypeNode) : node.Begins node :=
  ⟨rfl, rfl, rfl, rfl, rfl, rfl, List.prefix_rfl, List.prefix_rfl, List.prefix_rfl⟩

theorem trans (h : first.Begins second) (h' : second.Begins third) : first.Begins third where
  name := h'.name.trans h.name
  kind := h'.kind.trans h.kind
  base := h'.base.trans h.base
  segment := h'.segment.trans h.segment
  fragments := h'.fragments.trans h.fragments
  extending := h'.extending.trans h.extending
  fields := h.fields.trans h'.fields
  members := h.members.trans h'.members
  values := h.values.trans h'.values

/-- A field that is there stays the one of its name. -/
theorem get?_fields (h : first.Begins second) {name : String} {field : FieldNode}
    (found : first.fields.get? name = some field) : second.fields.get? name = some field := by
  obtain ⟨more, hmore⟩ := h.fields
  rw [← hmore, Entries.get?_append, found, Option.some_or]

theorem grows (h : first.Begins second) : first.Grows second :=
  ⟨h.name, h.kind, h.base, h.extending, fun _ _ ↦ h.get?_fields, h.members.subset, h.values.subset⟩

end Begins

theorem begins_append (node : TypeNode) (members values : List String) :
    node.Begins (node.append members values) :=
  { Begins.refl node with
    members := List.prefix_append ..
    values := List.prefix_append .. }

theorem begins_offer (node : TypeNode) (defined : Bool) (field : FieldNode) :
    node.Begins (node.offer defined field) := by
  unfold offer
  split
  · exact .refl node
  · exact { Begins.refl node with fields := List.prefix_append .. }

end TypeNode

namespace GraphBuilder

variable {builder next : GraphBuilder} {level : Nat} {name : String} {node : TypeNode}
  {calls : List Call}

/-! ## Calls -/

/-- A call: make sure that a type is there and append members and values to it, or add a field. -/
inductive Call where
  | ensure (level : Nat) (name : String) (kind : TypeKind) (base : String)
      (members values : List String)
  | addField (level : Nat) (name : String) (field : FieldNode)

namespace Call

/-- Where the type stands that the call is about. -/
def site : Call → Nat × String
  | ensure level name _ _ _ _ => (level, name)
  | addField level name _ => (level, name)

/-- What the call makes of the type at its site, or of there being none. -/
def effect (builder : GraphBuilder) : Call → Option TypeNode → Option TypeNode
  | ensure _ name kind base members values, held =>
    some ((held.getD (builder.fresh name kind base)).append members values)
  | addField _ name field, held =>
    held.map fun node ↦ node.offer (builder.definedBefore name field.name) field

end Call

def apply (builder : GraphBuilder) : Call → GraphBuilder
  | .ensure level name kind base members values =>
    (builder.ensure level name kind base).modify level name (·.append members values)
  | .addField level name field => builder.addField level name field

/-- The builder after calls, one after another. -/
def run (builder : GraphBuilder) (calls : List Call) : GraphBuilder := calls.foldl apply builder

theorem get?_addField (builder : GraphBuilder) (level other : Nat) (name key : String)
    (field : FieldNode) : (builder.addField level name field).get? other key =
      if other = level ∧ key = name then (builder.get? level name).map fun node ↦
        node.offer (builder.definedBefore name field.name) field
      else builder.get? other key := by
  by_cases hsite : other = level ∧ key = name
  · obtain ⟨rfl, rfl⟩ := hsite
    rw [if_pos ⟨rfl, rfl⟩]
    unfold addField canAdd
    cases hfound : builder.get? other key with
    | none => simp [hfound]
    | some node =>
      cases hdefined : builder.definedBefore key field.name <;>
        cases hhas : node.fields.has field.name <;>
        simp [get?_modify, hfound, hhas, TypeNode.offer]
  · rw [if_neg hsite]
    unfold addField
    split
    · rw [get?_modify, if_neg hsite]
    · rfl

/-- A call changes the type at its site and no other. -/
theorem get?_apply (builder : GraphBuilder) (call : Call) (level : Nat) (name : String) :
    (builder.apply call).get? level name =
      if (level, name) = call.site then call.effect builder (builder.get? level name)
      else builder.get? level name := by
  cases call with
  | ensure site key kind base members values =>
    simp only [apply, Call.site, Call.effect, Prod.mk.injEq]
    rw [get?_modify]
    by_cases hsite : level = site ∧ name = key
    · obtain ⟨rfl, rfl⟩ := hsite
      simp [get?_ensure]
    · rw [if_neg hsite, if_neg hsite, get?_ensure, if_neg hsite]
  | addField site key field =>
    simp only [apply, Call.site, Call.effect, Prod.mk.injEq]
    rw [get?_addField]
    by_cases hsite : level = site ∧ name = key
    · obtain ⟨rfl, rfl⟩ := hsite
      rfl
    · rw [if_neg hsite, if_neg hsite]

@[simp]
theorem existing_apply (builder : GraphBuilder) (call : Call) :
    (builder.apply call).existing = builder.existing := by
  cases call with
  | ensure => rfl
  | addField level name field =>
    unfold apply addField
    dsimp only
    split <;> rfl

/-! ## Builders that others begin -/

/-- The second builder has the types of the first one in their places, each with what it had. -/
structure Begins (builder next : GraphBuilder) : Prop where
  existing : next.existing = builder.existing
  order : ∀ level, (builder.levelAt level).keys <+: (next.levelAt level).keys
  types : ∀ level name node, builder.get? level name = some node →
    ∃ later, next.get? level name = some later ∧ node.Begins later

namespace Begins

theorem refl (builder : GraphBuilder) : builder.Begins builder :=
  ⟨rfl, fun _ ↦ List.prefix_rfl, fun _ _ node h ↦ ⟨node, h, .refl node⟩⟩

theorem trans {first second third : GraphBuilder} (h : first.Begins second)
    (h' : second.Begins third) : first.Begins third := by
  refine ⟨h'.existing.trans h.existing, fun level ↦ (h.order level).trans (h'.order level), ?_⟩
  intro level name node hnode
  obtain ⟨later, hlater, hbegins⟩ := h.types level name node hnode
  obtain ⟨last, hlast, hbegins'⟩ := h'.types level name later hlater
  exact ⟨last, hlast, hbegins.trans hbegins'⟩

theorem grows (h : builder.Begins next) : builder.Grows next := by
  refine ⟨h.existing, fun level name node hnode ↦ ?_⟩
  obtain ⟨later, hlater, hbegins⟩ := h.types level name node hnode
  exact ⟨later, hlater, hbegins.grows⟩

end Begins

theorem order_modify (builder : GraphBuilder) (level other : Nat) (name : String)
    (f : TypeNode → TypeNode) :
    ((builder.modify level name f).levelAt other).keys = (builder.levelAt other).keys := by
  rw [modify, levelAt_updateLevel]
  by_cases hlevel : other = level
  · rw [if_pos hlevel, Entries.keys_adjust, hlevel]
  · rw [if_neg hlevel]

theorem order_ensure (builder : GraphBuilder) (level other : Nat) (name : String) (kind : TypeKind)
    (base : String) : (builder.levelAt other).keys <+:
      ((builder.ensure level name kind base).levelAt other).keys := by
  rw [ensure, levelAt_updateLevel]
  by_cases hlevel : other = level
  · rw [if_pos hlevel, hlevel]
    split
    · exact List.prefix_rfl
    · rw [Entries.keys_append]
      exact List.prefix_append ..
  · rw [if_neg hlevel]

theorem order_apply (builder : GraphBuilder) (call : Call) (level : Nat) :
    (builder.levelAt level).keys <+: ((builder.apply call).levelAt level).keys := by
  cases call with
  | ensure site key kind base members values =>
    change _ <+: (((builder.ensure site key kind base).modify site key _).levelAt level).keys
    rw [order_modify]
    exact order_ensure builder site level key kind base
  | addField site key field =>
    unfold apply addField
    dsimp only
    split
    · rw [order_modify]
    · exact List.prefix_rfl

/-- What a call makes of a type begins with it. -/
theorem begins_effect (builder : GraphBuilder) (call : Call) (node : TypeNode) :
    ∃ later, call.effect builder (some node) = some later ∧ node.Begins later := by
  cases call with
  | ensure => exact ⟨_, rfl, node.begins_append _ _⟩
  | addField => exact ⟨_, rfl, node.begins_offer _ _⟩

/-- A step keeps what the builder has. -/
theorem begins_apply (builder : GraphBuilder) (call : Call) : builder.Begins (builder.apply call) := by
  refine ⟨existing_apply builder call, order_apply builder call, fun level name node hnode ↦ ?_⟩
  rw [get?_apply, hnode]
  split
  · exact begins_effect builder call node
  · exact ⟨node, rfl, .refl node⟩

/-- A run keeps what the builder has. -/
theorem begins_run (builder : GraphBuilder) (calls : List Call) :
    builder.Begins (builder.run calls) := by
  induction calls generalizing builder with
  | nil => exact .refl builder
  | cons call rest ih => exact (begins_apply builder call).trans (ih (builder.apply call))

/-! ## What every run builds -/

/-- A type knows its own name and whether it is defined before, and its fields stand under their names,
each once, and are not defined before. -/
structure TypeFormed (builder : GraphBuilder) (name : String) (node : TypeNode) : Prop where
  named : node.name = name
  extending : node.extending = builder.existing.has name
  distinct : node.fields.keys.Nodup
  fields : ∀ entry ∈ node.fields, entry.1 = entry.2.name ∧
    builder.definedBefore name entry.1 = false

/-- All types of a builder are formed, and no level has two of one name. -/
structure Formed (builder : GraphBuilder) : Prop where
  distinct : builder.Distinct
  types : ∀ level name node, builder.get? level name = some node → builder.TypeFormed name node

theorem formed_new (resource : String) (existing : Entries (List String)) :
    (GraphBuilder.new resource existing).Formed :=
  ⟨distinct_new resource existing, fun _ _ _ h ↦ nomatch h⟩

theorem typeFormed_fresh (builder : GraphBuilder) (name : String) (kind : TypeKind) (base : String) :
    builder.TypeFormed name (builder.fresh name kind base) :=
  ⟨rfl, rfl, List.nodup_nil, fun _ h ↦ nomatch h⟩

theorem TypeFormed.append (h : builder.TypeFormed name node) (members values : List String) :
    builder.TypeFormed name (node.append members values) :=
  ⟨h.named, h.extending, h.distinct, h.fields⟩

theorem TypeFormed.offer (h : builder.TypeFormed name node) (field : FieldNode) :
    builder.TypeFormed name (node.offer (builder.definedBefore name field.name) field) := by
  unfold TypeNode.offer
  split
  · exact h
  · rename_i hoffered
    rw [Bool.or_eq_true, not_or] at hoffered
    refine ⟨h.named, h.extending, ?_, fun entry hentry ↦ ?_⟩
    · have hnew : field.name ∉ node.fields.keys := mt Entries.has_iff.mpr hoffered.2
      rw [Entries.keys_append]
      simpa using List.Nodup.concat hnew h.distinct
    · rcases List.mem_append.mp hentry with hold | hadded
      · exact h.fields entry hold
      · obtain rfl := List.mem_singleton.mp hadded
        exact ⟨rfl, by simpa using hoffered.1⟩

theorem Formed.effect (h : builder.Formed) (call : Call) {level : Nat}
    (found : call.effect builder (builder.get? level call.site.2) = some node) :
    builder.TypeFormed call.site.2 node := by
  cases call with
  | ensure site key kind base members values =>
    obtain rfl := Option.some.inj found
    change builder.TypeFormed key (((builder.get? level key).getD _).append members values)
    cases hheld : builder.get? level key with
    | none => exact (typeFormed_fresh builder key kind base).append members values
    | some held => exact (h.types level key held hheld).append members values
  | addField site key field =>
    obtain ⟨held, hheld, rfl⟩ := Option.map_eq_some_iff.mp found
    exact (h.types level key held hheld).offer field

theorem Distinct.apply (h : builder.Distinct) (call : Call) : (builder.apply call).Distinct := by
  cases call with
  | ensure => exact (h.ensure _ _).modify _
  | addField =>
    unfold GraphBuilder.apply addField
    dsimp only
    split
    · exact h.modify _
    · exact h

theorem Formed.apply (h : builder.Formed) (call : Call) : (builder.apply call).Formed := by
  refine ⟨h.distinct.apply call, fun level name node hnode ↦ ?_⟩
  have hformed : builder.TypeFormed name node := by
    rw [get?_apply] at hnode
    split at hnode
    · rename_i hsite
      obtain ⟨rfl, rfl⟩ := Prod.mk.inj hsite
      exact h.effect call hnode
    · exact h.types level name node hnode
  have hdefined : ∀ field, (builder.apply call).definedBefore name field =
      builder.definedBefore name field := fun field ↦ by
    unfold definedBefore
    rw [existing_apply]
  exact ⟨hformed.named, by rw [hformed.extending, existing_apply], hformed.distinct,
    fun entry hentry ↦ by rw [hdefined]; exact hformed.fields entry hentry⟩

theorem Formed.run (h : builder.Formed) (calls : List Call) : (builder.run calls).Formed := by
  induction calls generalizing builder with
  | nil => exact h
  | cons call rest ih => exact ih (h.apply call)

/-! ## Finishing -/

theorem getLast?_trimLevels (levels : List Level) : (trimLevels levels).getLast? ≠ some [] := by
  induction levels with
  | nil => exact nofun
  | cons first rest ih =>
    unfold trimLevels
    cases hrest : trimLevels rest with
    | nil => cases first <;> simp
    | cons second more =>
      rw [hrest] at ih
      rwa [List.getLast?_cons_cons]

/-- A type that can be pointed at and is not of the initial document is there and has something to
define. -/
theorem exists_of_isAvailable (available : builder.isAvailable level name = true)
    (undefined : builder.existing.has name = false) :
    ∃ node, builder.get? level name = some node ∧ node.isEmpty = false := by
  unfold isAvailable at available
  rw [undefined, Bool.false_or] at available
  cases hget : builder.get? level name with
  | none => simp [hget] at available
  | some node => exact ⟨node, rfl, by simpa [hget] using available⟩

/-- What can be pointed at before other calls stands in the graph that is finished after them. -/
theorem Begins.exists_finished (h : builder.Begins next) (distinct : next.Distinct)
    (available : builder.isAvailable level name = true)
    (undefined : builder.existing.has name = false) :
    ∃ node held, builder.get? level name = some node ∧
      next.finish.typeAt? level name = some held ∧ node.Begins held := by
  obtain ⟨node, hnode, hfilled⟩ := exists_of_isAvailable available undefined
  obtain ⟨held, hheld, hbegins⟩ := h.types level name node hnode
  have hkept : held.isEmpty = false := by
    by_contra hempty
    cases hfilled.symm.trans (hbegins.grows.isEmpty (by simpa using hempty))
  refine ⟨node, held, hnode, ?_, hbegins⟩
  rw [typeAt?_finish distinct, hheld, Option.filter_some, hkept]
  rfl

/-- Whatever calls are made, and whatever calls follow them.  A call changes the type at its site only:
one that is to be there comes about at its first call, and a field is taken if the type is there, has
none of the name and is not given it by the initial document.  So what was there stays: a type keeps its
place, its kind, its base and its fields, and what could be pointed at still can.  No type holds a field
that the initial document gives it.  Finishing keeps at each level the types that have something to
define, as they are and in their order, and no empty level at the end; what could be pointed at, and is
not of the initial document, is among them. -/
theorem run_keeps (resource : String) (existing : Entries (List String)) (calls more : List Call) :
    let earlier := (GraphBuilder.new resource existing).run calls
    let later := earlier.run more
    (∀ call level name, (earlier.apply call).get? level name =
      if (level, name) = call.site then call.effect earlier (earlier.get? level name)
      else earlier.get? level name) ∧
    (∀ level, (earlier.levelAt level).keys <+: (later.levelAt level).keys) ∧
    (∀ level name node, earlier.get? level name = some node →
      ∃ held, later.get? level name = some held ∧ held.kind = node.kind ∧ held.base = node.base ∧
        (∀ key field, node.fields.get? key = some field → held.fields.get? key = some field) ∧
        node.Begins held) ∧
    (∀ level name node, later.get? level name = some node →
      ∀ key ∈ node.fields.keys, key ∉ (existing.get? name).getD []) ∧
    (∀ level name, earlier.isAvailable level name = true → later.isAvailable level name = true) ∧
    (∀ level, later.finish.levels[level]?.getD [] =
      (later.levelAt level).filter fun entry ↦ !entry.2.isEmpty) ∧
    later.finish.levels.getLast? ≠ some [] ∧
    ∀ level name, earlier.isAvailable level name = true → existing.has name = false →
      ∃ node held, earlier.get? level name = some node ∧
        later.finish.typeAt? level name = some held ∧ node.Begins held := by
  intro earlier later
  have hbegins : earlier.Begins later := begins_run earlier more
  have hformed : later.Formed := ((formed_new resource existing).run calls).run more
  have hearlier : earlier.existing = existing := (begins_run _ calls).existing
  have hlater : later.existing = existing := hbegins.existing.trans hearlier
  refine ⟨get?_apply earlier, hbegins.order, fun level name node hnode ↦ ?_,
    fun level name node hnode key hkey ↦ ?_, fun level name ↦ hbegins.grows.isAvailable,
    getD_finish later, getLast?_trimLevels _, fun level name havailable hundefined ↦ ?_⟩
  · obtain ⟨held, hheld, hnode⟩ := hbegins.types level name node hnode
    exact ⟨held, hheld, hnode.kind, hnode.base, fun _ _ ↦ hnode.get?_fields, hnode⟩
  · obtain ⟨entry, hentry, rfl⟩ := List.mem_map.mp hkey
    have hdefined := ((hformed.types level name node hnode).fields entry hentry).2
    rw [← hlater, ← definedBefore_iff, hdefined]
    exact Bool.false_ne_true
  · exact hbegins.exists_finished hformed.distinct havailable (hearlier ▸ hundefined)

/-- The initial document gives users an identifier.  A second writer of the name does not change it, and
a role that is asked for as a union stays the enum that it is. -/
theorem run_keeps_users :
    let identifier : FieldNode := .leaf "id" .scalar "ID" [false]
    let name : FieldNode := .leaf "name" .scalar "String" [true]
    let earlier := (GraphBuilder.new "User" [("SelfUserObject", ["id"])]).run
      [.ensure 0 "SelfUserObject" .object "User" [] [], .addField 0 "SelfUserObject" identifier,
        .addField 0 "SelfUserObject" name, .ensure 1 "USER_ROLE" .enumeration "User" [] ["ADMIN"]]
    let later := earlier.run [.addField 0 "SelfUserObject" (.leaf "name" .scalar "Int" [false]),
      .ensure 1 "USER_ROLE" .union "User" ["SelfUserObject"] []]
    (∃ held, later.get? 0 "SelfUserObject" = some held ∧ held.fields.get? "name" = some name ∧
      "id" ∉ held.fields.keys) ∧
    ∃ held, later.finish.typeAt? 1 "USER_ROLE" = some held ∧ held.kind = .enumeration := by
  intro identifier name earlier later
  obtain ⟨-, -, htypes, hundefined, -, -, -, hfinished⟩ := run_keeps "User"
    [("SelfUserObject", ["id"])]
    [.ensure 0 "SelfUserObject" .object "User" [] [], .addField 0 "SelfUserObject" identifier,
      .addField 0 "SelfUserObject" name, .ensure 1 "USER_ROLE" .enumeration "User" [] ["ADMIN"]]
    [.addField 0 "SelfUserObject" (.leaf "name" .scalar "Int" [false]),
      .ensure 1 "USER_ROLE" .union "User" ["SelfUserObject"] []]
  constructor
  · obtain ⟨held, hheld, -, -, hfields, -⟩ := htypes 0 "SelfUserObject" _ rfl
    exact ⟨held, hheld, hfields "name" name rfl,
      fun hid ↦ hundefined 0 "SelfUserObject" held hheld "id" hid (by decide)⟩
  · obtain ⟨node, held, hnode, hheld, hbegins⟩ := hfinished 1 "USER_ROLE" rfl rfl
    obtain rfl := Option.some.inj hnode
    exact ⟨held, hheld, hbegins.kind⟩

end GraphBuilder
end ResourceApi

import ResourceApi.Executable.Input
import ResourceApi.Request

/-!
# Validation of requests

A request is run only if its document is valid: every name it uses is known, every argument and every
variable fits its type, selections stand exactly where there are fields to select, fields reported
under one name are the same field, and all fragments and variables are used.  The name of the type of
an object can be selected everywhere and is not looked into.
-/

namespace ResourceApi.Request

open Literal.Grammar (Directive)

/-- The field that reports the name of the type of an object. -/
def typeNameField : String := "__typename"

/-- Selections nest at most this deep, fragments counted at each of their spreads. -/
def maxNesting : Nat := 32

/-! ## Nesting and fragments -/

/-- Selections nest less than `depth` deep. -/
def nestsWithin (document : Document) : Nat → List Selection → Bool
  | 0, _ => false
  | depth + 1, selections => selections.all fun selection ↦
    match selection with
    | .field _ _ _ _ inner => inner.isEmpty || nestsWithin document depth inner
    | .inline _ _ inner => nestsWithin document depth inner
    | .spread name _ =>
      match document.fragment? name with
      | some fragment => nestsWithin document depth fragment.selections
      | none => true

mutual

/-- The fragments that a selection spreads itself. -/
def spreadsOf : Selection → List String
  | .field _ name _ _ inner => if name == typeNameField then [] else spreadsIn inner
  | .inline _ _ inner => spreadsIn inner
  | .spread name _ => [name]

def spreadsIn : List Selection → List String
  | [] => []
  | selection :: rest => spreadsOf selection ++ spreadsIn rest

end

/-- The fragments reached from the given ones in up to `rounds` steps. -/
def reachWithin (document : Document) : Nat → List String → List String
  | 0, names => names
  | rounds + 1, names =>
    let next := (names.filterMap document.fragment?).flatMap fun f ↦ spreadsIn f.selections
    reachWithin document rounds (addMissing names next)

/-- The fragments that an operation needs. -/
def fragmentsOf (document : Document) (operation : Operation) : List FragmentDefinition :=
  (reachWithin document document.fragments.length
    (addMissing [] (spreadsIn operation.selections))).filterMap document.fragment?

def usesAllFragments (document : Document) : Bool :=
  let used := document.operations.flatMap fun operation ↦
    (fragmentsOf document operation).map (·.name)
  document.fragments.all fun fragment ↦ used.contains fragment.name

/-! ## Fields under one name -/

/-- A field as it is reported by a selection set, with the condition it is selected under. -/
structure Reported where
  on : Option String
  label : String
  name : String
  arguments : List (String × Literal)

/-- The fields that a selection set reports; fragments are entered once.  `depth` bounds the
nesting. -/
def reportedFields (document : Document) : Nat → Option String → List String × List Reported →
    List Selection → List String × List Reported
  | 0, _, found, _ => found
  | depth + 1, on, found, selections => selections.foldl (fun (entered, fields) selection ↦
    match selection with
    | .field label name arguments _ _ =>
      (entered, fields ++ [{ on, label := label.getD name, name, arguments }])
    | .inline on _ inner => reportedFields document depth on (entered, fields) inner
    | .spread name _ =>
      match document.fragment? name with
      | none => (entered, fields)
      | some fragment =>
        if entered.contains name then (entered, fields)
        else reportedFields document depth (some fragment.on) (name :: entered, fields)
          fragment.selections) found

def Reported.isSameField (first second : Reported) : Bool :=
  first.name == second.name && first.arguments.length == second.arguments.length &&
    first.arguments.all fun (name, value) ↦
      (second.arguments.lookup name).any value.equal

/-- Fields under one condition and one label are the same field. -/
def isMergeable (document : Document) (selections : List Selection) : Bool :=
  let fields := (reportedFields document (maxNesting + 2) none ([], []) selections).2
  fields.all fun field ↦
    match fields.find? fun first ↦ first.on == field.on && first.label == field.label with
    | some first => first.isSameField field
    | none => true

/-! ## Arguments and directives -/

/-- What arguments are checked against. -/
structure Scope where
  schema : ExecutableSchema
  document : Document
  given : Entries Json

/-- The arguments have distinct names, all known, and fit their types as far as the values of their
variables are given; none that may not be null is missing. -/
def Scope.acceptsArguments (scope : Scope) (parameters : Entries TypeRef)
    (arguments : List (String × Literal)) : Bool :=
  let names := arguments.map (·.1)
  names.eraseDups.length == names.length &&
    (arguments.all fun (name, value) ↦
      match parameters.get? name with
      | none => false
      | some type => (value.instantiate scope.given).all (scope.schema.accepts type)) &&
    parameters.all fun (name, type) ↦ type.nullable || names.contains name

/-- The directives of selections and their parameters. -/
def selectionDirectives : List String := ["skip", "include"]

def directiveParameters : Entries TypeRef := [("if", .named "Boolean" false)]

/-- A directive stands at most once. -/
def Scope.acceptsDirectives (scope : Scope) (directives : List Directive) : Bool :=
  let names := directives.map (·.name)
  names.eraseDups.length == names.length &&
    directives.all fun directive ↦ selectionDirectives.contains directive.name &&
      scope.acceptsArguments directiveParameters directive.arguments

/-! ## Selections -/

mutual

/-- A selection on a composite type is valid. -/
def Scope.acceptsSelection (scope : Scope) (parent : String) : Selection → Bool
  | .field _ name arguments directives inner =>
    name == typeNameField ||
      match scope.schema.field? parent name with
      | none => false
      | some field =>
        scope.acceptsArguments field.arguments arguments &&
          scope.acceptsDirectives directives &&
          (if scope.schema.typeIs field.type.name TypeShape.isLeaf then inner.isEmpty
            else !inner.isEmpty && isMergeable scope.document inner &&
              scope.acceptsSelections field.type.name inner)
  | .inline on directives inner =>
    let condition := on.getD parent
    scope.schema.typeIs condition TypeShape.isComposite &&
      scope.schema.overlap parent condition &&
      scope.acceptsDirectives directives && isMergeable scope.document inner &&
      scope.acceptsSelections condition inner
  | .spread name directives =>
    scope.acceptsDirectives directives &&
      match scope.document.fragment? name with
      | none => false
      | some fragment => scope.schema.overlap parent fragment.on

def Scope.acceptsSelections (scope : Scope) (parent : String) : List Selection → Bool
  | [] => true
  | selection :: rest =>
    scope.acceptsSelection parent selection && scope.acceptsSelections parent rest

end

def Scope.acceptsFragment (scope : Scope) (fragment : FragmentDefinition) : Bool :=
  scope.schema.typeIs fragment.on TypeShape.isComposite && fragment.directives.isEmpty &&
    isMergeable scope.document fragment.selections &&
    scope.acceptsSelections fragment.on fragment.selections

/-! ## Variables -/

/-- A place where a variable stands, with the type asked for there if the variable is the whole
value. -/
structure Usage where
  variableName : String
  expected : Option TypeRef

mutual

/-- The typed places of variables in a value.  Values of scalars are not looked into. -/
def typedUsages (schema : ExecutableSchema) (type : TypeRef) : Literal → List Usage
  | .variable name => [⟨name, some type⟩]
  | .list items =>
    match type with
    | .list item _ => typedUsagesOfItems schema item items
    | .named _ _ => []
  | .object members =>
    match type with
    | .named name _ =>
      typedUsagesOfMembers schema (((schema.type? name).map TypeShape.inputFields).getD []) members
    | .list _ _ => []
  | _ => []

def typedUsagesOfItems (schema : ExecutableSchema) (type : TypeRef) : List Literal → List Usage
  | [] => []
  | value :: rest => typedUsages schema type value ++ typedUsagesOfItems schema type rest

def typedUsagesOfMembers (schema : ExecutableSchema) (fields : Entries TypeRef) :
    List (String × Literal) → List Usage
  | [] => []
  | (name, value) :: rest =>
    (match fields.get? name with
      | some type => typedUsages schema type value
      | none => []) ++ typedUsagesOfMembers schema fields rest

end

def usagesOfArguments (schema : ExecutableSchema) (parameters : Entries TypeRef)
    (arguments : List (String × Literal)) : List Usage :=
  arguments.flatMap fun (name, value) ↦
    value.variablesIn.map (⟨·, none⟩) ++
      match parameters.get? name with
      | some type => typedUsages schema type value
      | none => []

def usagesOfDirectives (schema : ExecutableSchema) (directives : List Directive) : List Usage :=
  directives.flatMap fun directive ↦
    usagesOfArguments schema directiveParameters directive.arguments

mutual

/-- The places of variables in a selection, those in the fragments it spreads left out. -/
def usagesOf (schema : ExecutableSchema) (parent : String) : Selection → List Usage
  | .field _ name arguments directives inner =>
    if name == typeNameField then []
    else match schema.field? parent name with
      | none => []
      | some field =>
        usagesOfArguments schema field.arguments arguments ++
          usagesOfDirectives schema directives ++ usagesIn schema field.type.name inner
  | .inline on directives inner =>
    usagesOfDirectives schema directives ++ usagesIn schema (on.getD parent) inner
  | .spread _ directives => usagesOfDirectives schema directives

def usagesIn (schema : ExecutableSchema) (parent : String) : List Selection → List Usage
  | [] => []
  | selection :: rest => usagesOf schema parent selection ++ usagesIn schema parent rest

end

/-- A value of the type `given` may stand where `expected` is asked for.  Where that is a nullable
list, a non-null value is compared with its items. -/
def isAllowed : (expected given : TypeRef) → Bool
  | .named expected true, .named given _ => expected == given
  | .named expected false, .named given false => expected == given
  | .list expected false, .list given false => isAllowed expected given
  | .list expected true, .list given true => isAllowed expected given
  | .list expected true, .list given false => isAllowed expected (.list given true)
  | .list expected true, .named given false => isAllowed expected (.named given true)
  | _, _ => false

/-- The type of a variable where it is used: one with a default is never null. -/
def VariableDefinition.usedType (definition : VariableDefinition) : TypeRef :=
  if definition.default.isSome then
    match definition.type with
    | .named name _ => .named name false
    | .list item _ => .list item false
  else definition.type

/-- The variable has an input type, and its default fits the type, which then is nullable. -/
def Scope.acceptsVariable (scope : Scope) (definition : VariableDefinition) : Bool :=
  let known := definition.directives.map (·.name)
  scope.schema.typeIs definition.type.name TypeShape.isInput &&
    known.eraseDups.length == known.length &&
    definition.default.all fun value ↦
      definition.type.nullable && scope.schema.accepts definition.type value

/-- Every variable that is used is defined and fits where it stands, and every one that is defined is
used. -/
def Scope.acceptsUsages (scope : Scope) (root : String) (operation : Operation) : Bool :=
  let usages := usagesIn scope.schema root operation.selections ++
    (fragmentsOf scope.document operation).flatMap fun fragment ↦
      usagesIn scope.schema fragment.on fragment.selections
  (usages.all fun usage ↦
    match operation.variableDefinitions.find? (·.name == usage.variableName) with
    | none => false
    | some definition => usage.expected.all fun type ↦ isAllowed type definition.usedType) &&
  operation.variableDefinitions.all fun definition ↦
    usages.any (·.variableName == definition.name)

/-! ## Documents -/

/-- The root type of an operation, if operations of its kind are served. -/
def rootOf? (schema : ExecutableSchema) : Kind → Option String
  | .query => some ExecutableSchema.queryRoot
  | .mutation => if schema.hasMutation then some ExecutableSchema.mutationRoot else none
  | .subscription => none

def Scope.acceptsOperation (scope : Scope) (operation : Operation) : Bool :=
  match rootOf? scope.schema operation.kind with
  | none => false
  | some root =>
    let names := operation.variableDefinitions.map (·.name)
    operation.directives.isEmpty && names.eraseDups.length == names.length &&
      operation.variableDefinitions.all scope.acceptsVariable &&
      isMergeable scope.document operation.selections &&
      scope.acceptsSelections root operation.selections &&
      scope.acceptsUsages root operation

/-- The document is valid for the schema under the given values of variables. -/
def Scope.isValid (scope : Scope) : Bool :=
  (scope.document.operations.all fun operation ↦
    nestsWithin scope.document (maxNesting + 1) operation.selections) &&
    scope.document.operations.all scope.acceptsOperation &&
    scope.document.fragments.all scope.acceptsFragment &&
    usesAllFragments scope.document

end ResourceApi.Request

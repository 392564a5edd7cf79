import ResourceApi.Executable.Response
import ResourceApi.Executable.Validation
import ResourceApi.Request.Reader

/-!
# Running requests

A valid request is run field by field, depth first.  A field that fails is left out of its object and
its error is kept; inside a list, the failure of one item is that of the whole list.  Fields of a null
item fail without an error.
-/

namespace ResourceApi.Request

open Literal.Grammar (Directive)

/-- A request as it is sent: the document, the values of variables, and the name of the operation. -/
structure Message where
  query : String
  given : Entries Json
  operation : Option String

/-- Who calls, and which resources have a store. -/
structure Caller where
  identity : Option String
  stores : List String

/-- What stays the same while a request is run.  `given` holds the values sent, `bound` those of the
declared variables, and `freshId` gives the identifiers of new records. -/
structure Environment where
  schema : ExecutableSchema
  document : Document
  given : Entries Json
  bound : Entries Json
  caller : Option Caller
  freshId : Nat → String

/-- What changes: the records, the errors so far, and how many identifiers are used up. -/
structure Progress where
  store : Store
  errors : List ResponseError
  used : Nat

/-- The value of a field, or its fault; the fields of a null item have none. -/
abbrev Attempt := ExceptT (Option FieldFault) (StateM Progress)

namespace Environment

variable (env : Environment)

/-! ## Values of fields -/

def failWith {α : Type} (fault : FieldFault) : Attempt α := throw (some fault)

/-- What resolvers see of the request. -/
def context : Attempt RequestContext := do
  match env.caller with
  | some caller => return ⟨caller.identity, caller.stores, (← get).store⟩
  | none => failWith .contextMissing

def resolved (result : Except ResolveError Json) : Attempt Json :=
  match result with
  | .ok value => pure value
  | .error error => failWith (.refused error)

/-- Runs a mutation; the failures of its items are reported at once. -/
def mutate (resolver : MutationResolver) (arguments : Json) : Attempt Json := do
  let context ← env.context
  let before ← get
  let (store, result) :=
    resolver.resolve (fun item ↦ env.freshId (before.used + item)) context arguments
  let items := (resolver.items arguments).toOption.getD []
  set { before with store := store, used := before.used + items.length }
  match result with
  | .ok outcome =>
    modify fun p ↦ { p with errors := p.errors ++ outcome.errors.map .item }
    return outcome.data
  | .error error => failWith (.refused error)

/-- A member of the parent; a parent that is no object has null in its place. -/
def memberOf (name : String) : Json → Attempt Json
  | .obj members => pure ((Entries.get? members name).getD .null)
  | .null | .arr _ => throw none
  | _ => pure .null

/-- The value of a field of `parent`. -/
def valueOf (source : FieldSource) (name : String) (arguments parent : Json) : Attempt Json :=
  match source with
  | .query resolver => do resolved (resolver.resolve (← env.context) arguments)
  | .mutation resolver => env.mutate resolver arguments
  | .reference resolver =>
    match parent with
    | .null | .arr _ => throw none
    | parent => do resolved (resolver.resolve (← env.context) parent name)
  | .member => memberOf name parent
  | .vacant => pure .null

/-! ## Completion -/

/-- A value that is there, under a type; `named` completes values of the named type. -/
def completePresent (named : Json → Attempt Json) : TypeRef → Json → Attempt Json
  | .named _ _, value => named value
  | .list item _, .arr items => return .arr (← items.mapM (completePresent named item))
  | .list _ _, _ => failWith .notList

/-- Null is a value of nullable types only. -/
def complete (named : Json → Attempt Json) (type : TypeRef) (value : Json) : Attempt Json :=
  if value.isNull then
    if type.nullable then pure .null else failWith .nullValue
  else completePresent named type value

/-- A value of a named type; `object` gives the fields that are selected of an object. -/
def completeNamed (object : Json → StateM Progress (Entries Json)) (name : String) (value : Json) :
    Attempt Json :=
  match env.schema.type? name with
  | some (.object _) => return Response.ofFields (← object value)
  | some (.union _) => failWith (.invalidUnion name)
  | some (.enumeration values) =>
    if value.str?.any values.contains then pure value else failWith (.invalidEnum name)
  | some (.scalar rule) =>
    if !value.isArray && rule value then pure value else failWith (.invalidScalar name)
  | _ => if value.isArray then failWith (.invalidScalar name) else pure value

/-! ## Selections -/

/-- The condition of a directive; one without a boolean value is false. -/
def conditionOf (directive : Directive) : Option Bool :=
  (directive.arguments.lookup "if").map fun value ↦
    (((value.instantiate env.given).map (Literal.toJson [])).bind Json.bool?).getD false

/-- A directive takes the selection out. -/
def isSkipped (directives : List Directive) : Bool :=
  directives.any fun directive ↦
    match directive.name with
    | "skip" => env.conditionOf directive == some true
    | "include" => env.conditionOf directive == some false
    | _ => false

def argumentsJson (arguments : List (String × Literal)) : Json :=
  .obj (arguments.map fun (name, value) ↦ (name, value.toJson env.bound))

/-- Keeps the outcome of a field: a value is reported, a fault becomes an error. -/
def keep (label : String) (fields : Entries Json) (outcome : Except (Option FieldFault) Json) :
    StateM Progress (Entries Json) :=
  match outcome with
  | .ok value => pure (Response.report label value fields)
  | .error none => pure fields
  | .error (some fault) => do
    modify fun p ↦ { p with errors := p.errors ++ [.field fault] }
    return fields

/-- The fields that selections report of an object.  Each level of selections takes one unit of fuel;
the nesting of a valid document bounds it. -/
def select : Nat → String → Json → Entries Json → List Selection →
    StateM Progress (Entries Json)
  | 0, _, _, fields, _ => pure fields
  | fuel + 1, typeName, parent, fields, selections =>
    selections.foldlM (fun fields selection ↦
      if env.isSkipped selection.directives then pure fields
      else match selection with
        | .field label name arguments _ inner =>
          let label := label.getD name
          if name == typeNameField then pure (Response.report label (.str typeName) fields)
          else match env.schema.field? typeName name with
            | none => pure fields
            | some field => do
              let object := fun value ↦ select fuel field.type.name value [] inner
              let attempt : Attempt Json := do
                let value ← env.valueOf field.source name (env.argumentsJson arguments) parent
                complete (env.completeNamed object field.type.name) field.type value
              keep label fields (← attempt.run)
        | .inline on _ inner =>
          if on.all (· == typeName) then select fuel typeName parent fields inner else pure fields
        | .spread name _ =>
          match env.document.fragment? name with
          | some fragment =>
            if fragment.on == typeName then select fuel typeName parent fields fragment.selections
            else pure fields
          | none => pure fields) fields

/-- The answer of an operation on a root type. -/
def run (root : String) (operation : Operation) (store : Store) : Response × Store :=
  let (fields, progress) :=
    (env.select (maxNesting + 1) root .null [] operation.selections).run ⟨store, [], 0⟩
  (⟨Response.ofFields fields, progress.errors⟩, progress.store)

end Environment

/-! ## Messages -/

/-- The values of the variables of an operation, if none that needs one is missing. -/
def variableValues? (operation : Operation) (given : Entries Json) : Option (Entries Json) :=
  operation.variableDefinitions.mapM fun definition ↦
    match given.get? definition.name with
    | some value => some (definition.name, value)
    | none => definition.fallback.map fun value ↦ (definition.name, value.toJson [])

/-- Runs a message.  `none` means that it was refused before anything was run. -/
def execute (schema : ExecutableSchema) (message : Message) (caller : Option Caller)
    (freshId : Nat → String) (store : Store) : Option (Response × Store) := do
  let document ← parse? message.query
  let scope : Scope := ⟨schema, document, message.given⟩
  if !scope.isValid then failure
  let operation ← document.operation? message.operation
  let root ← rootOf? schema operation.kind
  let bound ← variableValues? operation message.given
  let env : Environment := ⟨schema, document, message.given, bound, caller, freshId⟩
  return env.run root operation store

end ResourceApi.Request

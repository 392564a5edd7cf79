/-!
# Command line arguments

A call names one command.  The options of every call may stand before or after it, each at most once
on either side; the one after the command counts.
-/

namespace ResourceApi.CommandLine

inductive Command where
  | compile
  | sdl
  | operations (resource : Option String) (fragments : Bool)
  | resolvers
  | check
deriving DecidableEq, Repr

structure Invocation where
  config : String
  command : Command
deriving DecidableEq, Repr

/-- The project file that is read unless another one is named. -/
def defaultConfig : String := "modelql.toml"

/-- The options that were given. -/
structure GivenOptions where
  config : Option String
  logLevel : Option String
  resource : Option String
  fragments : Bool

def GivenOptions.unset : GivenOptions := ⟨none, none, none, false⟩

inductive OptionName where
  | config
  | logLevel
  | resource
  | fragments
deriving DecidableEq, Repr

namespace OptionName

def ofLong? : String → Option OptionName
  | "config" => some .config
  | "log-level" => some .logLevel
  | "resource" => some .resource
  | "fragments" => some .fragments
  | _ => none

def ofShort? : Char → Option OptionName
  | 'c' => some .config
  | 'r' => some .resource
  | _ => none

/-- The option may stand before the command, or after any command. -/
def isGlobal : OptionName → Bool
  | .config | .logLevel => true
  | .resource | .fragments => false

end OptionName

/-- What an argument is. -/
inductive Argument where
  | word (text : String)
  | option (name : OptionName) (value : Option String)
  | endOfOptions
deriving DecidableEq, Repr

namespace Argument

/-- Reads an argument; unknown options are none.  A value may be attached to an option. -/
def ofText? (text : String) : Option Argument :=
  match text.toList with
  | ['-', '-'] => some .endOfOptions
  | '-' :: '-' :: rest => do
    let name ← OptionName.ofLong? (String.ofList (rest.takeWhile (· != '=')))
    return .option name
      (match rest.dropWhile (· != '=') with
        | [] => none
        | _ :: value => some (String.ofList value))
  | '-' :: c :: rest => do
    let name ← OptionName.ofShort? c
    return .option name
      (match rest with
        | [] => none
        | '=' :: value => some (String.ofList value)
        | value => some (String.ofList value))
  | _ => some (.word text)

end Argument

/-- An argument that can be the value of the option before it. -/
def isValue (text : String) : Bool :=
  match text.toList with
  | '-' :: _ :: _ => false
  | _ => true

namespace GivenOptions

/-- Notes an option with its value; none is given twice, and a file has a name. -/
def note (options : GivenOptions) (name : OptionName) (value : String) : Option GivenOptions :=
  match name with
  | .config =>
    if options.config.isSome || value.isEmpty then none
    else some { options with config := some value }
  | .logLevel =>
    if options.logLevel.isSome then none else some { options with logLevel := some value }
  | .resource =>
    if options.resource.isSome then none else some { options with resource := some value }
  | .fragments => none

/-- Reads options up to the first word, if `allowed` are the options that may be given.  What is left
begins with that word.  Nothing else may stand after the mark that ends the options. -/
def read (allowed : OptionName → Bool) (options : GivenOptions) :
    List String → Option (GivenOptions × List String)
  | [] => some (options, [])
  | text :: rest =>
    match Argument.ofText? text with
    | none => none
    | some .endOfOptions => if rest.isEmpty then some (options, []) else none
    | some (.word _) => some (options, text :: rest)
    | some (.option name value) =>
      if !allowed name then none
      else match name, value, rest with
        | .fragments, none, rest =>
          if options.fragments then none
          else read allowed { options with fragments := true } rest
        | name, some value, rest => do read allowed (← options.note name value) rest
        | name, none, value :: rest =>
          if isValue value then do read allowed (← options.note name value) rest else none
        | _, none, [] => none

end GivenOptions

/-- The command of a name, with its options. -/
def Command.ofName? (options : GivenOptions) : String → Option Command
  | "compile" => some .compile
  | "sdl" => some .sdl
  | "operations" => some (.operations options.resource options.fragments)
  | "resolvers" => some .resolvers
  | "check" => some .check
  | _ => none

/-- What a call asks for; `none` if the arguments are no call. -/
def Invocation.ofArguments? (arguments : List String) : Option Invocation := do
  let (before, rest) ← GivenOptions.read OptionName.isGlobal .unset arguments
  match rest with
  | [] => none
  | name :: rest =>
    let allowed := fun option ↦ OptionName.isGlobal option || name == "operations"
    let (after, extra) ← GivenOptions.read allowed .unset rest
    if !extra.isEmpty then failure
    let command ← Command.ofName? after name
    let config := (after.config.orElse fun _ ↦ before.config).getD defaultConfig
    return { config, command }

end ResourceApi.CommandLine

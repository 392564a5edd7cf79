/-!
# Readers

A reader takes what it recognises off the front of a text and leaves the rest; it fails without
consuming anything.  Alternatives are tried in order, and repetition takes as much as it can and
never gives back.  Repetition runs at most once per remaining character, which bounds it without
restricting it: a round that succeeds consumes at least one.
-/

namespace ResourceApi.Text

abbrev Reader := StateT (List Char) Option

namespace Reader

variable {α β : Type}

/-- Reads the whole text. -/
def readAll (p : Reader α) (text : List Char) : Option α :=
  match p.run text with
  | some (value, []) => some value
  | _ => none

def satisfy (accepts : Char → Bool) : Reader Char := fun text ↦
  match text with
  | c :: rest => if accepts c then some (c, rest) else none
  | [] => none

def char (c : Char) : Reader Unit := fun text ↦
  match text with
  | d :: rest => if d == c then some ((), rest) else none
  | [] => none

/-- What is left of `text` after the given characters. -/
def dropWord : List Char → List Char → Option (List Char)
  | [], text => some text
  | _ :: _, [] => none
  | c :: cs, d :: text => if c == d then dropWord cs text else none

/-- Reads exactly `word`. -/
def exactly (word : String) : Reader Unit := fun text ↦
  (dropWord word.toList text).map fun rest ↦ ((), rest)

def takeWhile (accepts : Char → Bool) : Reader (List Char) := fun text ↦
  some (text.takeWhile accepts, text.dropWhile accepts)

def takeWhile1 (accepts : Char → Bool) : Reader (List Char) := fun text ↦
  match text.takeWhile accepts with
  | [] => none
  | taken => some (taken, text.dropWhile accepts)

def skipWhile (accepts : Char → Bool) : Reader Unit := fun text ↦
  some ((), text.dropWhile accepts)

/-- Succeeds, consuming nothing, iff the next character is not accepted. -/
def notFollowedBy (accepts : Char → Bool) : Reader Unit := fun text ↦
  match text with
  | c :: _ => if accepts c then none else some ((), text)
  | [] => some ((), text)

/-- Succeeds, consuming nothing, iff `p` fails. -/
def absent (p : Reader α) : Reader Unit := fun text ↦
  match p.run text with
  | some _ => none
  | none => some ((), text)

def maybe (p : Reader α) : Reader (Option α) := fun text ↦
  match p.run text with
  | some (value, rest) => some (some value, rest)
  | none => some (none, text)

/-- Whether `p` was there to be read. -/
def present (p : Reader α) : Reader Bool := return (← maybe p).isSome

/-- Up to `rounds` repetitions of `p`. -/
def manyUpTo (p : Reader α) : Nat → Reader (List α)
  | 0, text => some ([], text)
  | rounds + 1, text =>
    match p.run text with
    | none => some ([], text)
    | some (value, rest) =>
      match manyUpTo p rounds rest with
      | some (values, rest) => some (value :: values, rest)
      | none => none

def many (p : Reader α) : Reader (List α) := fun text ↦ manyUpTo p text.length text

def many1 (p : Reader α) : Reader (List α) := do
  let value ← p
  return value :: (← many p)

/-- One or more of `p` with `separator` between them. -/
def sepBy1 (p : Reader α) (separator : Reader β) : Reader (List α) := do
  let value ← p
  return value :: (← many (separator *> p))

/-- None or more of `p` with `separator` between them. -/
def sepBy (p : Reader α) (separator : Reader β) : Reader (List α) := do
  return (← maybe (sepBy1 p separator)).getD []

/-- A number of repetitions of `p`. -/
def times (p : Reader α) : Nat → Reader (List α)
  | 0 => pure []
  | n + 1 => do
    let value ← p
    return value :: (← times p n)

end Reader
end ResourceApi.Text

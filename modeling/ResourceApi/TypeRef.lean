/-!
# Type references

A type reference is a named type inside any number of lists, with a mark on every level that is
non-null.  A nullability vector lists the levels from the outermost list to the named type, so a
reference of depth `n` has a vector of length `n + 1`.  `render` writes a reference and `parse?` reads
exactly the texts that `render` writes for names of the schema language.
-/

namespace ResourceApi

inductive TypeRef where
  | named (name : String) (nullable : Bool)
  | list (item : TypeRef) (nullable : Bool)
deriving DecidableEq, Repr

/-! ## Names -/

namespace Name

def isStart (c : Char) : Bool := c.isAlpha || c == '_'

def isContinue (c : Char) : Bool := c.isAlphanum || c == '_'

/-- The characters form a name of the schema language. -/
def isValid : List Char → Bool
  | [] => false
  | c :: rest => isStart c && rest.all isContinue

end Name

namespace TypeRef

/-- The reference with a given nullability vector; the empty vector means a non-null name. -/
def ofVector (name : String) : List Bool → TypeRef
  | [] => .named name false
  | [innermost] => .named name innermost
  | level :: next :: rest => .list (ofVector name (next :: rest)) level

/-- The levels of a vector put around a named type, from the innermost one outwards. -/
def ofLevels (name : String) (nullable : List Bool) : TypeRef :=
  match nullable.reverse with
  | [] => .named name true
  | innermost :: lists => lists.foldl TypeRef.list (.named name innermost)

def name : TypeRef → String
  | .named name _ => name
  | .list item _ => item.name

def nullable : TypeRef → Bool
  | .named _ nullable => nullable
  | .list _ nullable => nullable

def depth : TypeRef → Nat
  | .named _ _ => 0
  | .list item _ => item.depth + 1

def vector : TypeRef → List Bool
  | .named _ nullable => [nullable]
  | .list item nullable => nullable :: item.vector

/-- The mark of a level that is non-null. -/
def mark (nullable : Bool) : List Char := if nullable then [] else ['!']

def renderChars : TypeRef → List Char
  | .named name nullable => name.toList ++ mark nullable
  | .list item nullable => '[' :: item.renderChars ++ ']' :: mark nullable

def render (ref : TypeRef) : String := String.ofList ref.renderChars

@[simp]
theorem length_vector (ref : TypeRef) : ref.vector.length = ref.depth + 1 := by
  induction ref with
  | named name nullable => rfl
  | list item nullable ih => simp [vector, depth, ih]

@[simp]
theorem vector_ofVector (name : String) (first : Bool) (rest : List Bool) :
    (ofVector name (first :: rest)).vector = first :: rest := by
  induction rest generalizing first with
  | nil => rfl
  | cons next rest ih => simp [ofVector, vector, ih]

@[simp]
theorem ofVector_vector (ref : TypeRef) : ofVector ref.name ref.vector = ref := by
  induction ref with
  | named name nullable => rfl
  | list item nullable ih =>
    cases item with
    | named name inner => rfl
    | list inner flag => simpa [name, vector, ofVector] using ih

/-- The text without its last character, if that is `c`. -/
def dropLast? (c : Char) (text : List Char) : Option (List Char) :=
  if text.getLast? = some c then some text.dropLast else none

/-- Reads a reference with fewer than `fuel` lists. -/
def parseWith : Nat → List Char → Option TypeRef
  | 0, _ => none
  | fuel + 1, text =>
    let marked := dropLast? '!' text
    let nullable := marked.isNone
    match marked.getD text with
    | '[' :: rest => do
      let inner ← dropLast? ']' rest
      return .list (← parseWith fuel inner) nullable
    | name => if Name.isValid name then some (.named (String.ofList name) nullable) else none

def parse? (text : String) : Option TypeRef :=
  parseWith (text.toList.length + 1) text.toList

def isDecoration (c : Char) : Bool := c == '[' || c == ']' || c == '!'

/-- The named type of a text, also of one that is no reference: the decoration is taken off at
both ends. -/
def nameOf (text : String) : String :=
  match parse? text with
  | some ref => ref.name
  | none => String.ofList
      ((text.toList.dropWhile isDecoration).reverse.dropWhile isDecoration).reverse

end TypeRef

/-- The text of a type with a given nullability vector. -/
def decorate (name : String) (nullable : List Bool) : String :=
  (TypeRef.ofVector name nullable).render

end ResourceApi

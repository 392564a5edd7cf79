import ResourceApi.Text.Character

/-!
# Words of an identifier

An identifier is cut into words at every character that is neither letter nor digit, between a
lower-case and an upper-case character, and before the last character of an upper-case run that a
lower-case character follows.  Digits belong to the word they stand in and never cut.  The two
spellings used for synthesized names, upper camel case and upper-case words joined by underscores,
are built from the words.
-/

namespace ResourceApi.Text

/-- What the characters of the current word have been so far. -/
inductive WordMode where
  | fresh
  | lower
  | upper
deriving DecidableEq, Repr

def WordMode.after (mode : WordMode) (c : Char) : WordMode :=
  if isLower c then .lower else if isUpper c then .upper else mode

/-- Cuts one run of letters and digits; `word` holds the current word, last character first. -/
def cutRun (mode : WordMode) (word : List Char) : List Char → List (List Char)
  | [] => []
  | [c] => [(c :: word).reverse]
  | c :: next :: rest =>
    if mode.after c == .lower && isUpper next then
      (c :: word).reverse :: cutRun .fresh [] (next :: rest)
    else if mode == .upper && isUpper c && isLower next then
      word.reverse :: cutRun .fresh [c] (next :: rest)
    else
      cutRun (mode.after c) (c :: word) (next :: rest)

/-- The maximal runs of letters and digits; `run` holds the current one, last character first. -/
def runsOf (run : List Char) : List Char → List (List Char)
  | [] => [run.reverse]
  | c :: rest =>
    if isAlphanumeric c then runsOf (c :: run) rest else run.reverse :: runsOf [] rest

def words (text : String) : List (List Char) :=
  (runsOf [] text.toList).flatMap (cutRun .fresh [])

/-- Lower case of the tail of a word; a capital sigma that ends it is final. -/
def lowerTail : List Char → List Char
  | [] => []
  | [c] => if c == 'Σ' then ['ς'] else lowerChars c
  | c :: rest => lowerChars c ++ lowerTail rest

def capitalize : List Char → List Char
  | [] => []
  | c :: rest => upperChars c ++ lowerTail rest

def upperCamelCase (text : String) : String :=
  String.ofList ((words text).flatMap capitalize)

def upperSnakeCase (text : String) : String :=
  String.ofList (['_'].intercalate ((words text).map (·.flatMap upperChars)))

end ResourceApi.Text

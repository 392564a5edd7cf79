import ResourceApi.Text.Character

/-!
# English plurals

The plural of a lower-case word comes from a list of words without one, a list of irregular words,
and an ordered table of rules, of which the first that applies decides.  A rule recognises a word by
one of its stems followed by one of its endings at the end of the word, and replaces the ending.
Text before the run of word characters that leads up to the stem is dropped.

`pluralizeBy` carries plurals of words over to identifiers: only the last hump is inflected, its case is
kept, and a word that has no plural of its own takes a plain `s`, so that no name is its own plural.
`pluralize` does this with the plurals above.
-/

namespace ResourceApi.Text

/-! ## Rules -/

/-- One character of a stem. -/
inductive StemUnit where
  | oneOf (chars : List Char)
  | noneOf (chars : List Char)
deriving DecidableEq, Repr

def StemUnit.accepts : StemUnit → Char → Bool
  | .oneOf chars, c => chars.contains c
  | .noneOf chars, c => !chars.contains c

abbrev Stem := List StemUnit

/-- The stem that is exactly `text`. -/
def Stem.ofString (text : String) : Stem :=
  text.toList.map fun c ↦ .oneOf [c]

structure PluralRule where
  stems : List Stem
  endings : List String
  suffix : String

/-- The characters left when the stem, written backwards, is taken off the front. -/
def Stem.strip : List StemUnit → List Char → Option (List Char)
  | [], cs => some cs
  | _ :: _, [] => none
  | unit :: units, c :: cs => if unit.accepts c then Stem.strip units cs else none

/-- How many characters of `base`, which is written backwards, the longest match of the rule keeps:
a stem and the word characters before it. -/
def PluralRule.keep? (rule : PluralRule) (base : List Char) : Option Nat :=
  (rule.stems.filterMap fun stem ↦
    (Stem.strip stem.reverse base).map fun rest ↦
      stem.length + (rest.takeWhile isWordCharacter).length).max?

def PluralRule.inflect? (rule : PluralRule) (word : List Char) : Option (List Char) :=
  rule.endings.findSome? fun ending ↦
    let back := word.reverse
    let tail := ending.toList.reverse
    if tail.isPrefixOf back then
      let base := back.drop tail.length
      (rule.keep? base).map fun n ↦ (base.take n).reverse ++ rule.suffix.toList
    else none

private def stems (texts : List String) : List Stem :=
  texts.map Stem.ofString

private def anyStem : List Stem := [[]]

private def chars (text : String) : List Char := text.toList

/-- The rules in the order in which they are tried. -/
def pluralRules : List PluralRule := [
  ⟨stems ["eaux"], [""], ""⟩,
  ⟨stems ["child"], ["ren", ""], "ren"⟩,
  ⟨stems ["person", "people"], [""], "ople"⟩,
  ⟨stems ["mice", "mouse", "lice", "louse"], [""], "ice"⟩,
  ⟨stems ["matr", "cod", "mur", "sil", "vert", "ind", "append"], ["ix", "ex"], "ices"⟩,
  ⟨stems ["x", "ch", "ss", "sh", "zz"], [""], "es"⟩,
  ⟨stems ["xes", "ches", "sses", "shes", "zzes"], [""], ""⟩,
  ⟨[[.noneOf (chars "ch"), .oneOf (chars "ieo"), .oneOf (chars "ln")]], ["ey"], "ies"⟩,
  ⟨[.noneOf (chars "aeiouy")] :: stems ["qu"], ["y"], "ies"⟩,
  ⟨stems ["ar", "l", "ea", "eo", "oa", "hoo"], ["f"], "ves"⟩,
  ⟨stems ["kni", "wi", "li"], ["fe"], "ves"⟩,
  ⟨anyStem, ["sis"], "ses"⟩,
  ⟨stems ["apheli", "hyperbat", "periheli", "asyndet", "noumen", "phenomen", "criteri", "organ",
      "prolegomen", "hedr", "automat"], ["a", "on"], "a"⟩,
  ⟨stems ["agend", "addend", "millenni", "dat", "extrem", "bacteri", "desiderat", "strat",
      "candelabr", "errat", "ov", "symposi", "curricul", "automat", "quor"], ["a", "um"], "a"⟩,
  ⟨stems ["her", "at", "gr"], ["o"], "oes"⟩,
  ⟨stems ["seraph", "cherub"], ["im", ""], "im"⟩,
  ⟨stems ["alumn", "alg", "vertebr"], ["a", "ae"], "ae"⟩,
  ⟨stems ["alumn", "syllab", "octop", "vir", "radi", "nucle", "fung", "cact", "stimul", "termin",
      "bacill", "foc", "uter", "loc", "strat"], ["us", "i"], "i"⟩,
  ⟨[.noneOf ['l'] :: Stem.ofString "ias", .oneOf (chars "aeiou") :: Stem.ofString "las",
      .oneOf (chars "emjzr") :: Stem.ofString "as", .oneOf (chars "iu") :: Stem.ofString "am"],
    [""], ""⟩,
  ⟨[[.oneOf ['e'], .oneOf (chars "mn"), .oneOf ['u']]], ["s", ""], "s"⟩,
  ⟨(.noneOf (chars "aou") :: Stem.ofString "us") :: stems ["alias", "tlas", "gas", "ris"],
    [""], "es"⟩,
  ⟨stems ["ax", "test"], ["is"], "es"⟩,
  ⟨[.noneOf (chars "aeiou") :: Stem.ofString "ese"], [""], ""⟩,
  ⟨anyStem, ["s"], "s"⟩]

/-! ## Words outside the rules -/

/-- Words that have no plural. -/
def uncountableWords : List String := [
    "accommodation", "adulthood", "advertising", "advice", "aggression", "aid", "air", "aircraft",
    "alcohol", "anger", "applause", "arithmetic", "assistance", "athletics", "bacon", "baggage",
    "beef", "biology", "blood", "botany", "bread", "butter", "carbon", "cardboard", "cash",
    "chalk", "chaos", "chess", "crossroads", "countryside", "dancing", "deer", "dignity", "dirt",
    "dust", "economics", "education", "electricity", "engineering", "enjoyment", "envy",
    "equipment", "ethics", "evidence", "evolution", "fame", "fiction", "flour", "flu", "food",
    "fuel", "fun", "furniture", "gallows", "garbage", "garlic", "genetics", "gold", "golf",
    "gossip", "grammar", "gratitude", "grief", "guilt", "gymnastics", "happiness", "hardware",
    "harm", "hate", "hatred", "health", "heat", "help", "homework", "honesty", "honey",
    "hospitality", "housework", "humour", "hunger", "hydrogen", "ice", "importance", "inflation",
    "information", "innocence", "iron", "irony", "jam", "jewelry", "judo", "karate", "knowledge",
    "lack", "laughter", "lava", "leather", "leisure", "lightning", "linguine", "linguini",
    "linguistics", "literature", "litter", "livestock", "logic", "loneliness", "luck", "luggage",
    "macaroni", "machinery", "magic", "management", "mankind", "marble", "mathematics",
    "mayonnaise", "measles", "methane", "milk", "money", "mud", "music", "mumps", "nature",
    "news", "nitrogen", "nonsense", "nurture", "nutrition", "obedience", "obesity", "oxygen",
    "pasta", "patience", "physics", "poetry", "pollution", "poverty", "pride", "psychology",
    "publicity", "punctuation", "quartz", "racism", "relaxation", "reliability", "research",
    "respect", "revenge", "rice", "rubbish", "rum", "safety", "scenery", "seafood", "seaside",
    "series", "shame", "sheep", "shopping", "sleep", "smoke", "smoking", "snow", "soap",
    "software", "soil", "spaghetti", "species", "steam", "stuff", "stupidity", "sunshine",
    "symmetry", "tennis", "thirst", "thunder", "timber", "traffic", "transportation", "trust",
    "underwear", "unemployment", "unity", "validity", "veal", "vegetation", "vegetarianism",
    "vengeance", "violence", "vitality", "warmth", "wealth", "weather", "welfare", "wheat",
    "wildlife", "wisdom", "yoga", "zinc", "zoology"]

/-- Words whose plural is listed. -/
def listedPlurals : List (String × String) := [
  ("ox", "oxen"), ("man", "men"), ("woman", "women"), ("die", "dice"), ("yes", "yeses"),
  ("foot", "feet"), ("eave", "eaves"), ("goose", "geese"), ("tooth", "teeth"), ("quiz", "quizzes")]

/-- The plural of a lower-case word. -/
def plural (word : String) : String :=
  if uncountableWords.contains word then word
  else match listedPlurals.lookup word with
    | some listed => listed
    | none => match pluralRules.findSome? (·.inflect? word.toList) with
      | some inflected => String.ofList inflected
      | none => word ++ "s"

/-! ## Identifiers -/

/-- Words whose plural replaces the whole word, not a part of it. -/
def wholeWordPlurals : List (String × String) :=
  [("person", "people"), ("mouse", "mice"), ("louse", "lice")]

/-- Cuts an identifier, written backwards, before its last upper-case character that follows a
lower-case one; `hump` collects the part after the cut. -/
def splitHump (hump : List Char) : List Char → List Char × List Char
  | [] => ([], hump)
  | c :: rest =>
    match rest with
    | [] => ([], c :: hump)
    | before :: _ =>
      if isUpper c && isLower before then (rest.reverse, c :: hump)
      else splitHump (c :: hump) rest

/-- Everything before the last hump of an identifier, and the last hump. -/
def lastHump (name : String) : String × String :=
  let (head, hump) := splitHump [] name.toList.reverse
  (String.ofList head, String.ofList hump)

/-- Gives `inflected` the case of `word`: all upper, first upper, or as it is. -/
def matchCase (word inflected : String) : String :=
  if word.length > 1 && !word.toList.any isLower then upperCase inflected
  else match word.toList, inflected.toList with
    | first :: _, c :: rest =>
      if isUpper first then String.ofList (upperChars c ++ rest) else inflected
    | _, _ => inflected

/-- The plural of an identifier, as `inflect` gives the plurals of lower-case words. -/
def pluralizeBy (inflect : String → String) (name : String) : String :=
  let (head, word) := lastHump name
  let singular := lowerCase word
  let inflected := (wholeWordPlurals.lookup singular).getD (inflect singular)
  if inflected == singular then name ++ "s" else head ++ matchCase word inflected

/-- The plural of an identifier. -/
def pluralize (name : String) : String := pluralizeBy plural name

end ResourceApi.Text

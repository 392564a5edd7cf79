/-!
# Dotted paths

A path is a text whose segments are separated by dots; every text is a path, the empty one has one
empty segment.
-/

namespace ResourceApi.Path

/-- Cuts at every dot; `segment` holds the current segment, last character first. -/
def cut (segment : List Char) : List Char → List (List Char)
  | [] => [segment.reverse]
  | c :: rest => if c == '.' then segment.reverse :: cut [] rest else cut (c :: segment) rest

def segments (path : String) : List String := (cut [] path.toList).map String.ofList

def join (segments : List String) : String := ".".intercalate segments

def depth (path : String) : Nat := (segments path).length

/-- `path` is `ancestor` or lies below it. -/
def isWithin (ancestor path : String) : Bool :=
  path == ancestor || (ancestor ++ ".").toList.isPrefixOf path.toList

end ResourceApi.Path

import ResourceApi.Fragment

/-!
# Dependencies of a fragment

The fragments that a fragment needs are those it reaches through spreads, itself included, depth first
and each once.  A spread of a fragment that is not defined is passed over.

The search keeps a stack of names still to be visited, nearest first.  It ends because a step either
shortens the stack or visits one more fragment of a finite set.
-/

namespace ResourceApi.FragmentSet

/-- One visit after another; `fuel` bounds their number. -/
def visit (set : FragmentSet) (fuel : Nat) (visited : List Fragment) :
    List String → List Fragment
  | [] => visited
  | name :: rest =>
    match fuel with
    | 0 => visited
    | fuel + 1 =>
      match set.get? name with
      | none => visit set fuel visited rest
      | some fragment =>
        if visited.any (·.name == fragment.name) then visit set fuel visited rest
        else visit set fuel (visited ++ [fragment]) (fragment.spreads ++ rest)

/-- Every visit takes one name off the stack, and the names put on it are the spreads of fragments
visited for the first time. -/
def visitBound (set : FragmentSet) : Nat :=
  (set.definitions.values.flatMap (·.spreads)).length + 1

/-- The fragments reached from `root`, in the order of a depth-first search. -/
def dependencies (set : FragmentSet) (root : String) : List Fragment :=
  set.visit set.visitBound [] [root]

end ResourceApi.FragmentSet

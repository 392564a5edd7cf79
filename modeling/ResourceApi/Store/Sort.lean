import ResourceApi.Store.Filter

/-!
# Sorting records

Records are sorted by a list of keys, each a dotted path with a direction.  A record without a value
at the path comes before those that have one; values that do not compare leave the order to the next
key.  Sorting is stable where this comparison is an order.
-/

namespace ResourceApi

structure SortKey where
  field : String
  descending : Bool
deriving DecidableEq, Repr

namespace SortKey

/-- The keys of a sort document such as `name: 1, age: -1`; entries without an integer are skipped. -/
def ofDocument (document : Json) : List SortKey :=
  (document.members?.getD []).filterMap fun (field, direction) ↦
    direction.signed?.map fun n ↦ ⟨field, n < 0⟩

/-- The order of two values at the path of a key, ascending. -/
def orderFound : Option Json → Option Json → Ordering
  | none, none => .eq
  | none, some _ => .lt
  | some _, none => .gt
  | some x, some y => (x.order? y).getD .eq

def order (key : SortKey) (x y : Json) : Ordering :=
  let ascending := orderFound (x.lookup key.field) (y.lookup key.field)
  if key.descending then ascending.swap else ascending

/-- The order by the first key that tells two records apart. -/
def orderBy (keys : List SortKey) (x y : Json) : Ordering :=
  keys.foldr (fun key rest ↦ (key.order x y).then rest) .eq

/-- Sorts records by the keys, keeping the order of those that are equal on all of them.

Values of mixed kinds do not compare and count as equal, so on records that hold such values at one path
the comparison is no total order: of two numbers one is less, and a text is equal to both.  Nothing is
promised of the order there: what comes out is what this merge sort makes of it, where another sort may
give another order, or none. -/
def sort (keys : List SortKey) (records : List Json) : List Json :=
  records.mergeSort fun x y ↦ orderBy keys x y != .gt

end SortKey
end ResourceApi

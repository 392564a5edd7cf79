/-!
# Entries

Insertion-ordered maps from names, as association lists.  Writing a name that is present replaces
its value in place; a new name goes to the end.  As long as entries are built by `put`, no name
occurs twice.
-/

namespace ResourceApi

abbrev Entries (α : Type) := List (String × α)

namespace Entries

variable {α β : Type}

def keys (entries : Entries α) : List String := entries.map Prod.fst

def values (entries : Entries α) : List α := entries.map Prod.snd

def get? (entries : Entries α) (key : String) : Option α := entries.lookup key

def has (entries : Entries α) (key : String) : Bool := (get? entries key).isSome

def put (key : String) (value : α) : Entries α → Entries α
  | [] => [(key, value)]
  | (k, v) :: rest => if k == key then (k, value) :: rest else (k, v) :: put key value rest

/-- Applies `f` to the value under `key`, if there is one. -/
def adjust (key : String) (f : α → α) : Entries α → Entries α
  | [] => []
  | (k, v) :: rest => if k == key then (k, f v) :: rest else (k, v) :: adjust key f rest

/-- Drops the entry under `key`; the others keep their order. -/
def erase (key : String) : Entries α → Entries α
  | [] => []
  | (k, v) :: rest => if k == key then rest else (k, v) :: erase key rest

/-- Writes the pairs one after another: the first place and the last value of a name win. -/
def ofList (pairs : List (String × α)) : Entries α :=
  pairs.foldl (fun entries (key, value) ↦ put key value entries) []

@[simp]
theorem get?_nil (key : String) : get? ([] : Entries α) key = none := rfl

theorem get?_cons (k : String) (v : α) (rest : Entries α) (key : String) :
    get? ((k, v) :: rest) key = if key == k then some v else get? rest key := by
  rw [get?, List.lookup_cons]
  cases key == k <;> rfl

theorem get?_put_self (key : String) (value : α) (entries : Entries α) :
    get? (put key value entries) key = some value := by
  induction entries with
  | nil => simp [put, get?_cons]
  | cons entry rest ih =>
    obtain ⟨k, v⟩ := entry
    by_cases h : k = key
    · simp [put, get?_cons, h]
    · simp [put, get?_cons, h, Ne.symm h, ih]

theorem get?_put_of_ne (key other : String) (h : other ≠ key) (value : α) (entries : Entries α) :
    get? (put key value entries) other = get? entries other := by
  induction entries with
  | nil => simp [put, get?_cons, h]
  | cons entry rest ih =>
    obtain ⟨k, v⟩ := entry
    by_cases hk : k = key
    · subst hk
      simp [put, get?_cons, h]
    · simp [put, get?_cons, hk, ih]

end Entries
end ResourceApi

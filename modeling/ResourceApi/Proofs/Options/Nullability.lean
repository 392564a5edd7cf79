import ResourceApi.Options.Field
import ResourceApi.Proofs.Entries
import ResourceApi.Proofs.Except

/-!
# Nullability vectors

Options give a vector for all types of a kind, or a table with vectors for some of them.  Whatever is
given, and however long it is, a field ends up with one entry for every level: the given one, or the
default of the type that holds it.
-/

namespace ResourceApi

theorem Segment.ofKey?_eq_some_iff {key : String} {segment : Segment} :
    Segment.ofKey? key = some segment ↔ key = segment.key := by
  constructor
  · intro h
    have hfound := List.find?_some h
    exact (eq_of_beq hfound).symm
  · rintro rfl
    exact Segment.ofKey?_key segment

theorem Segment.key_inj {source target : Segment} : source.key = target.key ↔ source = target := by
  rw [← Segment.ofKey?_eq_some_iff, Segment.ofKey?_key, Option.some_inj]

theorem getElem?_padVector {depth level : Nat} (h : level ≤ depth) (given : List Bool)
    (list innermost : Bool) : (padVector given depth list innermost)[level]? =
      some (given[level]?.getD (if level == depth then innermost else list)) := by
  unfold padVector
  rw [List.getElem?_map, List.getElem?_range (Nat.lt_succ_of_le h)]
  rfl

namespace NullableVectors

variable {vectors next : NullableVectors} {depth : Nat} {required : Bool} {spec value : Json}

/-! ## What is given -/

/-- The booleans that a list consists of. -/
def flags (value : Json) : List Bool :=
  (value.items?.bind fun items ↦ items.mapM Json.bool?).getD []

/-- The vector for the object type of a segment: the one that is given for all segments, or that under
the key of the segment, the last one if the key is repeated. -/
def givenObject (spec : Json) (segment : Segment) : List Bool :=
  match spec.get? "object" with
  | some (.obj members) => ((Entries.get? members.reverse segment.key).map flags).getD []
  | some value => flags value
  | none => []

/-- The vector for the input type of an action: the one that is given for both actions, or that under
the key of the action. -/
def givenInput (spec : Json) (action : InputAction) : List Bool :=
  match spec.get? "input" with
  | some (.obj members) => ((Entries.get? members action.key).map flags).getD []
  | some value => flags value
  | none => []

theorem eq_flags_of_readVector {path : String} {given : List Bool}
    (h : readVector path value = .ok given) : given = flags value := by
  unfold readVector at h
  unfold flags
  split at h
  · rename_i vector hvector
    cases h
    rw [hvector]
    rfl
  · cases h

/-! ## What is read -/

theorem readObject_cons (key : String) (value : Json) (rest : List (String × Json)) :
    vectors.readObject depth required (.obj ((key, value) :: rest)) =
      (match Segment.ofKey? key with
        | none => .ok vectors
        | some segment => do
          let given ← readVector ("nullable.object." ++ key) value
          return vectors.setObject segment (padObject given depth required)) >>= fun vectors ↦
        vectors.readObject depth required (.obj rest) :=
  rfl

/-- In a table each entry replaces what stands for its segment, so the last one counts. -/
theorem readObject_table {members : List (String × Json)}
    (h : vectors.readObject depth required (.obj members) = .ok next) :
    next.input = vectors.input ∧ ∀ segment, next.object segment =
      ((Entries.get? members.reverse segment.key).map fun value ↦
        padObject (flags value) depth required).getD (vectors.object segment) := by
  induction members generalizing vectors with
  | nil =>
    cases h
    exact ⟨rfl, fun _ ↦ rfl⟩
  | cons entry rest ih =>
    obtain ⟨key, value⟩ := entry
    rw [readObject_cons] at h
    obtain ⟨middle, hmiddle, hrest⟩ := Except.bind_eq_ok_iff.mp h
    obtain ⟨hinput, hobject⟩ := ih hrest
    simp only [hinput, hobject, List.reverse_cons, Entries.get?_append]
    split at hmiddle
    · rename_i hkey
      cases hmiddle
      refine ⟨rfl, fun segment ↦ ?_⟩
      have hother : segment.key ≠ key := fun heq ↦ by
        simp [Segment.ofKey?_eq_some_iff.mpr heq.symm] at hkey
      cases hlater : Entries.get? rest.reverse segment.key <;>
        simp [Entries.get?_cons, hother]
    · rename_i source hkey
      obtain rfl := Segment.ofKey?_eq_some_iff.mp hkey
      obtain ⟨given, hgiven, hset⟩ := Except.bind_eq_ok_iff.mp hmiddle
      cases hset
      refine ⟨rfl, fun segment ↦ ?_⟩
      simp only [setObject, eq_flags_of_readVector hgiven, Entries.get?_cons, Entries.get?_nil]
      by_cases hsame : segment = source <;>
        cases hlater : Entries.get? rest.reverse segment.key <;>
        simp [hsame, Segment.key_inj]

theorem object_of_readObject (found : spec.get? "object" = some value)
    (default : ∀ segment, vectors.object segment = padObject [] depth required)
    (h : vectors.readObject depth required value = .ok next) :
    next.input = vectors.input ∧
      ∀ segment, next.object segment = padObject (givenObject spec segment) depth required := by
  unfold givenObject
  rw [found]
  cases value with
  | arr items =>
    obtain ⟨given, hgiven, hset⟩ := Except.bind_eq_ok_iff.mp h
    cases hset
    rw [eq_flags_of_readVector hgiven]
    exact ⟨rfl, fun _ ↦ rfl⟩
  | obj members =>
    obtain ⟨hinput, hobject⟩ := readObject_table h
    refine ⟨hinput, fun segment ↦ ?_⟩
    rw [hobject, default]
    cases hentry : Entries.get? members.reverse segment.key <;> simp [hentry]
  | _ => cases h

/-- The entry of one action in a table of vectors. -/
theorem input_of_entry {members : List (String × Json)} {action : InputAction}
    (h : (match Entries.get? members action.key with
      | none => .ok vectors
      | some value => do
        let given ← readVector ("nullable.input." ++ action.key) value
        return vectors.setInput action (padInput given depth required action)) =
          Except.ok next) :
    next.object = vectors.object ∧ ∀ other, next.input other =
      if other = action then ((Entries.get? members action.key).map fun value ↦
        padInput (flags value) depth required action).getD (vectors.input action)
      else vectors.input other := by
  split at h
  · rename_i hmissing
    cases h
    rw [hmissing]
    refine ⟨rfl, fun other ↦ ?_⟩
    split
    · rename_i hsame
      rw [hsame]
      rfl
    · rfl
  · rename_i value hfound
    obtain ⟨given, hgiven, hset⟩ := Except.bind_eq_ok_iff.mp h
    cases hset
    rw [hfound, eq_flags_of_readVector hgiven]
    exact ⟨rfl, fun _ ↦ rfl⟩

theorem readInput_table {members : List (String × Json)}
    (h : vectors.readInput depth required (.obj members) = .ok next) :
    next.object = vectors.object ∧ ∀ action, next.input action =
      ((Entries.get? members action.key).map fun value ↦
        padInput (flags value) depth required action).getD (vectors.input action) := by
  simp only [readInput, InputAction.all, List.foldlM_cons, List.foldlM_nil] at h
  obtain ⟨created, hcreated, h⟩ := Except.bind_eq_ok_iff.mp h
  obtain ⟨updated, hupdated, h⟩ := Except.bind_eq_ok_iff.mp h
  cases h
  obtain ⟨hobject, hcreate⟩ := input_of_entry hcreated
  obtain ⟨hobject', hupdate⟩ := input_of_entry hupdated
  refine ⟨hobject'.trans hobject, fun action ↦ ?_⟩
  cases action <;> simp [hcreate, hupdate]

theorem input_of_readInput (default : ∀ action, vectors.input action = padInput [] depth required action)
    (h : (match spec.get? "input" with
      | some value => vectors.readInput depth required value
      | none => .ok vectors) = Except.ok next) :
    next.object = vectors.object ∧
      ∀ action, next.input action = padInput (givenInput spec action) depth required action := by
  unfold givenInput
  split at h
  · rename_i value hfound
    rw [hfound]
    cases value with
    | arr items =>
      obtain ⟨given, hgiven, hset⟩ := Except.bind_eq_ok_iff.mp h
      cases hset
      rw [eq_flags_of_readVector hgiven]
      exact ⟨rfl, fun _ ↦ rfl⟩
    | obj members =>
      obtain ⟨hobject, hinput⟩ := readInput_table h
      refine ⟨hobject, fun action ↦ ?_⟩
      rw [hinput, default]
      cases hentry : Entries.get? members action.key <;> simp [hentry]
    | _ => cases h
  · rename_i hmissing
    cases h
    rw [hmissing]
    exact ⟨rfl, default⟩

/-- Vectors that are read are the given ones, filled up with the defaults. -/
theorem eq_pad_of_read (h : read spec depth required = .ok vectors) :
    (∀ segment, vectors.object segment = padObject (givenObject spec segment) depth required) ∧
      ∀ action, vectors.input action = padInput (givenInput spec action) depth required action := by
  unfold read at h
  dsimp only at h
  split at h
  · rename_i value hfound
    obtain ⟨middle, hmiddle, hnext⟩ := Except.bind_eq_ok_iff.mp h
    obtain ⟨hkept, hobject⟩ := object_of_readObject hfound (fun _ ↦ rfl) hmiddle
    obtain ⟨hsame, hinput⟩ := input_of_readInput (congrFun hkept) hnext
    exact ⟨fun segment ↦ by rw [hsame, hobject], hinput⟩
  · rename_i hmissing
    rw [Except.ok_bind] at h
    obtain ⟨hsame, hinput⟩ := input_of_readInput (fun _ ↦ rfl) h
    refine ⟨fun segment ↦ ?_, hinput⟩
    unfold givenObject
    rw [hsame, hmissing]
    rfl

end NullableVectors

theorem FieldConfig.nullable_of_resolve {options : Json} {node : GenerationConfig} {depth : Nat}
    {required reference : Bool} {field : FieldConfig}
    (h : resolve options node depth required reference = .ok field) :
    NullableVectors.read (options.get "nullable") depth required = .ok field.nullable := by
  unfold resolve at h
  dsimp only at h
  split at h
  case h_3 => cases h
  all_goals
    split at h <;>
    · obtain ⟨config, -, h⟩ := Except.bind_eq_ok_iff.mp h
      obtain ⟨nullable, hnullable, h⟩ := Except.bind_eq_ok_iff.mp h
      split at h <;>
      · obtain ⟨mapper, -, h⟩ := Except.bind_eq_ok_iff.mp h
        cases h
        exact hnullable

end ResourceApi

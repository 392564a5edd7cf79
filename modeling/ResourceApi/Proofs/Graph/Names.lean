import ResourceApi.Graph
import ResourceApi.Model.Classify
import ResourceApi.Proofs.Text.Case

/-!
# Names of generated types

The name of a generated type tells its kind, and for objects and inputs also the model type and the
segment or action: generated names end in a word of their kind, and the names of enums hold no
lower-case letter.
-/

namespace ResourceApi

/-! ## Objects and inputs -/

/-- A name that starts with the label of a segment and has a given ending tells the segment and what is
between. -/
theorem Segment.eq_of_append {segment segment' : Segment} {middle middle' ending : String}
    (h : segment.label ++ middle ++ ending = segment'.label ++ middle' ++ ending) :
    segment = segment' ∧ middle = middle' := by
  have hlist := congrArg String.toList h
  simp only [String.toList_append, List.append_assoc] at hlist
  have hsegment : segment = segment' := by
    cases segment <;> cases segment' <;> first | rfl | simp [Segment.label] at hlist
  subst hsegment
  have hmiddle := List.append_cancel_right (List.append_cancel_left hlist)
  exact ⟨rfl, String.toList_injective hmiddle⟩

theorem objectTypeName_injective {segment segment' : Segment} {base base' : String}
    (h : objectTypeName segment base = objectTypeName segment' base') :
    segment = segment' ∧ base = base' :=
  Segment.eq_of_append h

theorem inputTypeName_injective {action action' : InputAction} {base base' : String}
    (h : inputTypeName action base = inputTypeName action' base') :
    action = action' ∧ base = base' := by
  have hlist := congrArg String.toList h
  simp only [inputTypeName, String.toList_append, List.append_assoc] at hlist
  have haction : action = action' := by
    cases action <;> cases action' <;> first | rfl | simp [InputAction.label] at hlist
  subst haction
  have hbase := List.append_cancel_right (List.append_cancel_left hlist)
  exact ⟨rfl, String.toList_injective hbase⟩

/-! ## Kinds -/

namespace TypeKind

/-- The names that types of a kind have. -/
def Names : TypeKind → String → Prop
  | .object, name => ∃ segment base, name = objectTypeName segment base
  | .input action, name => ∃ base, name = inputTypeName action base
  | .interface, name => ∃ base, name = interfaceTypeName base
  | .union, name => ∃ base, name = unionTypeName base
  | .enumeration, name => ∀ c ∈ name.toList, c.isLower = false

theorem names_object (segment : Segment) (base : String) :
    object.Names (objectTypeName segment base) := ⟨segment, base, rfl⟩

theorem names_input (action : InputAction) (base : String) :
    (input action).Names (inputTypeName action base) := ⟨base, rfl⟩

theorem names_interface (base : String) : interface.Names (interfaceTypeName base) := ⟨base, rfl⟩

theorem names_union (base : String) : union.Names (unionTypeName base) := ⟨base, rfl⟩

/-- The last letters of a name, last one first. -/
def lastLetters (name : String) : List Char := name.toList.reverse.take 3

/-- The last letters of the names of a kind; enums have no ending of their own. -/
def ending? : TypeKind → Option (List Char)
  | .object => some ['t', 'c', 'e']
  | .input _ => some ['t', 'u', 'p']
  | .interface => some ['e', 'c', 'a']
  | .union => some ['n', 'o', 'i']
  | .enumeration => none

theorem lastLetters_append (front back : String) (h : 3 ≤ back.toList.length) :
    lastLetters (front ++ back) = lastLetters back := by
  unfold lastLetters
  rw [String.toList_append, List.reverse_append, List.take_append_of_le_length (by simpa using h)]

theorem lastLetters_of_names {kind : TypeKind} {name : String} {ending : List Char}
    (h : kind.Names name) (hending : kind.ending? = some ending) : lastLetters name = ending := by
  cases kind with
  | object =>
    obtain ⟨segment, base, rfl⟩ := h
    cases hending
    exact lastLetters_append _ "Object" (by decide)
  | input action =>
    obtain ⟨base, rfl⟩ := h
    cases hending
    exact lastLetters_append _ "Input" (by decide)
  | interface =>
    obtain ⟨base, rfl⟩ := h
    cases hending
    exact lastLetters_append _ "Interface" (by decide)
  | union =>
    obtain ⟨base, rfl⟩ := h
    cases hending
    exact lastLetters_append _ "Union" (by decide)
  | enumeration => cases hending

theorem exists_isLower_ending {kind : TypeKind} {ending : List Char}
    (h : kind.ending? = some ending) : ∃ c ∈ ending, c.isLower = true := by
  cases kind <;> cases h <;> exact ⟨_, List.mem_cons_self, by decide⟩

/-- A name without lower-case letters is the name of an enum. -/
theorem eq_enumeration_of_names {kind : TypeKind} {name : String} (h : kind.Names name)
    (hlower : ∀ c ∈ name.toList, c.isLower = false) : kind = .enumeration := by
  have hletters : ∀ c ∈ lastLetters name, c.isLower = false := fun c hc ↦
    hlower c (List.mem_reverse.mp (List.mem_of_mem_take hc))
  cases hkind : kind.ending? with
  | none => cases kind <;> first | rfl | cases hkind
  | some ending =>
    rw [lastLetters_of_names h hkind] at hletters
    obtain ⟨c, hc, hclower⟩ := exists_isLower_ending hkind
    exact absurd hclower (by simp [hletters c hc])

theorem Names.unique {kind kind' : TypeKind} {name : String} (h : kind.Names name)
    (h' : kind'.Names name) : kind = kind' := by
  cases hkind : kind.ending? with
  | none =>
    obtain rfl : kind = .enumeration := by cases kind <;> first | rfl | cases hkind
    exact (eq_enumeration_of_names h' h).symm
  | some ending =>
    cases hkind' : kind'.ending? with
    | none =>
      obtain rfl : kind' = .enumeration := by cases kind' <;> first | rfl | cases hkind'
      exact eq_enumeration_of_names h h'
    | some ending' =>
      have heq : ending = ending' :=
        (lastLetters_of_names h hkind).symm.trans (lastLetters_of_names h' hkind')
      subst heq
      cases kind <;> cases hkind <;> cases kind' <;> cases hkind' <;> try rfl
      obtain ⟨base, rfl⟩ := h
      obtain ⟨base', hbase⟩ := h'
      rw [(inputTypeName_injective hbase).1]

/-- A name with a lower-case letter whose ending is that of no kind is no name of a generated type. -/
theorem not_names {kind : TypeKind} {name : String}
    (endings : ∀ ending, kind.ending? = some ending → lastLetters name ≠ ending)
    (lower : ∃ c ∈ name.toList, c.isLower = true) : ¬kind.Names name := by
  intro h
  cases hkind : kind.ending? with
  | none =>
    obtain rfl : kind = .enumeration := by cases kind <;> first | rfl | cases hkind
    obtain ⟨c, hc, hlower⟩ := lower
    cases (h c hc).symm.trans hlower
  | some ending => exact endings ending hkind (lastLetters_of_names h hkind)

end TypeKind

theorem names_enumTypeName (parent name : String) :
    TypeKind.enumeration.Names (ClassifiedField.enumTypeName parent name) :=
  fun _ hc ↦ Text.isLower_upperSnakeCase hc

end ResourceApi

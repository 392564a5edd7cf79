import ResourceApi.Proofs.Entries
import ResourceApi.Proofs.Literal.Number

/-!
# Literals that can be read

A literal as it is read is formed: its integers have 64 bits, its names are names, no enum value in it
starts with a reserved word, its objects do not repeat a name, and a constant has no variables.
-/

namespace ResourceApi.Literal

open Text Text.Reader Grammar

/-! ## Formed literals -/

/-- The text is the name of an enum value: it starts with no reserved word. -/
def isEnumName (name : String) : Bool :=
  Name.isValid name.toList && (reserved name.toList).isNone

mutual

/-- The literal is a constant that can be read. -/
def Formed : Literal → Prop
  | .int value => -(Json.signedBound : Int) ≤ value ∧ value < Json.unsignedBound
  | .enumeration name => isEnumName name = true
  | .list items => FormedItems items
  | .object members => (Entries.keys members).Nodup ∧ FormedMembers members
  | .variable _ => False
  | _ => True

def FormedItems : List Literal → Prop
  | [] => True
  | value :: rest => value.Formed ∧ FormedItems rest

def FormedMembers : List (String × Literal) → Prop
  | [] => True
  | (name, value) :: rest => (Name.isValid name.toList = true ∧ value.Formed) ∧ FormedMembers rest

end

theorem formedItems_iff {items : List Literal} :
    FormedItems items ↔ ∀ value ∈ items, value.Formed := by
  induction items with
  | nil => simp [FormedItems]
  | cons value rest ih => simp [FormedItems, ih]

theorem formedMembers_iff {members : List (String × Literal)} : FormedMembers members ↔
    ∀ member ∈ members, Name.isValid member.1.toList = true ∧ member.2.Formed := by
  induction members with
  | nil => simp [FormedMembers]
  | cons member rest ih => simp [FormedMembers, ih]

/-! ## Reserved words -/

section Words

variable {text rest : List Char} {word : String}

theorem exactly_eq_none_iff : exactly word text = none ↔ dropWord word.toList text = none := by
  unfold exactly
  rw [Option.map_eq_none_iff]

theorem reserved_eq_none_iff : reserved text = none ↔
    ∀ word ∈ ["true", "false", "null"], dropWord word.toList text = none := by
  unfold reserved
  simp only [orElse_eq_none_iff, seqRight_pure_eq_none_iff, exactly_eq_none_iff, List.forall_mem_cons]
  simp

theorem reserved_append (h : reserved text = none) (delimited : Delimited rest) :
    reserved (text ++ rest) = none := by
  rw [reserved_eq_none_iff] at h ⊢
  intro word hword
  refine dropWord_append_eq_none (h word hword) fun c hc hmem ↦ ?_
  have hwords : ["true", "false", "null"].all (·.toList.all Name.isContinue) = true := by decide
  have hcontinue := List.all_eq_true.mp (List.all_eq_true.mp hwords word hword) c hmem
  cases hcontinue.symm.trans (delimited.not_continue c hc)

theorem reserved_of_append (h : reserved (text ++ rest) = none) : reserved text = none := by
  rw [reserved_eq_none_iff] at h ⊢
  intro word hword
  cases hdrop : dropWord word.toList text with
  | none => rfl
  | some left => cases (dropWord_append_of_eq_some hdrop rest).symm.trans (h word hword)

end Words

/-! ## What is read is formed -/

section Reading

variable {text rest : List Char} {name : String} {value : Literal}

theorem exists_of_token {α : Type} {p : Reader α} {read : α × List Char} (h : token p text = some read) :
    ∃ rest, p text = some (read.1, rest) := by
  obtain ⟨⟨value, after⟩, hp, hread⟩ := Option.bind_eq_some_iff.mp
    (show (p text).bind (fun read ↦ some (read.1, skipFrom false read.2)) = some read from h)
  cases hread
  exact ⟨after, hp⟩

theorem nameChars_of_reads {chars : List Char} (h : nameChars text = some (chars, rest)) :
    Name.isValid chars = true ∧ text = chars ++ rest := by
  obtain ⟨first, after, hfirst, hmore⟩ := exists_of_bind h
  obtain ⟨rfl, hstart⟩ := satisfy_eq_some hfirst
  obtain ⟨more, left, hrun, hread⟩ := exists_of_bind hmore
  cases hrun
  cases hread
  refine ⟨?_, by simp⟩
  exact Bool.and_eq_true_iff.mpr ⟨hstart, List.all_takeWhile⟩

theorem name_of_reads (h : Grammar.name text = some (name, rest)) :
    Name.isValid name.toList = true ∧ ∃ after, text = name.toList ++ after := by
  obtain ⟨_, hread⟩ := exists_of_token h
  obtain ⟨chars, after, hchars, rfl⟩ := exists_of_map hread
  rw [String.toList_ofList]
  exact (nameChars_of_reads hchars).imp_right fun htext ↦ ⟨after, htext⟩

theorem enumName_of_reads (h : enumName text = some (name, rest)) : isEnumName name = true := by
  obtain ⟨⟨⟩, after, habsent, hname⟩ := exists_of_seqRight h
  unfold absent at habsent
  split at habsent
  · cases habsent
  · rename_i hreserved
    cases habsent
    obtain ⟨hvalid, more, rfl⟩ := name_of_reads hname
    unfold isEnumName
    rw [hvalid, reserved_of_append hreserved]
    rfl

theorem formed_of_number (h : number text = some (value, rest)) : value.Formed := by
  obtain ⟨_, hread⟩ := exists_of_token h
  obtain ⟨literal, after, -, hread⟩ := exists_of_bind hread
  obtain ⟨⟨⟩, left, -, hread⟩ := exists_of_bind hread
  cases hnumber : literal.toJson? with
  | none =>
    rw [hnumber] at hread
    cases hread
  | some json =>
    rw [hnumber] at hread
    unfold Json.Literal.toJson? at hnumber
    split at hnumber
    · rename_i hint
      cases hnumber
      cases hread
      exact Json.toInt?_bounds hint
    · obtain ⟨x, -, rfl⟩ := Option.map_eq_some_iff.mp hnumber
      cases hread
      exact trivial

theorem formed_of_reserved (h : reserved text = some (value, rest)) : value.Formed := by
  rcases or_of_orElse h with htrue | hother
  · obtain ⟨_, _, _, hread⟩ := exists_of_seqRight htrue
    cases hread
    exact trivial
  · rcases or_of_orElse hother with hfalse | hnull
    · obtain ⟨_, _, _, hread⟩ := exists_of_seqRight hfalse
      cases hread
      exact trivial
    · obtain ⟨_, _, _, hread⟩ := exists_of_seqRight hnull
      cases hread
      exact trivial

theorem formed_of_scalarLiteral (h : scalarLiteral text = some (value, rest)) : value.Formed := by
  rcases or_of_orElse h with hnumber | hother
  · exact formed_of_number hnumber
  · rcases or_of_orElse hother with hstring | hword
    · obtain ⟨_, _, _, rfl⟩ := exists_of_map hstring
      exact trivial
    · rcases or_of_orElse hword with hreserved | henum
      · obtain ⟨after, hread⟩ := exists_of_token hreserved
        exact formed_of_reserved hread
      · obtain ⟨name, after, hname, rfl⟩ := exists_of_map henum
        exact enumName_of_reads hname

/-- A constant as it is read is formed. -/
theorem formed_of_literalWith {fuel : Nat} (h : literalWith true fuel text = some (value, rest)) :
    value.Formed := by
  induction fuel generalizing text value rest with
  | zero => cases h
  | succ fuel ih =>
    rcases or_of_orElse h with hvariable | hother
    · cases hvariable
    · rcases or_of_orElse hother with hscalar | hcontainer
      · exact formed_of_scalarLiteral hscalar
      · rcases or_of_orElse hcontainer with hlist | hobject
        · obtain ⟨_, opened, -, hlist⟩ := exists_of_bind hlist
          obtain ⟨items, after, hitems, hlist⟩ := exists_of_bind hlist
          obtain ⟨_, closed, -, hread⟩ := exists_of_bind hlist
          cases hread
          refine formedItems_iff.mpr fun item hitem ↦ ?_
          obtain ⟨text, rest, hread⟩ := exists_of_many hitems item hitem
          exact ih hread
        · obtain ⟨_, opened, -, hobject⟩ := exists_of_bind hobject
          obtain ⟨members, after, hmembers, hobject⟩ := exists_of_bind hobject
          obtain ⟨_, closed, -, hread⟩ := exists_of_bind hobject
          cases hread
          obtain ⟨hdistinct, hfrom⟩ := Entries.ofList_spec members
          refine ⟨hdistinct, formedMembers_iff.mpr fun member hmember ↦ ?_⟩
          obtain ⟨text, rest, hread⟩ := exists_of_many hmembers member (hfrom member hmember)
          obtain ⟨name, colon, hname, hread⟩ := exists_of_bind hread
          obtain ⟨_, before, -, hread⟩ := exists_of_bind hread
          obtain ⟨held, left, hheld, hread⟩ := exists_of_bind hread
          cases hread
          exact ⟨(name_of_reads hname).1, ih hheld⟩

end Reading

end ResourceApi.Literal

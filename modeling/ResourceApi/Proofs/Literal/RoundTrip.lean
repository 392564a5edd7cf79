import ResourceApi.Proofs.Literal.Formed

/-!
# Reading printed literals

A formed literal is read as it is printed, unless a string in it has a control character that is written
in other digits than it is read, or a float in it is read as another one.
-/

namespace ResourceApi.Literal

open Text Text.Reader Grammar

/-! ## Legible literals -/

mutual

/-- The strings and the floats in the literal are read as they are printed. -/
def Legible : Literal → Prop
  | .str text => ∀ c ∈ text.toList, isLegible c = true
  | .float x => x.readsBack = true
  | .list items => LegibleItems items
  | .object members => LegibleMembers members
  | _ => True

def LegibleItems : List Literal → Prop
  | [] => True
  | value :: rest => value.Legible ∧ LegibleItems rest

def LegibleMembers : List (String × Literal) → Prop
  | [] => True
  | (_, value) :: rest => value.Legible ∧ LegibleMembers rest

end

variable {items : List Literal} {members : List (String × Literal)}

theorem legibleItems_iff : LegibleItems items ↔ ∀ value ∈ items, value.Legible := by
  induction items with
  | nil => simp [LegibleItems]
  | cons value rest ih => simp [LegibleItems, ih]

theorem legibleMembers_iff : LegibleMembers members ↔ ∀ member ∈ members, member.2.Legible := by
  induction members with
  | nil => simp [LegibleMembers]
  | cons member rest ih => simp [LegibleMembers, ih]

theorem renderItems_eq (items : List Literal) : renderItems items = items.map render := by
  induction items with
  | nil => rfl
  | cons value rest ih => rw [renderItems, ih, List.map_cons]

def renderMember (member : String × Literal) : String := member.1 ++ ": " ++ member.2.render

theorem renderMembers_eq (members : List (String × Literal)) :
    renderMembers members = members.map renderMember := by
  induction members with
  | nil => rfl
  | cons member rest ih =>
    rw [renderMembers, ih, List.map_cons]
    rfl

/-! ## How printed literals start -/

theorem isSignificant_of_isContinue {c : Char} (h : Name.isContinue c = true) :
    isSignificant c = true := by
  cases hsignificant : isSignificant c with
  | true => rfl
  | false =>
    have hcases : c = ' ' ∨ c = ',' ∨ c = '\t' ∨ c = '\uFEFF' ∨ c = '\n' ∨ c = '\r' ∨ c = '#' := by
      simp only [isSignificant, isInsignificant, isLineEnd, Bool.and_eq_false_iff,
        Bool.not_eq_false', Bool.or_eq_true, beq_iff_eq, bne_eq_false_iff_eq] at hsignificant
      tauto
    rcases hcases with rfl | rfl | rfl | rfl | rfl | rfl | rfl <;> cases h

theorem isSignificant_of_isDigit {c : Char} (h : c.isDigit = true) : isSignificant c = true :=
  isSignificant_of_isContinue (by simp [Name.isContinue, Char.isAlphanum, h])

theorem isContinue_of_isStart {c : Char} (h : Name.isStart c = true) : Name.isContinue c = true := by
  unfold Name.isStart at h
  unfold Name.isContinue Char.isAlphanum
  rw [Bool.or_eq_true] at h ⊢
  rw [Bool.or_eq_true]
  exact h.imp_left .inl

theorem isDigit_of_isStart {c : Char} (h : Name.isStart c = true) : c.isDigit = false := by
  cases hdigit : c.isDigit with
  | false => rfl
  | true =>
    unfold Name.isStart Char.isAlpha Char.isUpper Char.isLower at h
    unfold Char.isDigit at hdigit
    simp only [Bool.or_eq_true, Bool.and_eq_true, decide_eq_true_eq, beq_iff_eq, ge_iff_le,
      UInt32.le_iff_toNat_le] at h hdigit
    rcases h with hletter | rfl
    · have hbounds : 'A'.val.toNat = 65 ∧ 'a'.val.toNat = 97 ∧ '9'.val.toNat = 57 := by decide
      omega
    · exact absurd hdigit.2 (by decide)

/-- A name starts with a character that starts a token. -/
theorem exists_name {name : List Char} (valid : Name.isValid name = true) :
    ∃ first more, name = first :: more ∧ Name.isStart first = true := by
  cases name with
  | nil => cases valid
  | cons first more =>
    unfold Name.isValid at valid
    rw [Bool.and_eq_true] at valid
    exact ⟨first, more, rfl, valid.1⟩

theorem startsToken_of_name {name : List Char} (valid : Name.isValid name = true) :
    StartsToken name := by
  obtain ⟨first, more, rfl, hstart⟩ := exists_name valid
  exact ⟨first, more, rfl, isSignificant_of_isContinue (isContinue_of_isStart hstart)⟩

/-- A number starts with a digit or a sign. -/
theorem exists_number {text : List Char} {read : Literal × List Char} (h : number text = some read) :
    ∃ first more, text = first :: more ∧ (first.isDigit = true ∨ first = '-') := by
  cases text with
  | nil => cases h.symm.trans (number_eq_none fun _ h ↦ nomatch h)
  | cons first more =>
    refine ⟨first, more, rfl, ?_⟩
    by_contra hother
    obtain ⟨hdigit, hsign⟩ := not_or.mp hother
    refine absurd h ?_
    rw [number_eq_none]
    · exact Option.some_ne_none _ ∘ Eq.symm
    · intro c hc
      cases hc
      exact ⟨Bool.eq_false_iff.mpr hdigit, hsign⟩

theorem startsToken_render {value : Literal} (formed : value.Formed) (legible : value.Legible) :
    StartsToken value.render.toList := by
  have hnumber : ∀ text read, number text = some read → StartsToken text := by
    intro text read hread
    obtain ⟨first, more, htext, hdigit | rfl⟩ := exists_number hread
    · exact ⟨first, more, htext, isSignificant_of_isDigit hdigit⟩
    · exact ⟨_, more, htext, by decide⟩
  have hnil : Delimited [] := fun _ h ↦ nomatch h
  cases value with
  | null => exact ⟨'n', ['u', 'l', 'l'], by decide, by decide⟩
  | bool value =>
    cases value with
    | true => exact ⟨'t', ['r', 'u', 'e'], by decide, by decide⟩
    | false => exact ⟨'f', ['a', 'l', 's', 'e'], by decide, by decide⟩
  | int value =>
    have hread := number_int formed.1 formed.2 hnil
    rw [List.append_nil] at hread
    exact hnumber _ _ hread
  | float x =>
    have hread := number_float legible hnil
    rw [List.append_nil] at hread
    exact hnumber _ _ hread
  | str text => exact ⟨'"', text.toList.flatMap escape ++ ['"'], by simp [render, quote], by decide⟩
  | enumeration name =>
    exact startsToken_of_name (Bool.and_eq_true_iff.mp formed).1
  | list items => exact ⟨'[', _, by simp [render]; rfl, by decide⟩
  | object members => exact ⟨'\x7b', _, by simp [render]; rfl, by decide⟩
  | «variable» name => exact formed.elim

/-! ## Reading them back -/

theorem length_le_intercalate {α : Type} (sep : String) (printed : α → String) {items : List α}
    {item : α} (mem : item ∈ items) :
    (printed item).toList.length ≤ (sep.intercalate (items.map printed)).toList.length := by
  induction items with
  | nil => cases mem
  | cons first rest ih =>
    cases rest with
    | nil =>
      rw [List.mem_singleton.mp mem]
      simp
    | cons second others =>
      have hsplit : (sep.intercalate ((first :: second :: others).map printed)).toList.length =
          (printed first).toList.length + sep.toList.length +
            (sep.intercalate ((second :: others).map printed)).toList.length := by
        simp only [List.map_cons, String.intercalate_cons_cons, String.toList_append,
          List.length_append]
      rcases List.mem_cons.mp mem with rfl | hrest
      · omega
      · have hle := ih hrest
        omega

section Words

variable {text rest : List Char}

theorem reserved_eq_none (h : ∀ c ∈ text.head?, c ≠ 't' ∧ c ≠ 'f' ∧ c ≠ 'n') :
    reserved text = none := by
  rw [reserved_eq_none_iff]
  cases text with
  | nil => decide
  | cons c rest =>
    obtain ⟨htrue, hfalse, hnull⟩ := h c rfl
    have hwords : "true".toList = ['t', 'r', 'u', 'e'] ∧ "false".toList = ['f', 'a', 'l', 's', 'e'] ∧
        "null".toList = ['n', 'u', 'l', 'l'] := by decide
    simp [hwords, dropWord, htrue.symm, hfalse.symm, hnull.symm]

theorem enumName_append {name : String} (valid : isEnumName name = true)
    (delimited : Delimited rest) :
    enumName (name.toList ++ rest) = some (name, skipFrom false rest) := by
  obtain ⟨hname, hreserved⟩ := Bool.and_eq_true_iff.mp valid
  rw [Option.isNone_iff_eq_none] at hreserved
  unfold enumName
  rw [seqRight_of_reads (absent_of_none (reserved_append hreserved delimited)),
    name_append hname delimited]

end Words

/-! ## Scalar literals -/

section Scalars

variable {text rest : List Char}

/-- A text that starts neither a number nor a string can only be a word. -/
theorem scalarLiteral_of_word (h : ∀ c ∈ text.head?, c.isDigit = false ∧ c ≠ '-' ∧ c ≠ '"') :
    scalarLiteral text = (token reserved <|> (Literal.enumeration <$> enumName)) text := by
  have hnumber : number text = none := number_eq_none fun c hc ↦ ⟨(h c hc).1, (h c hc).2.1⟩
  have hstring : string text = none := string_eq_none fun hfirst ↦ (h '"' hfirst).2.2 rfl
  unfold scalarLiteral
  rw [orElse_of_none hnumber]
  refine orElse_of_none ?_ _
  change (string text).bind _ = none
  rw [hstring]
  rfl

theorem scalarLiteral_of_reserved {word : String} {value : Literal} {first : Char} {more : List Char}
    (spelled : word.toList = first :: more)
    (plain : first.isDigit = false ∧ first ≠ '-' ∧ first ≠ '"')
    (reads : reserved (word.toList ++ rest) = some (value, rest)) :
    scalarLiteral (word.toList ++ rest) = some (value, skipFrom false rest) := by
  rw [scalarLiteral_of_word fun c hc ↦ ?_]
  · exact orElse_of_reads (token_of_reads reads) _
  · rw [spelled] at hc
    cases hc
    exact plain

theorem reserved_true (rest : List Char) :
    reserved ("true".toList ++ rest) = some (.bool true, rest) := by
  refine orElse_of_reads ?_ _
  rw [seqRight_of_reads (exactly_append _ _)]
  rfl

theorem reserved_false (rest : List Char) :
    reserved ("false".toList ++ rest) = some (.bool false, rest) := by
  have hspelled : "false".toList = ['f', 'a', 'l', 's', 'e'] := by decide
  have htrue : exactly "true" ("false".toList ++ rest) = none := by
    refine exactly_eq_none (show "true".toList = ['t', 'r', 'u', 'e'] by decide) ?_
    rw [hspelled]
    simp
  unfold reserved
  rw [orElse_of_none (seqRight_of_none htrue _)]
  refine orElse_of_reads ?_ _
  rw [seqRight_of_reads (exactly_append _ _)]
  rfl

theorem reserved_null (rest : List Char) :
    reserved ("null".toList ++ rest) = some (.null, rest) := by
  have hspelled : "null".toList = ['n', 'u', 'l', 'l'] := by decide
  have htrue : exactly "true" ("null".toList ++ rest) = none := by
    refine exactly_eq_none (show "true".toList = ['t', 'r', 'u', 'e'] by decide) ?_
    rw [hspelled]
    simp
  have hfalse : exactly "false" ("null".toList ++ rest) = none := by
    refine exactly_eq_none (show "false".toList = ['f', 'a', 'l', 's', 'e'] by decide) ?_
    rw [hspelled]
    simp
  unfold reserved
  rw [orElse_of_none (seqRight_of_none htrue _), orElse_of_none (seqRight_of_none hfalse _),
    seqRight_of_reads (exactly_append _ _)]
  rfl

theorem scalarLiteral_append {value : Literal} (formed : value.Formed) (legible : value.Legible)
    (delimited : Delimited rest) (scalar : ∀ items, value ≠ .list items)
    (scalar' : ∀ members, value ≠ .object members) :
    scalarLiteral (value.render.toList ++ rest) = some (value, skipFrom false rest) := by
  cases value with
  | null =>
    exact scalarLiteral_of_reserved (show "null".toList = ['n', 'u', 'l', 'l'] by decide) (by decide)
      (reserved_null rest)
  | bool value =>
    cases value with
    | true =>
      exact scalarLiteral_of_reserved (show "true".toList = ['t', 'r', 'u', 'e'] by decide)
        (by decide) (reserved_true rest)
    | false =>
      exact scalarLiteral_of_reserved (show "false".toList = ['f', 'a', 'l', 's', 'e'] by decide)
        (by decide) (reserved_false rest)
  | int value =>
    exact orElse_of_reads (number_int formed.1 formed.2 delimited) _
  | float x => exact orElse_of_reads (number_float legible delimited) _
  | str text =>
    have hnumber : number ((quote text).toList ++ rest) = none := by
      refine number_eq_none fun c hc ↦ ?_
      rw [show (quote text).toList = '"' :: (text.toList.flatMap escape ++ ['"']) by
        simp [quote]] at hc
      cases hc
      decide
    unfold scalarLiteral
    rw [render, orElse_of_none hnumber]
    exact orElse_of_reads (map_of_reads (string_append legible delimited) _) _
  | enumeration name =>
    have hvalid := (Bool.and_eq_true_iff.mp formed).1
    obtain ⟨first, more, hname, hstart⟩ := exists_name hvalid
    have hreserved := Option.isNone_iff_eq_none.mp (Bool.and_eq_true_iff.mp formed).2
    rw [render, scalarLiteral_of_word fun c hc ↦ ?_]
    · rw [orElse_of_none (token_of_none (reserved_append hreserved delimited))]
      exact map_of_reads (enumName_append formed delimited) _
    · rw [hname] at hc
      cases hc
      refine ⟨isDigit_of_isStart hstart, ?_, ?_⟩ <;>
      · rintro rfl
        cases hstart
  | list items => exact absurd rfl (scalar items)
  | object members => exact absurd rfl (scalar' members)
  | «variable» name => exact formed.elim

/-- A text that starts with a bracket is no scalar. -/
theorem scalarLiteral_eq_none (h : ∀ c ∈ text.head?, c ∈ ['[', ']', '\x7b', '\x7d']) :
    scalarLiteral text = none := by
  have hbrackets : ∀ c ∈ ['[', ']', '\x7b', '\x7d'], (c.isDigit = false ∧ c ≠ '-' ∧ c ≠ '"') ∧
      (c ≠ 't' ∧ c ≠ 'f' ∧ c ≠ 'n') ∧ Name.isStart c = false := by
    simp only [List.forall_mem_cons, List.not_mem_nil, false_implies, implies_true, and_true]
    decide
  have hreserved : reserved text = none := reserved_eq_none fun c hc ↦ (hbrackets c (h c hc)).2.1
  have hname : Grammar.name text = none := name_eq_none fun c hc ↦ (hbrackets c (h c hc)).2.2
  rw [scalarLiteral_of_word fun c hc ↦ (hbrackets c (h c hc)).1,
    orElse_of_none (token_of_none hreserved)]
  change (enumName text).bind _ = none
  unfold enumName
  rw [seqRight_of_reads (absent_of_none hreserved), hname]
  rfl

/-- A text that starts with a closing bracket is no literal. -/
theorem literalWith_eq_none (h : ∀ c ∈ text.head?, c = ']' ∨ c = '\x7d') (fuel : Nat) :
    literalWith true fuel text = none := by
  cases fuel with
  | zero => rfl
  | succ fuel =>
    have hscalar : scalarLiteral text = none := scalarLiteral_eq_none fun c hc ↦ by
      rcases h c hc with rfl | rfl <;> decide
    have hlist : symbol "[" text = none :=
      symbol_eq_none (show "[".toList = ['['] by decide) fun hfirst ↦ by
        rcases h '[' hfirst with heq | heq <;> cases heq
    have hobject : symbol "\x7b" text = none :=
      symbol_eq_none (show "\x7b".toList = ['\x7b'] by decide) fun hfirst ↦ by
        rcases h '\x7b' hfirst with heq | heq <;> cases heq
    unfold literalWith
    rw [if_pos rfl, orElse_of_none rfl, orElse_of_none hscalar,
      orElse_of_none (bind_of_none hlist _), bind_of_none hobject]

end Scalars

/-! ## Reading them back -/

section Containers

variable {fuel : Nat} {rest : List Char}

theorem separated (after : List Char) : Delimited (", ".toList ++ after) :=
  .cons (c := ',') (by decide) (' ' :: after)

/-- A list is read as it is printed, if its items are. -/
theorem list_append (formed : ∀ item ∈ items, item.Formed) (legible : ∀ item ∈ items, item.Legible)
    (reads : ∀ item ∈ items, ∀ after, Delimited after →
      literalWith true fuel (item.render.toList ++ after) = some (item, skipFrom false after)) :
    literalWith true (fuel + 1) ((Literal.list items).render.toList ++ rest) =
      some (.list items, skipFrom false rest) := by
  have hrender : (Literal.list items).render.toList ++ rest =
      '[' :: ((", ".intercalate (items.map render)).toList ++ ']' :: rest) := by
    simp [render, renderItems_eq]
  have hclosed : literalWith true fuel (']' :: rest) = none :=
    literalWith_eq_none (fun c hc ↦ by cases hc; exact .inl rfl) fuel
  have hitems : Row (literalWith true fuel)
      (skipFrom false ((", ".intercalate (items.map render)).toList ++ ']' :: rest))
      (items.map fun item ↦ item) (']' :: rest) := by
    refine row_intercalate (by decide) (fun item hitem after hafter ↦ ?_)
      (fun _ _ after ↦ separated _) (.cons (by decide) rest) hclosed
    have hstart := startsToken_render (formed item hitem) (legible item hitem)
    have hreads := reads item hitem after hafter
    exact hstart.reads hreads
  unfold literalWith
  rw [hrender, if_pos rfl, orElse_of_none rfl,
    orElse_of_none (scalarLiteral_eq_none fun c hc ↦ by cases hc; decide)]
  refine orElse_of_reads ?_ _
  rw [bind_of_reads (symbol_cons (show "[".toList = ['['] by decide) _), bind_of_reads hitems.many,
    bind_of_reads (symbol_cons (show "]".toList = [']'] by decide) rest), List.map_id']
  rfl

/-- A member of an object is read as it is printed, if its value is. -/
theorem objectField_append {p : Reader Literal} {member : String × Literal}
    (valid : Name.isValid member.1.toList = true) (formed : member.2.Formed)
    (legible : member.2.Legible)
    (reads : p (member.2.render.toList ++ rest) = some (member.2, skipFrom false rest)) :
    objectField p ((renderMember member).toList ++ rest) = some (member, skipFrom false rest) := by
  have hrender : (renderMember member).toList ++ rest =
      member.1.toList ++ ':' :: ' ' :: (member.2.render.toList ++ rest) := by
    simp [renderMember]
  have hcolon : ∀ after, skipFrom false (':' :: after) = ':' :: after := fun _ ↦ rfl
  have hblank : skipFrom false (' ' :: (member.2.render.toList ++ rest)) =
      member.2.render.toList ++ rest := ((startsToken_render formed legible).append rest).skipFrom_eq
  unfold objectField
  rw [hrender, bind_of_reads (name_append valid (.cons (by decide) _)), hcolon,
    bind_of_reads (symbol_cons (show ":".toList = [':'] by decide) _), hblank, bind_of_reads reads]
  rfl

/-- An object is read as it is printed, if the values of its members are. -/
theorem object_append (distinct : (Entries.keys members).Nodup)
    (formed : ∀ member ∈ members, Name.isValid member.1.toList = true ∧ member.2.Formed)
    (legible : ∀ member ∈ members, member.2.Legible)
    (reads : ∀ member ∈ members, ∀ after, Delimited after →
      literalWith true fuel (member.2.render.toList ++ after) =
        some (member.2, skipFrom false after)) :
    literalWith true (fuel + 1) ((Literal.object members).render.toList ++ rest) =
      some (.object members, skipFrom false rest) := by
  have hrender : (Literal.object members).render.toList ++ rest =
      '\x7b' :: ((", ".intercalate (members.map renderMember)).toList ++ '\x7d' :: rest) := by
    simp [render, renderMembers_eq]
  have hclosed : objectField (literalWith true fuel) ('\x7d' :: rest) = none :=
    bind_of_none (name_cons_eq_none (by decide) rest) _
  have hmembers : Row (objectField (literalWith true fuel))
      (skipFrom false ((", ".intercalate (members.map renderMember)).toList ++ '\x7d' :: rest))
      (members.map fun member ↦ member) ('\x7d' :: rest) := by
    refine row_intercalate (by decide) (fun member hmember after hafter ↦ ?_)
      (fun _ _ after ↦ separated _) (.cons (by decide) rest) hclosed
    obtain ⟨hvalid, hformed⟩ := formed member hmember
    have hstart : StartsToken (renderMember member).toList := by
      rw [renderMember, String.toList_append, String.toList_append, List.append_assoc]
      exact (startsToken_of_name hvalid).append _
    have hreads := objectField_append hvalid hformed (legible member hmember)
      (reads member hmember after hafter)
    exact hstart.reads hreads
  unfold literalWith
  rw [hrender, if_pos rfl, orElse_of_none rfl,
    orElse_of_none (scalarLiteral_eq_none fun c hc ↦ by cases hc; decide),
    orElse_of_none (bind_of_none (symbol_eq_none (show "[".toList = ['['] by decide) (by simp)) _),
    bind_of_reads (symbol_cons (show "\x7b".toList = ['\x7b'] by decide) _),
    bind_of_reads hmembers.many,
    bind_of_reads (symbol_cons (show "\x7d".toList = ['\x7d'] by decide) rest), List.map_id',
    Entries.ofList_of_nodup distinct]
  rfl

end Containers

/-- A formed and legible literal is read as it is printed. -/
theorem literalWith_append {fuel : Nat} {value : Literal} {rest : List Char} (formed : value.Formed)
    (legible : value.Legible) (delimited : Delimited rest)
    (enough : value.render.toList.length ≤ fuel) :
    literalWith true fuel (value.render.toList ++ rest) = some (value, skipFrom false rest) := by
  -- on the fuel: what a list or an object holds is shorter than its text by the brackets at least
  induction fuel generalizing value rest with
  | zero =>
    obtain ⟨first, more, hrender, -⟩ := startsToken_render formed legible
    rw [hrender] at enough
    exact absurd enough (Nat.not_succ_le_zero _)
  | succ fuel ih =>
    by_cases hlist : ∃ items, value = .list items
    · obtain ⟨items, rfl⟩ := hlist
      have hformed := formedItems_iff.mp formed
      have hlegible := legibleItems_iff.mp legible
      refine list_append hformed hlegible fun item hitem after hafter ↦
        ih (hformed item hitem) (hlegible item hitem) hafter ?_
      have hlength := length_le_intercalate ", " render hitem
      simp only [render, renderItems_eq, String.toList_append, List.length_append] at enough
      have hbrackets : "[".toList.length = 1 := by decide
      omega
    · by_cases hobject : ∃ members, value = .object members
      · obtain ⟨members, rfl⟩ := hobject
        have hformed := formedMembers_iff.mp formed.2
        have hlegible := legibleMembers_iff.mp legible
        refine object_append formed.1 hformed hlegible fun member hmember after hafter ↦
          ih (hformed member hmember).2 (hlegible member hmember) hafter ?_
        have hlength := length_le_intercalate ", " renderMember hmember
        simp only [renderMember, String.toList_append, List.length_append] at hlength
        simp only [render, renderMembers_eq, String.toList_append, List.length_append] at enough
        have hbrackets : "\x7b".toList.length = 1 := by decide
        omega
      · unfold literalWith
        rw [if_pos rfl, orElse_of_none rfl]
        refine orElse_of_reads ?_ _
        exact scalarLiteral_append formed legible delimited (fun items h ↦ hlist ⟨items, h⟩)
          fun members h ↦ hobject ⟨members, h⟩

/-- The text is a constant as it is written once it has been read, and it is read as it is written. -/
def IsConstant (text : String) : Prop := ∃ source rest value,
  Grammar.literal true source = some (value, rest) ∧ value.Legible ∧ text = value.render

theorem IsConstant.exists_literal {text : String} (h : IsConstant text) : ∃ value : Literal,
    value.Formed ∧ value.Legible ∧ text = value.render := by
  obtain ⟨source, rest, value, hread, hlegible, htext⟩ := h
  exact ⟨value, formed_of_literalWith hread, hlegible, htext⟩

theorem literal_append {value : Literal} {rest : List Char} (formed : value.Formed)
    (legible : value.Legible) (delimited : Delimited rest) :
    Grammar.literal true (value.render.toList ++ rest) = some (value, skipFrom false rest) := by
  refine literalWith_append formed legible delimited ?_
  rw [List.length_append]
  omega

end ResourceApi.Literal

import ResourceApi.Proofs.Document.RoundTrip
import ResourceApi.Proofs.TypeRef.Decoration
import ResourceApi.Request.Reader
import ResourceApi.Signature

/-!
# Reading printed requests

Selections, operations and fragments are read as they are printed, provided that their names are names of
the schema language.  A selection is followed by the next one or by the brace that closes the braces around
it, and a field goes on with its arguments and with braces of its own.  One kind of name needs care: a
fragment whose name starts like the word before a type cannot be spread, as this word ends wherever it
likes.
-/

namespace ResourceApi.Request

open Text Text.Reader Literal.Grammar Grammar
open TypeDocument (StartsName symbol_blank)

variable {text rest : List Char} {fuel : Nat}

/-! ## What is left out -/

theorem optionalDirectives_eq (h : text.head? ≠ some '@') :
    optionalDirectives text = some ([], text) := by
  have hnone : directives false text = none := by
    apply bind_of_none
    apply bind_of_none
    exact symbol_eq_none (show "@".toList = ['@'] by decide) h
  exact bind_of_reads (maybe_of_none hnone) _

theorem selectionSet_eq_none (h : text.head? ≠ some '\x7b') : selectionSet fuel text = none := by
  cases fuel with
  | zero =>
    unfold selectionSet
    rfl
  | succ fuel =>
    unfold selectionSet
    apply bind_of_none
    exact symbol_eq_none (show "\x7b".toList = ['\x7b'] by decide) h

theorem label_eq_none {name : String} (valid : Name.isValid name.toList = true)
    (delimited : Delimited rest) (h : (skipFrom false rest).head? ≠ some ':') :
    label (name.toList ++ rest) = none := by
  unfold label
  rw [bind_of_reads (name_append valid delimited)]
  apply bind_of_none
  exact symbol_eq_none (show ":".toList = [':'] by decide) h

/-! ## Selections -/

/-- The character starts a selection, or closes the braces around it. -/
def startsSelection (c : Char) : Bool := Name.isStart c || c == '.' || c == '\x7d'

/-- Nothing can be added here to the selection that stands before. -/
structure Ends (text : List Char) : Prop where
  delimited : Delimited text
  next : ∀ c ∈ (skipFrom false text).head?, startsSelection c = true

theorem Ends.head?_ne (ends : Ends rest) {c : Char} (h : startsSelection c = false) :
    (skipFrom false rest).head? ≠ some c := by
  intro hfirst
  cases h.symm.trans (ends.next c hfirst)

/-- The text is read as the selection wherever a selection can end. -/
structure Writes (fuel : Nat) (text : String) (selection : Selection) : Prop where
  starts : ∃ first more, text.toList = first :: more ∧ startsSelection first = true ∧
    isSignificant first = true
  reads : ∀ rest, Ends rest →
    Grammar.selection fuel (text.toList ++ rest) = some (selection, skipFrom false rest)

namespace Writes

variable {printed : String} {selection : Selection}

theorem startsToken (writes : Writes fuel printed selection) : StartsToken printed.toList := by
  obtain ⟨first, more, htext, -, hfirst⟩ := writes.starts
  exact ⟨first, more, htext, hfirst⟩

end Writes

/-! ## Spreads -/

/-- The name can stand behind the dots of a spread: the word before a type is not read off it. -/
def IsSpreadName (name : String) : Prop :=
  Name.isValid name.toList = true ∧ dropWord "on".toList name.toList = none

theorem typeCondition_eq_none {name : String} (h : IsSpreadName name) (delimited : Delimited rest) :
    typeCondition (name.toList ++ rest) = none := by
  apply bind_of_none
  apply token_of_none
  apply Literal.exactly_eq_none_iff.mpr
  apply dropWord_append_eq_none h.2
  intro c hc hmem
  have hword : "on".toList.all Name.isContinue = true := by decide
  cases (List.all_eq_true.mp hword c hmem).symm.trans (delimited.not_continue c hc)

theorem writes_spread {fragment : String} (h : IsSpreadName fragment) :
    Writes fuel ("..." ++ fragment) (.spread fragment []) where
  starts := ⟨'.', '.' :: '.' :: fragment.toList, by simp, by decide, by decide⟩
  reads := by
    intro rest ends
    obtain ⟨first, more, hname, hstart⟩ := Literal.exists_name h.1
    have hdots : ("..." ++ fragment).toList ++ rest = "...".toList ++ (fragment.toList ++ rest) := by
      simp
    have htoken : skipFrom false (fragment.toList ++ rest) = fragment.toList ++ rest :=
      ((Literal.startsToken_of_name h.1).append rest).skipFrom_eq
    have hsymbol : symbol "..." ("...".toList ++ (fragment.toList ++ rest)) =
        some ((), fragment.toList ++ rest) := by
      rw [symbol_append, htoken]
    have hcondition := typeCondition_eq_none h ends.delimited
    have hfirst : ∀ c, Name.isStart c = false → (fragment.toList ++ rest).head? ≠ some c := by
      intro c hc heq
      rw [hname] at heq
      cases heq
      cases hc.symm.trans hstart
    have hnoName : Literal.Grammar.name ("...".toList ++ (fragment.toList ++ rest)) = none :=
      name_cons_eq_none (show Name.isStart '.' = false by decide) _
    rw [hdots]
    unfold Grammar.selection
    rw [orElse_of_none, orElse_of_none]
    · rw [bind_of_reads hsymbol, bind_of_reads (absent_of_none hcondition),
        bind_of_reads (name_append h.1 ends.delimited),
        bind_of_reads (optionalDirectives_eq (ends.head?_ne (by decide)))]
      rfl
    · rw [bind_of_reads hsymbol, bind_of_reads (maybe_of_none hcondition),
        bind_of_reads (optionalDirectives_eq (hfirst '@' (by decide)))]
      apply bind_of_none
      exact selectionSet_eq_none (hfirst '\x7b' (by decide))
    · have hlabel : label ("...".toList ++ (fragment.toList ++ rest)) = none := bind_of_none hnoName _
      rw [bind_of_reads (maybe_of_none hlabel)]
      exact bind_of_none hnoName _

/-! ## Fields -/

/-- The items in parentheses; without items nothing is written. -/
def listed (items : List String) : String :=
  if items.isEmpty then "" else "(" ++ ", ".intercalate items ++ ")"

theorem listed_cons (item : String) (items : List String) (rest : List Char) :
    (listed (item :: items)).toList ++ rest =
      '(' :: ((", ".intercalate (item :: items)).toList ++ ')' :: rest) := by
  simp [listed]

/-- Behind a name the list ends it, if the text after the list does. -/
theorem delimited_listed (items : List String) (delimited : Delimited rest) :
    Delimited ((listed items).toList ++ rest) := by
  cases items with
  | nil => exact delimited
  | cons item items =>
    rw [listed_cons]
    exact .cons (by decide) _

/-- A variable that is passed on under its own name. -/
def passed (name : String) : String := name ++ ": $" ++ name

theorem literal_variable {name : String} (valid : Name.isValid name.toList = true)
    (delimited : Delimited rest) :
    literal false ('$' :: (name.toList ++ rest)) = some (.variable name, skipFrom false rest) := by
  have htoken : skipFrom false (name.toList ++ rest) = name.toList ++ rest :=
    ((Literal.startsToken_of_name valid).append rest).skipFrom_eq
  unfold literal literalWith
  apply orElse_of_reads
  rw [if_neg Bool.false_ne_true]
  unfold variableRef
  rw [bind_of_reads (symbol_cons (show "$".toList = ['$'] by decide) _), htoken,
    bind_of_reads (name_append valid delimited)]
  rfl

theorem objectField_passed {name : String} (valid : Name.isValid name.toList = true)
    (delimited : Delimited rest) :
    objectField (literal false) ((passed name).toList ++ rest) =
      some ((name, .variable name), skipFrom false rest) := by
  have htext : (passed name).toList ++ rest =
      name.toList ++ ':' :: ' ' :: '$' :: (name.toList ++ rest) := by
    simp [passed]
  unfold objectField
  rw [htext, bind_of_reads (name_append valid (.cons (by decide) _))]
  change (symbol ":" >>= _) (':' :: _) = _
  rw [bind_of_reads (symbol_cons (show ":".toList = [':'] by decide) _)]
  change (literal false >>= _) ('$' :: _) = _
  rw [bind_of_reads (literal_variable valid delimited)]
  rfl

/-- Passed variables are read as the arguments of a field. -/
theorem maybe_arguments_listed {names : List String}
    (valid : ∀ name ∈ names, Name.isValid name.toList = true)
    (next : (skipFrom false rest).head? ≠ some '(') :
    ∃ read, maybe (arguments false) (skipFrom false ((listed (names.map passed)).toList ++ rest)) =
      some (read, skipFrom false rest) ∧
        read.getD [] = names.map fun name ↦ (name, .variable name) := by
  have hopen : "(".toList = ['('] := by decide
  have hclose : ")".toList = [')'] := by decide
  cases names with
  | nil => exact ⟨none, maybe_of_none (bind_of_none (symbol_eq_none hopen next) _), rfl⟩
  | cons first others =>
    have hclosed : objectField (literal false) (')' :: rest) = none :=
      bind_of_none (name_cons_eq_none (by decide) rest) _
    have hrow : Row (objectField (literal false))
        (skipFrom false ((", ".intercalate ((first :: others).map passed)).toList ++ ')' :: rest))
        ((first :: others).map fun name ↦ (name, .variable name)) (')' :: rest) := by
      refine row_intercalate (by decide) (fun name hname after (hafter : Delimited after) ↦ ?_)
        (fun _ _ after ↦ Literal.separated _) (.cons (by decide) rest) hclosed
      have hstart : StartsToken (passed name).toList := by
        rw [passed, String.toList_append, String.toList_append, List.append_assoc]
        exact (Literal.startsToken_of_name (valid name hname)).append _
      have hread := objectField_passed (valid name hname) hafter
      exact hstart.reads hread
    rw [List.map_cons, listed_cons, ← List.map_cons (f := passed)]
    refine ⟨_, maybe_of_reads ?_, rfl⟩
    change arguments false ('(' :: _) = _
    unfold arguments
    rw [bind_of_reads (symbol_cons hopen _), bind_of_reads hrow.many1,
      bind_of_reads (symbol_cons hclose rest)]
    rfl

/-- The text is read as the braces around the selections, whatever follows. -/
structure WritesBraces (fuel : Nat) (text : String) (selections : List Selection) : Prop where
  starts : ∃ more, text.toList = '\x7b' :: more
  reads : ∀ rest, selectionSet fuel (text.toList ++ rest) = some (selections, skipFrom false rest)

/-- If there is a text, it is read as the braces around the selections, and else there are none. -/
def WritesOptional (fuel : Nat) : Option String → List Selection → Prop
  | some text, selections => WritesBraces fuel text selections
  | none, selections => selections = []

/-- A field with the variables that it passes on, and the text of its braces if it has any. -/
def field (name : String) (names : List String) (braces : Option String) : String :=
  name ++ listed (names.map passed) ++ (braces.elim "" (" " ++ ·))

theorem selection_field {name : String} {after last : List Char}
    {read : Option (List (String × Literal))} {inner : Option (List Selection)}
    (valid : Name.isValid name.toList = true) (delimited : Delimited text)
    (unlabelled : (skipFrom false text).head? ≠ some ':')
    (args : maybe (arguments false) (skipFrom false text) = some (read, after))
    (bare : after.head? ≠ some '@') (braces : maybe (selectionSet fuel) after = some (inner, last)) :
    Grammar.selection fuel (name.toList ++ text) =
      some (.field none name (read.getD []) [] (inner.getD []), last) := by
  unfold Grammar.selection
  apply orElse_of_reads
  rw [bind_of_reads (maybe_of_none (label_eq_none valid delimited unlabelled)),
    bind_of_reads (name_append valid delimited), bind_of_reads args,
    bind_of_reads (optionalDirectives_eq bare), bind_of_reads braces]
  rfl

/-- What stands behind the arguments of a field: its braces, or what comes after it. -/
theorem maybe_selectionSet_braces {braces : Option String} {inner : List Selection}
    (writes : WritesOptional fuel braces inner) (ends : Ends rest) :
    ∃ tail read, tail = (braces.elim "" (" " ++ ·)).toList ++ rest ∧ Delimited tail ∧
      (∀ c ∈ (skipFrom false tail).head?, (startsSelection c || c == '\x7b') = true) ∧
      maybe (selectionSet fuel) (skipFrom false tail) = some (read, skipFrom false rest) ∧
      read.getD [] = inner := by
  cases braces with
  | none =>
    refine ⟨rest, none, rfl, ends.delimited, fun c hc ↦ ?_, ?_, Eq.symm writes⟩
    · rw [ends.next c hc]
      rfl
    · apply maybe_of_none
      exact selectionSet_eq_none (ends.head?_ne (by decide))
  | some text =>
    obtain ⟨more, hopen⟩ := WritesBraces.starts writes
    have hskip : skipFrom false (' ' :: (text.toList ++ rest)) = text.toList ++ rest := by
      rw [hopen]
      rfl
    refine ⟨' ' :: (text.toList ++ rest), some inner, by simp, .cons (by decide) _, ?_, ?_, rfl⟩
    · intro c hc
      rw [hskip, hopen] at hc
      cases hc
      decide
    · rw [hskip]
      exact maybe_of_reads (WritesBraces.reads writes rest)

theorem writes_field {name : String} (names : List String) (braces : Option String)
    {inner : List Selection} (valid : Name.isValid name.toList = true)
    (validNames : ∀ name ∈ names, Name.isValid name.toList = true)
    (writes : WritesOptional fuel braces inner) :
    Writes fuel (field name names braces)
      (.field none name (names.map fun name ↦ (name, .variable name)) [] inner) where
  starts := by
    obtain ⟨first, more, hname, hstart⟩ := Literal.exists_name valid
    refine ⟨first, more ++ (listed (names.map passed) ++ braces.elim "" (" " ++ ·)).toList, ?_, ?_, ?_⟩
    · simp [field, hname]
    · simp [startsSelection, hstart]
    · exact Literal.isSignificant_of_isContinue (Literal.isContinue_of_isStart hstart)
  reads := by
    intro rest ends
    obtain ⟨tail, inner?, htail, hdelimited, hnext, hbraces, hinner⟩ :=
      maybe_selectionSet_braces writes ends
    have hne : ∀ c, (startsSelection c || c == '\x7b') = false → (skipFrom false tail).head? ≠ some c :=
      fun c hc heq ↦ nomatch hc.symm.trans (hnext c heq)
    obtain ⟨args?, hargs, hpassed⟩ := maybe_arguments_listed validNames (hne '(' (by decide))
    have htext : (field name names braces).toList ++ rest =
        name.toList ++ ((listed (names.map passed)).toList ++ tail) := by
      simp [field, htail]
    have hlabel : (skipFrom false ((listed (names.map passed)).toList ++ tail)).head? ≠ some ':' := by
      cases names with
      | nil => exact hne ':' (by decide)
      | cons first others =>
        rw [List.map_cons, listed_cons]
        simp [skipFrom, isInsignificant, isLineEnd]
    rw [htext, selection_field valid (delimited_listed _ hdelimited) hlabel hargs (hne '@' (by decide))
      hbraces, hpassed, hinner]

/-! ## Braces -/

/-- The text separates tokens. -/
def isGap (text : List Char) : Bool := isBlank text && text.head?.any isDelimiter

theorem delimited_gap {gap : List Char} (h : isGap gap = true) (rest : List Char) :
    Delimited (gap ++ rest) := by
  obtain ⟨-, hfirst⟩ := Bool.and_eq_true_iff.mp h
  cases gap with
  | nil => cases hfirst
  | cons c more => exact .cons hfirst (more ++ rest)

theorem skipFrom_gap {gap : List Char} (h : isGap gap = true) (rest : List Char) :
    skipFrom false (gap ++ rest) = skipFrom false rest :=
  skipFrom_append_blank (Bool.and_eq_true_iff.mp h).1 rest

/-- Selections between braces, with the given texts before, between and after them. -/
def braces (front sep back : String) (items : List String) : String :=
  "\x7b" ++ front ++ sep.intercalate items ++ back ++ "\x7d"

/-- A selection ends where a gap is followed by another one. -/
theorem Writes.ends {printed gap : String} {selection : Selection} (writes : Writes fuel printed selection)
    (h : isGap gap.toList = true) (rest : List Char) :
    Ends (gap.toList ++ (printed.toList ++ rest)) where
  delimited := delimited_gap h _
  next := by
    obtain ⟨first, more, hprinted, hstart, -⟩ := writes.starts
    rw [skipFrom_gap h, (writes.startsToken.append rest).skipFrom_eq, hprinted]
    intro c hc
    cases hc
    exact hstart

theorem ends_closing {gap : String} (h : isGap gap.toList = true) (rest : List Char) :
    Ends (gap.toList ++ '\x7d' :: rest) where
  delimited := delimited_gap h _
  next := by
    rw [skipFrom_gap h]
    intro c hc
    cases hc
    decide

theorem selection_closing (rest : List Char) : Grammar.selection fuel ('\x7d' :: rest) = none := by
  have hdots : symbol "..." ('\x7d' :: rest) = none :=
    symbol_eq_none (show "...".toList = ['.', '.', '.'] by decide) (by simp)
  have hname : Literal.Grammar.name ('\x7d' :: rest) = none := name_cons_eq_none (by decide) rest
  have hlabel : label ('\x7d' :: rest) = none := bind_of_none hname _
  unfold Grammar.selection
  rw [orElse_of_none, orElse_of_none (bind_of_none hdots _)]
  · exact bind_of_none hdots _
  · rw [bind_of_reads (maybe_of_none hlabel)]
    exact bind_of_none hname _

/-- Selections in braces are read one after the other. -/
theorem writesBraces {front sep back : String} (items : List (String × Selection))
    (nonempty : items ≠ []) (gaps : ∀ gap ∈ [front, sep, back], isGap gap.toList = true)
    (writes : ∀ item ∈ items, Writes fuel item.1 item.2) :
    WritesBraces (fuel + 1) (braces front sep back (items.map Prod.fst)) (items.map Prod.snd) where
  starts := ⟨_, by simp [braces]; rfl⟩
  reads := by
    intro rest
    have hgaps : isGap front.toList = true ∧ isGap sep.toList = true ∧ isGap back.toList = true := by
      simpa using gaps
    obtain ⟨hfront, hsep, hback⟩ := hgaps
    have htext : (braces front sep back (items.map Prod.fst)).toList ++ rest =
        '\x7b' :: (front.toList ++
          ((sep.intercalate (items.map Prod.fst)).toList ++ (back.toList ++ '\x7d' :: rest))) := by
      simp [braces]
    have hclosed : skipFrom false (back.toList ++ '\x7d' :: rest) = '\x7d' :: rest := skipFrom_gap hback _
    have hrow : Row (Grammar.selection fuel)
        (skipFrom false
          ((sep.intercalate (items.map Prod.fst)).toList ++ (back.toList ++ '\x7d' :: rest)))
        (items.map Prod.snd) (skipFrom false (back.toList ++ '\x7d' :: rest)) := by
      refine row_intercalate (Bool.and_eq_true_iff.mp hsep).1
        (fun item hitem after (hafter : Ends after) ↦ ?_) (fun item hitem ↦ (writes item hitem).ends hsep)
        (ends_closing hback rest) ?_
      · have hstart := (writes item hitem).startsToken
        have hread := (writes item hitem).reads after hafter
        exact hstart.reads hread
      · rw [hclosed]
        exact selection_closing rest
    obtain ⟨first, others, rfl⟩ := List.exists_cons_of_ne_nil nonempty
    unfold selectionSet
    rw [htext, bind_of_reads (symbol_cons (show "\x7b".toList = ['\x7b'] by decide) _),
      skipFrom_gap hfront, bind_of_reads hrow.many1, hclosed,
      bind_of_reads (symbol_cons (show "\x7d".toList = ['\x7d'] by decide) rest)]
    rfl

theorem writesBraces_singleton {front sep back text : String} {selection : Selection}
    (gaps : ∀ gap ∈ [front, sep, back], isGap gap.toList = true) (writes : Writes fuel text selection) :
    WritesBraces (fuel + 1) (braces front sep back [text]) [selection] :=
  writesBraces [(text, selection)] (List.cons_ne_nil _ _) gaps (List.forall_mem_singleton.mpr writes)

/-! ## Variables -/

/-- The declaration of a variable for an argument. -/
def declared (argument : ArgumentSignature) : String := "$" ++ argument.name ++ ": " ++ argument.type

theorem declared_append (argument : ArgumentSignature) (rest : List Char) :
    (declared argument).toList ++ rest =
      '$' :: (argument.name.toList ++ ':' :: ' ' :: (argument.type.toList ++ rest)) := by
  simp [declared]

/-- The variable for an argument, with the type that the text of its type denotes. -/
def declaration (argument : ArgumentSignature) : VariableDefinition :=
  ⟨argument.name, (TypeRef.parse? argument.type).getD (.named argument.type true), none, []⟩

/-- The declaration of the next variable comes, or the end of the list. -/
structure EndsDeclaration (text : List Char) : Prop where
  delimited : Delimited text
  next : ∀ c ∈ (skipFrom false text).head?, c = '$' ∨ c = ')'

theorem EndsDeclaration.head?_ne (ends : EndsDeclaration rest) {c : Char} (h : c ≠ '$' ∧ c ≠ ')') :
    (skipFrom false rest).head? ≠ some c := by
  intro hfirst
  exact (ends.next c hfirst).elim h.1 h.2

theorem declaration_decorated {name type : String} {nullable : List Bool}
    (valid : Name.isValid type.toList = true) :
    declaration ⟨name, decorate type nullable⟩ = ⟨name, .ofVector type nullable, none, []⟩ := by
  have hname : IsName (TypeRef.ofVector type nullable).name := by
    rw [TypeRef.name_ofVector]
    exact valid
  unfold declaration decorate
  rw [TypeRef.parse?_render hname, Option.getD_some]

theorem variableDefinition_declared {argument : ArgumentSignature}
    (valid : Name.isValid argument.name.toList = true) (decorated : IsDecorated argument.type)
    (ends : EndsDeclaration rest) :
    variableDefinition ((declared argument).toList ++ rest) =
      some (declaration argument, skipFrom false rest) := by
  obtain ⟨name, type⟩ := argument
  obtain ⟨base, nullable, hbase, htype⟩ := decorated
  dsimp only at valid htype
  subst htype
  have htoken := ((Literal.startsToken_of_name valid).append
    (':' :: ' ' :: ((decorate base nullable).toList ++ rest))).skipFrom_eq
  have hcolon : ∀ after, skipFrom false (':' :: after) = ':' :: after := fun _ ↦ rfl
  have hdefault : (symbol "=" *> literal true) (skipFrom false rest) = none := by
    apply seqRight_of_none
    exact symbol_eq_none (show "=".toList = ['='] by decide) (ends.head?_ne (by decide))
  have hdirectives : optionalDirectives (skipFrom false rest) = some ([], skipFrom false rest) :=
    optionalDirectives_eq (ends.head?_ne (by decide))
  unfold variableDefinition
  rw [declared_append, bind_of_reads (symbol_cons (show "$".toList = ['$'] by decide) _), htoken,
    bind_of_reads (name_append valid (.cons (by decide) _)), hcolon,
    bind_of_reads (symbol_cons (show ":".toList = [':'] by decide) _),
    bind_of_reads (TypeDocument.typeRef_decorated hbase ends.delimited), bind_of_reads hdirectives,
    bind_of_reads (maybe_of_none hdefault), bind_of_reads hdirectives,
    declaration_decorated hbase]
  rfl

/-- Declared variables are read in their order. -/
theorem maybe_variableDefinitions_listed {arguments : List ArgumentSignature}
    (valid : ∀ argument ∈ arguments,
      Name.isValid argument.name.toList = true ∧ IsDecorated argument.type)
    (next : (skipFrom false rest).head? ≠ some '(') :
    ∃ read, maybe variableDefinitions
        (skipFrom false ((listed (arguments.map declared)).toList ++ rest)) =
      some (read, skipFrom false rest) ∧ read.getD [] = arguments.map declaration := by
  have hopen : "(".toList = ['('] := by decide
  have hclose : ")".toList = [')'] := by decide
  cases arguments with
  | nil => exact ⟨none, maybe_of_none (bind_of_none (symbol_eq_none hopen next) _), rfl⟩
  | cons first others =>
    have hclosed : variableDefinition (')' :: rest) = none :=
      bind_of_none (symbol_eq_none (show "$".toList = ['$'] by decide) (by simp)) _
    have hrow : Row variableDefinition
        (skipFrom false ((", ".intercalate ((first :: others).map declared)).toList ++ ')' :: rest))
        ((first :: others).map declaration) (')' :: rest) := by
      refine row_intercalate (by decide)
        (fun argument hargument after (hafter : EndsDeclaration after) ↦ ?_)
        (fun argument _ after ↦ ?_) ?_ hclosed
      · obtain ⟨hname, htype⟩ := valid argument hargument
        have hstart : StartsToken (declared argument).toList :=
          ⟨'$', (argument.name ++ ": " ++ argument.type).toList, by simp [declared], by decide⟩
        have hread := variableDefinition_declared hname htype hafter
        exact hstart.reads hread
      · refine ⟨Literal.separated _, fun c hc ↦ ?_⟩
        rw [declared_append] at hc
        cases hc
        exact .inl rfl
      · refine ⟨.cons (by decide) rest, fun c hc ↦ ?_⟩
        cases hc
        exact .inr rfl
    rw [List.map_cons, listed_cons, ← List.map_cons (f := declared)]
    refine ⟨_, maybe_of_reads ?_, rfl⟩
    change variableDefinitions ('(' :: _) = _
    unfold variableDefinitions
    rw [bind_of_reads (symbol_cons hopen _), bind_of_reads hrow.many,
      bind_of_reads (symbol_cons hclose rest)]
    rfl

/-! ## Definitions -/

/-- What reads a definition of a request. -/
def definition : Reader (Operation ⊕ FragmentDefinition) :=
  (Sum.inl <$> operation) <|> (Sum.inr <$> fragment)

/-- The text is read as the definition, whatever follows. -/
structure WritesDefinition (text : String) (written : Operation ⊕ FragmentDefinition) : Prop where
  starts : StartsToken text.toList
  reads : ∀ rest, definition (text.toList ++ rest) = some (written, skipFrom false rest)

def kindOf : OperationKind → Kind
  | .query => .query
  | .mutation => .mutation

theorem kind_append (operationKind : OperationKind) (h : StartsName text) :
    Grammar.kind (operationKind.keyword.toList ++ ' ' :: text) = some (kindOf operationKind, text) := by
  unfold Grammar.kind
  cases operationKind with
  | query =>
    apply orElse_of_reads
    exact seqRight_of_reads (symbol_blank "query" h) _
  | mutation =>
    have hquery : symbol "query" ("mutation".toList ++ ' ' :: text) = none :=
      symbol_eq_none (show "query".toList = 'q' :: "uery".toList by decide) (by simp)
    change ((symbol "query" *> pure Kind.query) <|> _) ("mutation".toList ++ ' ' :: text) = _
    rw [orElse_of_none (seqRight_of_none hquery _)]
    apply orElse_of_reads
    exact seqRight_of_reads (symbol_blank "mutation" h) _

/-- An operation starts with a word for its kind or with its braces. -/
theorem operation_eq_none (h : ∀ c ∈ text.head?, c ∉ ['q', 'm', 's', '\x7b']) :
    operation text = none := by
  have hne : ∀ c ∈ ['q', 'm', 's', '\x7b'], text.head? ≠ some c := fun c hc heq ↦ h c heq hc
  have hquery := symbol_eq_none (show "query".toList = 'q' :: "uery".toList by decide)
    (hne 'q' (by decide))
  have hmutation := symbol_eq_none (show "mutation".toList = 'm' :: "utation".toList by decide)
    (hne 'm' (by decide))
  have hsubscription := symbol_eq_none
    (show "subscription".toList = 's' :: "ubscription".toList by decide) (hne 's' (by decide))
  have hkind : Grammar.kind text = none := by
    unfold Grammar.kind
    rw [orElse_of_none (seqRight_of_none hquery _), orElse_of_none (seqRight_of_none hmutation _)]
    exact seqRight_of_none hsubscription _
  unfold operation
  rw [orElse_of_none (bind_of_none hkind _)]
  apply bind_of_none
  exact selectionSet_eq_none (hne '\x7b' (by decide))

/-- What stands before the braces of an operation. -/
def heading (operationKind : OperationKind) (name : String) (arguments : List ArgumentSignature) :
    String :=
  operationKind.keyword ++ " " ++ name ++ listed (arguments.map declared) ++ " "

theorem writesDefinition_operation (operationKind : OperationKind) {name text : String}
    {arguments : List ArgumentSignature} {selections : List Selection}
    (valid : Name.isValid name.toList = true)
    (validArguments : ∀ argument ∈ arguments,
      Name.isValid argument.name.toList = true ∧ IsDecorated argument.type)
    (writes : WritesBraces maxDepth text selections) :
    WritesDefinition (heading operationKind name arguments ++ text ++ "\n")
      (.inl ⟨kindOf operationKind, some name, arguments.map declaration, [], selections⟩) where
  starts := by
    have hkeyword : ∃ first more, operationKind.keyword.toList = first :: more ∧
        isSignificant first = true := by
      cases operationKind <;> exact ⟨_, _, rfl, by decide⟩
    obtain ⟨first, more, hfirst, hstart⟩ := hkeyword
    refine ⟨first, more ++ (" " ++ name ++ listed (arguments.map declared) ++ " " ++ text ++ "\n").toList,
      ?_, hstart⟩
    simp [heading, hfirst]
  reads := by
    intro rest
    obtain ⟨more, hopen⟩ := writes.starts
    have hskip : skipFrom false (' ' :: (text.toList ++ '\n' :: rest)) = text.toList ++ '\n' :: rest := by
      rw [hopen]
      rfl
    have hne : ∀ c, c ≠ '\x7b' → (text.toList ++ '\n' :: rest).head? ≠ some c := by
      intro c hc heq
      rw [hopen] at heq
      cases heq
      exact hc rfl
    have hrest : (skipFrom false (' ' :: (text.toList ++ '\n' :: rest))).head? ≠ some '(' := by
      rw [hskip]
      exact hne '(' (by decide)
    obtain ⟨read, hread, hdeclared⟩ := maybe_variableDefinitions_listed validArguments hrest
    have hname : StartsName name.toList := Literal.exists_name valid
    have hdelimited : Delimited ((listed (arguments.map declared)).toList ++
        ' ' :: (text.toList ++ '\n' :: rest)) := delimited_listed _ (.cons (by decide) _)
    have htext : (heading operationKind name arguments ++ text ++ "\n").toList ++ rest =
        operationKind.keyword.toList ++ ' ' :: (name.toList ++
          ((listed (arguments.map declared)).toList ++ ' ' :: (text.toList ++ '\n' :: rest))) := by
      simp [heading]
    unfold definition
    apply orElse_of_reads
    rw [map_of_reads]
    unfold operation
    apply orElse_of_reads
    rw [htext, bind_of_reads (kind_append operationKind (hname.append _)),
      bind_of_reads (maybe_of_reads (name_append valid hdelimited)), bind_of_reads hread, hskip,
      bind_of_reads (optionalDirectives_eq (hne '@' (by decide))), bind_of_reads (writes.reads _),
      hdeclared]
    rfl

theorem writesDefinition_fragment {name on text : String} {selections : List Selection}
    (valid : Name.isValid name.toList = true) (validOn : Name.isValid on.toList = true)
    (writes : WritesBraces maxDepth text selections) :
    WritesDefinition ("fragment " ++ name ++ " on " ++ on ++ " " ++ text ++ "\n")
      (.inr ⟨name, on, [], selections⟩) where
  starts := ⟨'f', ("ragment " ++ name ++ " on " ++ on ++ " " ++ text ++ "\n").toList, by simp, by decide⟩
  reads := by
    intro rest
    obtain ⟨more, hopen⟩ := writes.starts
    have hskip : skipFrom false (' ' :: (text.toList ++ '\n' :: rest)) = text.toList ++ '\n' :: rest := by
      rw [hopen]
      rfl
    have hat : (text.toList ++ '\n' :: rest).head? ≠ some '@' := by
      rw [hopen]
      simp
    have hname : StartsName name.toList := Literal.exists_name valid
    have hon : StartsName on.toList := Literal.exists_name validOn
    have hcondition : typeCondition (skipFrom false
        (' ' :: ("on".toList ++ ' ' :: (on.toList ++ ' ' :: (text.toList ++ '\n' :: rest))))) =
          some (on, text.toList ++ '\n' :: rest) := by
      change typeCondition ("on".toList ++ ' ' :: (on.toList ++ ' ' :: _)) = _
      unfold typeCondition
      rw [bind_of_reads (symbol_blank "on" (hon.append _)), name_append validOn (.cons (by decide) _),
        hskip]
    have htext : ("fragment " ++ name ++ " on " ++ on ++ " " ++ text ++ "\n").toList ++ rest =
        "fragment".toList ++ ' ' :: (name.toList ++ ' ' :: ("on".toList ++ ' ' ::
          (on.toList ++ ' ' :: (text.toList ++ '\n' :: rest)))) := by
      simp
    have hoperation : ∀ after, operation ("fragment".toList ++ after) = none := by
      intro after
      apply operation_eq_none
      intro c hc
      cases hc
      decide
    rw [htext]
    unfold definition
    rw [orElse_of_none (map_of_none (hoperation _) _), map_of_reads]
    unfold fragment
    rw [bind_of_reads (symbol_blank "fragment" (hname.append _)),
      bind_of_reads (name_append valid (.cons (by decide) _)), bind_of_reads hcondition,
      bind_of_reads (optionalDirectives_eq hat), bind_of_reads (writes.reads _)]
    rfl

/-! ## Documents -/

theorem definition_nil : definition [] = none := by
  have hfragment : symbol "fragment" [] = none :=
    symbol_eq_none (show "fragment".toList = 'f' :: "ragment".toList by decide) (by simp)
  unfold definition
  rw [orElse_of_none (map_of_none (operation_eq_none (by simp)) _)]
  exact map_of_none (bind_of_none hfragment _) _

/-- Definitions with line ends between them are read one after the other. -/
theorem readAll_definitions {items : List (String × (Operation ⊕ FragmentDefinition))}
    (nonempty : items ≠ []) (writes : ∀ item ∈ items, WritesDefinition item.1 item.2) :
    definitions.readAll ("\n".intercalate (items.map Prod.fst)).toList = some (items.map Prod.snd) := by
  have hrow : Row definition
      (skipFrom false (("\n".intercalate (items.map Prod.fst)).toList ++ []))
      (items.map Prod.snd) (skipFrom false []) := by
    refine row_intercalate (by decide) (fun item hitem after (_ : True) ↦ ?_) (fun _ _ _ ↦ trivial)
      trivial definition_nil
    have hstart := (writes item hitem).starts
    have hread := (writes item hitem).reads after
    exact hstart.reads hread
  obtain ⟨first, others, rfl⟩ := List.exists_cons_of_ne_nil nonempty
  rw [List.append_nil] at hrow
  have hread : definitions ("\n".intercalate ((first :: others).map Prod.fst)).toList =
      some ((first :: others).map Prod.snd, []) := by
    unfold definitions
    rw [bind_of_reads (show skip _ = some ((), _) from rfl)]
    exact hrow.many1
  unfold readAll
  rw [show definitions.run _ = _ from hread]

theorem eraseDups_of_nodup {names : List String} (h : names.Nodup) : names.eraseDups = names := by
  induction names with
  | nil => rfl
  | cons name rest ih =>
    obtain ⟨hname, hrest⟩ := List.nodup_cons.mp h
    have hkept : rest.filter (fun other ↦ !(other == name)) = rest := by
      apply List.filter_eq_self.mpr
      intro other hother
      have hne : other ≠ name := fun heq ↦ hname (heq ▸ hother)
      simp [hne]
    rw [List.eraseDups_cons, hkept, ih hrest]

theorem distinct_of_nodup {names : List String} (h : names.Nodup) : distinct names = true := by
  unfold distinct
  rw [eraseDups_of_nodup h]
  exact beq_self_eq_true _

/-- An operation with fragments behind it, no two of one name, is read as a request. -/
theorem parse?_intercalate {text : String} {operation : Operation}
    (items : List (String × FragmentDefinition)) (first : WritesDefinition text (.inl operation))
    (others : ∀ item ∈ items, WritesDefinition item.1 (.inr item.2))
    (nodup : ((items.map Prod.snd).map (·.name)).Nodup) :
    parse? ("\n".intercalate (text :: items.map Prod.fst)) =
      some ⟨[operation], items.map Prod.snd⟩ := by
  have hwrites : ∀ item ∈ (text, Sum.inl operation) :: items.map fun item ↦ (item.1, Sum.inr item.2),
      WritesDefinition item.1 item.2 := by
    intro item hitem
    rcases List.mem_cons.mp hitem with rfl | hmem
    · exact first
    · obtain ⟨other, hother, rfl⟩ := List.mem_map.mp hmem
      exact others other hother
  have hread := readAll_definitions (List.cons_ne_nil _ _) hwrites
  simp only [List.map_cons, List.map_map, Function.comp_def] at hread
  have hname : distinct ([operation].filterMap (·.name)) = true := by
    apply distinct_of_nodup
    cases hname : operation.name <;> simp [hname]
  have hwhole : Document.isWellFormed ⟨[operation], items.map Prod.snd⟩ = true := by
    unfold Document.isWellFormed
    dsimp only
    rw [distinct_of_nodup nodup, hname]
    rfl
  have hoperations : items.filterMap (fun _ ↦ (none : Option Operation)) = [] := by simp
  have hfragments : items.filterMap (fun item ↦ some item.2) = items.map Prod.snd := by
    rw [← List.filterMap_eq_map]
    rfl
  unfold parse?
  rw [hread]
  simp only [Option.bind_eq_bind, Option.bind_some, List.filterMap_cons, List.filterMap_map,
    Function.comp_def, hoperations, hfragments]
  exact if_pos hwhole

end ResourceApi.Request

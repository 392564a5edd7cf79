import ResourceApi.Document.Reader
import ResourceApi.Proofs.Document.Description
import ResourceApi.Proofs.Literal.RoundTrip
import ResourceApi.Proofs.TypeRef

/-!
# Reading printed bodies

What a definition holds is read as it is printed: its fields with their arguments, types and defaults, its
members, or its values.  Each construct is read up to a place where nothing can be added to it, which is
where the next one starts or where a bracket closes.  Descriptions are read if they close, as block strings
give them; a definition without any is read as it is.
-/

namespace ResourceApi

open Text Text.Reader Literal.Grammar

/-! ## Definitions that are read as they are printed -/

/-- The text is that of a reference to a named type. -/
def IsDecorated (text : String) : Prop :=
  ∃ name nullable, Name.isValid name.toList = true ∧ text = decorate name nullable

structure ArgumentDefinition.Readable (argument : ArgumentDefinition) : Prop where
  name : Name.isValid argument.name.toList = true
  type : IsDecorated argument.type
  default : ∀ text ∈ argument.default, Literal.IsConstant text

structure FieldDefinition.Readable (field : FieldDefinition) : Prop where
  name : Name.isValid field.name.toList = true
  type : IsDecorated field.type
  arguments : ∀ argument ∈ field.arguments, argument.Readable
  default : ∀ text ∈ field.default, Literal.IsConstant text
  description : field.description = none

/-- The definition holds what its kind prints, of which there is something, and nothing else. -/
def Definition.FitsKind (definition : Definition) : Prop :=
  match definition.kind with
  | .scalar =>
    definition.extending = false ∧ definition.fields = [] ∧ definition.members = [] ∧
      definition.values = []
  | .union => definition.fields = [] ∧ definition.members ≠ [] ∧ definition.values = []
  | .enumeration => definition.fields = [] ∧ definition.members = [] ∧ definition.values ≠ []
  | .inputObject =>
    definition.fields ≠ [] ∧ (∀ field ∈ definition.fields, field.arguments = []) ∧
      definition.members = [] ∧ definition.values = []
  | .object | .interface =>
    definition.fields ≠ [] ∧ (∀ field ∈ definition.fields, field.default = none) ∧
      definition.members = [] ∧ definition.values = []

/-- What is asked of a definition that is to be read as it is printed: all of it is printed, and its parts
are spelled as the reader spells them. -/
structure Definition.Readable (definition : Definition) : Prop where
  name : Name.isValid definition.name.toList = true
  description : definition.description = none
  fields : ∀ field ∈ definition.fields, field.Readable
  members : ∀ member ∈ definition.members, Name.isValid member.toList = true
  values : ∀ value ∈ definition.values, Literal.isEnumName value = true
  fits : definition.FitsKind

/-! ## Definitions with descriptions -/

structure FieldDefinition.Legible (field : FieldDefinition) : Prop where
  name : Name.isValid field.name.toList = true
  type : IsDecorated field.type
  arguments : ∀ argument ∈ field.arguments, argument.Readable
  default : ∀ text ∈ field.default, Literal.IsConstant text
  description : ∀ text ∈ field.description, TypeDocument.Closes text.toList

/-- What is asked of a definition that is to be read as it is printed, but for the blanks of its
descriptions; an extension has none of its own. -/
structure Definition.Legible (definition : Definition) : Prop where
  name : Name.isValid definition.name.toList = true
  description : ∀ text ∈ definition.description, TypeDocument.Closes text.toList
  extension : definition.extending = true → definition.description = none
  fields : ∀ field ∈ definition.fields, field.Legible
  members : ∀ member ∈ definition.members, Name.isValid member.toList = true
  values : ∀ value ∈ definition.values, Literal.isEnumName value = true
  fits : definition.FitsKind

/-- The field with its description as it is read. -/
def FieldDefinition.readBack (field : FieldDefinition) : FieldDefinition :=
  { field with description := field.description.map TypeDocument.readText }

/-- The definition as it is read: the resource it comes from is not written. -/
def Definition.readBack (definition : Definition) : Definition :=
  { definition with
    description := definition.description.map TypeDocument.readText
    fields := definition.fields.map FieldDefinition.readBack
    resource := none }

theorem FieldDefinition.Readable.legible {field : FieldDefinition} (readable : field.Readable) :
    field.Legible :=
  ⟨readable.name, readable.type, readable.arguments, readable.default,
    fun _ h ↦ nomatch readable.description ▸ h⟩

theorem FieldDefinition.Readable.readBack_eq {field : FieldDefinition} (readable : field.Readable) :
    field.readBack = field := by
  unfold readBack
  rw [readable.description]
  exact congrArg (fun description ↦ { field with description }) readable.description.symm

theorem Definition.Readable.legible {definition : Definition} (readable : definition.Readable) :
    definition.Legible :=
  ⟨readable.name, (fun _ h ↦ nomatch readable.description ▸ h), fun _ ↦ readable.description,
    fun field hfield ↦ (readable.fields field hfield).legible, readable.members, readable.values,
    readable.fits⟩

theorem Definition.Readable.readBack_eq {definition : Definition} (readable : definition.Readable) :
    definition.readBack = { definition with resource := none } := by
  have hfields : definition.fields.map FieldDefinition.readBack = definition.fields :=
    (List.map_congr_left fun field hfield ↦ (readable.fields field hfield).readBack_eq).trans
      (List.map_id _)
  unfold readBack
  rw [hfields, readable.description]
  rfl

namespace TypeDocument

open Grammar

variable {α β : Type} {p : Reader α} {text rest : List Char}

/-! ## Where a construct ends -/

/-- The character starts the next item, of which a description may come first, or closes what holds the
items. -/
def startsItem (c : Char) : Bool := Name.isStart c || c == '"' || c == '\x7d' || c == ')'

/-- Nothing can be added here to what stands before. -/
structure Ends (text : List Char) : Prop where
  delimited : Delimited text
  next : ∀ c ∈ (skipFrom false text).head?, startsItem c = true

theorem ends_nil : Ends [] := ⟨(fun _ h ↦ nomatch h), fun _ h ↦ nomatch h⟩

theorem Ends.line (ends : Ends rest) : Ends ('\n' :: rest) := ⟨.cons (by decide) rest, ends.next⟩

theorem ends_bracket {c : Char} (h : c = '\x7d' ∨ c = ')') (rest : List Char) : Ends (c :: rest) := by
  rcases h with rfl | rfl
  · exact ⟨.cons (by decide) rest, fun d hd ↦ by cases hd; decide⟩
  · exact ⟨.cons (by decide) rest, fun d hd ↦ by cases hd; decide⟩

/-- The text starts with a name. -/
def StartsName (text : List Char) : Prop :=
  ∃ first more, text = first :: more ∧ Name.isStart first = true

theorem StartsName.append (h : StartsName text) (rest : List Char) : StartsName (text ++ rest) := by
  obtain ⟨first, more, rfl, hstart⟩ := h
  exact ⟨first, more ++ rest, rfl, hstart⟩

theorem StartsName.startsToken (h : StartsName text) : StartsToken text := by
  obtain ⟨first, more, rfl, hstart⟩ := h
  exact ⟨first, more, rfl,
    Literal.isSignificant_of_isContinue (Literal.isContinue_of_isStart hstart)⟩

/-- The text starts with a name, or with a description in front of one. -/
def StartsItem (text : List Char) : Prop :=
  StartsName text ∨ ∃ more, text = '"' :: more

theorem StartsItem.append (h : StartsItem text) (rest : List Char) : StartsItem (text ++ rest) := by
  obtain hname | ⟨more, rfl⟩ := h
  · exact .inl (hname.append rest)
  · exact .inr ⟨more ++ rest, rfl⟩

theorem StartsItem.startsToken (h : StartsItem text) : StartsToken text := by
  obtain hname | ⟨more, rfl⟩ := h
  · exact hname.startsToken
  · exact ⟨'"', more, rfl, by decide⟩

/-- What stands before a blank ends there if an item follows. -/
theorem StartsItem.ends (h : StartsItem text) (c : Char) (blank : List Char)
    (delimiter : isDelimiter c = true) (skipped : isBlank (c :: blank) = true) :
    Ends (c :: blank ++ text) := by
  refine ⟨.cons delimiter _, fun d hd ↦ ?_⟩
  rw [skipFrom_append_blank skipped, h.startsToken.skipFrom_eq] at hd
  obtain ⟨first, more, rfl, hstart⟩ | ⟨more, rfl⟩ := h
  · cases hd
    unfold startsItem
    rw [hstart]
    rfl
  · cases hd
    rfl

theorem Ends.symbol_eq_none (ends : Ends rest) {word : String} {first : Char} {more : List Char}
    (spelled : word.toList = first :: more) (apart : startsItem first = false) :
    symbol word (skipFrom false rest) = none := by
  refine Literal.Grammar.symbol_eq_none spelled fun hfirst ↦ ?_
  cases apart.symm.trans (ends.next first hfirst)

theorem skipDirectives_eq (h : text.head? ≠ some '@') : skipDirectives text = some ((), text) := by
  have hnone : directives true text = none := by
    unfold directives many1
    refine bind_of_none (bind_of_none ?_ _) _
    exact symbol_eq_none (show "@".toList = ['@'] by decide) h
  exact bind_of_reads (maybe_of_none hnone) _

theorem Ends.skipDirectives (ends : Ends rest) :
    skipDirectives (skipFrom false rest) = some ((), skipFrom false rest) :=
  skipDirectives_eq fun hfirst ↦ nomatch ends.next '@' hfirst

/-- A name is not preceded by a description. -/
theorem maybe_string_of_name (h : StartsName text) : maybe string text = some (none, text) := by
  refine maybe_of_none (string_eq_none fun hfirst ↦ ?_)
  obtain ⟨first, more, rfl, hstart⟩ := h
  cases hfirst
  cases hstart

/-! ## Descriptions -/

/-- What a description prints between the blanks before it and those before what it describes, which are
taken along. -/
def describe (indent : String) : Option String → String
  | some text => "\"\"\"" ++ String.ofList (escapeTripleQuotes text.toList) ++ "\"\"\"\n" ++ indent
  | none => ""

theorem renderDescription_append (indent : String) (description : Option String) :
    renderDescription indent description ++ indent = indent ++ describe indent description := by
  cases description with
  | none => simp [renderDescription, describe]
  | some text => simp [renderDescription, describe, String.append_assoc]

theorem describe_append (indent text : String) (rest : List Char) :
    (describe indent (some text)).toList ++ rest =
      "\"\"\"".toList ++ quoted text.toList ('\n' :: (indent.toList ++ rest)) := by
  simp [describe, quoted]

theorem startsItem_describe (indent : String) (description : Option String) (h : StartsName text) :
    StartsItem ((describe indent description).toList ++ text) := by
  cases description with
  | none => exact .inl h
  | some described => exact .inr ⟨_, by rw [describe_append]; rfl⟩

/-- A description is read up to the name behind it. -/
theorem maybe_string_describe (indent : String) {description : Option String}
    (closes : ∀ text ∈ description, Closes text.toList) (blank : isBlank indent.toList = true)
    (h : StartsName text) : maybe string ((describe indent description).toList ++ text) =
      some (description.map readText, text) := by
  cases description with
  | none => exact maybe_string_of_name h
  | some described =>
    have hblank : isBlank ('\n' :: indent.toList) = true := blank
    have hrest : skipFrom false ('\n' :: (indent.toList ++ text)) = text := by
      rw [← List.cons_append, skipFrom_append_blank hblank, h.startsToken.skipFrom_eq]
    rw [describe_append]
    refine maybe_of_reads ?_
    rw [string_quoted (closes described rfl), hrest]

/-! ## Arguments and fields -/

theorem startsToken_render_typeRef {ref : TypeRef} (valid : Name.isValid ref.name.toList = true) :
    StartsToken ref.render.toList := by
  rw [TypeRef.render, String.toList_ofList]
  cases ref with
  | named name nullable => exact (Literal.startsToken_of_name valid).append _
  | list item nullable => exact ⟨'[', _, rfl, by decide⟩

theorem maybe_defaultValue_append {default : Option String}
    (constant : ∀ text ∈ default, Literal.IsConstant text) (ends : Ends rest) :
    maybe defaultValue (skipFrom false ((renderDefault default).toList ++ rest)) =
      some (default, skipFrom false rest) := by
  cases default with
  | none =>
    refine maybe_of_none (bind_of_none ?_ _)
    exact ends.symbol_eq_none (show "=".toList = ['='] by decide) (by decide)
  | some text =>
    obtain ⟨value, hformed, hlegible, rfl⟩ := (constant text rfl).exists_literal
    have hrender : (renderDefault (some value.render)).toList ++ rest =
        ' ' :: '=' :: ' ' :: (value.render.toList ++ rest) := by
      simp [renderDefault]
    have hvalue : skipFrom false (' ' :: (value.render.toList ++ rest)) = value.render.toList ++ rest :=
      ((Literal.startsToken_render hformed hlegible).append rest).skipFrom_eq
    rw [hrender]
    refine maybe_of_reads ?_
    change defaultValue ('=' :: ' ' :: (value.render.toList ++ rest)) = _
    unfold defaultValue
    rw [bind_of_reads (symbol_cons (show "=".toList = ['='] by decide) _), hvalue,
      bind_of_reads (Literal.literal_append hformed hlegible ends.delimited)]
    rfl

theorem delimited_default {default : Option String} (ends : Ends rest) :
    Delimited ((renderDefault default).toList ++ rest) := by
  cases default with
  | none => exact ends.delimited
  | some text =>
    have hrender : (renderDefault (some text)).toList ++ rest =
        ' ' :: '=' :: ' ' :: (text.toList ++ rest) := by
      simp [renderDefault]
    rw [hrender]
    exact .cons (by decide) _

/-- The type after a name is read. -/
theorem typeRef_decorated {name : String} {nullable : List Bool}
    (valid : Name.isValid name.toList = true) (delimited : Delimited rest) :
    typeRef (skipFrom false (' ' :: ((decorate name nullable).toList ++ rest))) =
      some (TypeRef.ofVector name nullable, skipFrom false rest) := by
  have hname : Name.isValid (TypeRef.ofVector name nullable).name.toList = true := by
    rwa [TypeRef.name_ofVector]
  have hblank : skipFrom false (' ' :: ((decorate name nullable).toList ++ rest)) =
      (TypeRef.ofVector name nullable).render.toList ++ rest :=
    ((startsToken_render_typeRef hname).append rest).skipFrom_eq
  rw [hblank]
  exact typeRef_append hname delimited

/-- The field of an input that is printed like the argument. -/
def toField (argument : ArgumentDefinition) : FieldDefinition :=
  { FieldDefinition.new argument.name argument.type with default := argument.default }

theorem map_toField (arguments : List ArgumentDefinition) :
    (arguments.map toField).map toArgument = arguments := by
  rw [List.map_map]
  exact List.map_id' arguments

theorem startsName_renderArgument {argument : ArgumentDefinition} (readable : argument.Readable) :
    StartsName (renderArgument argument).toList := by
  have hrender : (renderArgument argument).toList =
      argument.name.toList ++ (": " ++ argument.type ++ renderDefault argument.default).toList := by
    simp [renderArgument]
  rw [hrender]
  exact StartsName.append (Literal.exists_name readable.name) _

/-- An argument, or a field of an input with its description, is read as it is printed. -/
theorem inputValue_append {argument : ArgumentDefinition} (readable : argument.Readable)
    {description : Option String} (closes : ∀ text ∈ description, Closes text.toList)
    (ends : Ends rest) :
    inputValue ((describe "  " description).toList ++ ((renderArgument argument).toList ++ rest)) =
      some ({ toField argument with description := description.map readText },
        skipFrom false rest) := by
  have hstart := startsName_renderArgument readable
  obtain ⟨name, type, default⟩ := argument
  obtain ⟨hname, ⟨named, nullable, hnamed, rfl⟩, hdefault⟩ := readable
  have hrender : (renderArgument ⟨name, decorate named nullable, default⟩).toList ++ rest =
      name.toList ++ ':' :: ' ' :: ((decorate named nullable).toList ++
        ((renderDefault default).toList ++ rest)) := by
    simp [renderArgument]
  have hcolon : ∀ after, skipFrom false (':' :: after) = ':' :: after := fun _ ↦ rfl
  unfold inputValue
  rw [bind_of_reads (maybe_string_describe _ closes (by decide) (hstart.append rest)), hrender,
    bind_of_reads (name_append hname (.cons (by decide) _)), hcolon,
    bind_of_reads (symbol_cons (show ":".toList = [':'] by decide) _),
    bind_of_reads (typeRef_decorated hnamed (delimited_default ends)),
    bind_of_reads (maybe_defaultValue_append hdefault ends), bind_of_reads ends.skipDirectives]
  rfl

/-- A closing bracket is no item that has a description and a name. -/
theorem described_eq_none {c : Char} (h : c = '\x7d' ∨ c = ')') {named : Reader β}
    (unnamed : named (c :: rest) = none) (next : Option String → β → Reader α) :
    (maybe string >>= fun description ↦ named >>= next description) (c :: rest) = none := by
  have hstring : string (c :: rest) = none := string_eq_none fun hfirst ↦ by
    cases hfirst
    rcases h with heq | heq <;> cases heq
  rw [bind_of_reads (maybe_of_none hstring), bind_of_none unnamed]

theorem name_bracket {c : Char} (h : c = '\x7d' ∨ c = ')') (rest : List Char) :
    Literal.Grammar.name (c :: rest) = none := by
  apply name_cons_eq_none
  rcases h with rfl | rfl <;> decide

theorem argumentsDefinition_append {arguments : List ArgumentDefinition}
    (readable : ∀ argument ∈ arguments, argument.Readable) (nonempty : arguments ≠ []) :
    argumentsDefinition ((renderArguments arguments).toList ++ rest) =
      some (arguments, skipFrom false rest) := by
  have hrender : (renderArguments arguments).toList ++ rest =
      '(' :: ((", ".intercalate (arguments.map renderArgument)).toList ++ ')' :: rest) := by
    simp [renderArguments, nonempty]
  have hstop : inputValue (')' :: rest) = none :=
    described_eq_none (.inr rfl) (name_bracket (.inr rfl) rest) _
  have hrow : Row inputValue
      (skipFrom false ((", ".intercalate (arguments.map renderArgument)).toList ++ ')' :: rest))
      (arguments.map toField) (')' :: rest) := by
    refine row_intercalate (by decide) (fun argument hargument after hafter ↦ ?_)
      (fun argument hargument after ↦ ?_) (ends_bracket (.inr rfl) rest) hstop
    · have hstart := (startsName_renderArgument (readable argument hargument)).startsToken
      have hnone : ∀ text ∈ (none : Option String), Closes text.toList := nofun
      have hreads := inputValue_append (readable argument hargument) hnone hafter
      change inputValue ((renderArgument argument).toList ++ after) = _ at hreads
      exact hstart.reads hreads
    · have hstart := startsName_renderArgument (readable argument hargument)
      exact StartsItem.ends (.inl (hstart.append after)) ',' [' '] (by decide) (by decide)
  obtain ⟨first, others, rfl⟩ := List.exists_cons_of_ne_nil nonempty
  unfold argumentsDefinition
  rw [hrender, bind_of_reads (symbol_cons (show "(".toList = ['('] by decide) _),
    bind_of_reads hrow.many1, bind_of_reads (symbol_cons (show ")".toList = [')'] by decide) rest)]
  exact congrArg (fun arguments ↦ some (arguments, skipFrom false rest)) (map_toField (first :: others))

/-- The arguments of a field are read up to the colon behind them. -/
theorem exists_maybe_arguments {arguments : List ArgumentDefinition}
    (readable : ∀ argument ∈ arguments, argument.Readable) (rest : List Char) :
    ∃ read, maybe argumentsDefinition
        (skipFrom false ((renderArguments arguments).toList ++ ':' :: rest)) =
          some (read, ':' :: rest) ∧ read.getD [] = arguments := by
  by_cases hempty : arguments = []
  · subst hempty
    refine ⟨none, maybe_of_none (bind_of_none ?_ _), rfl⟩
    have hcolon : skipFrom false ((renderArguments []).toList ++ ':' :: rest) = ':' :: rest := rfl
    rw [hcolon]
    exact symbol_eq_none (show "(".toList = ['('] by decide) (by simp)
  · have hread : argumentsDefinition ((renderArguments arguments).toList ++ ':' :: rest) =
        some (arguments, ':' :: rest) := argumentsDefinition_append readable hempty
    have hopen : skipFrom false ((renderArguments arguments).toList ++ ':' :: rest) =
        (renderArguments arguments).toList ++ ':' :: rest := by
      simp [renderArguments, hempty]
      rfl
    rw [hopen]
    exact ⟨some arguments, maybe_of_reads hread, rfl⟩

theorem delimited_arguments (arguments : List ArgumentDefinition) (rest : List Char) :
    Delimited ((renderArguments arguments).toList ++ ':' :: rest) := by
  by_cases hempty : arguments = []
  · subst hempty
    exact .cons (by decide) rest
  · have hrender : (renderArguments arguments).toList ++ ':' :: rest =
        '(' :: ((", ".intercalate (arguments.map renderArgument)).toList ++ ')' :: ':' :: rest) := by
      simp [renderArguments, hempty]
    rw [hrender]
    exact .cons (by decide) _

/-- What a field prints between the blanks before it and the end of its line. -/
def fieldText (field : FieldDefinition) : String :=
  describe "  " field.description ++ field.name ++ renderArguments field.arguments ++ ": " ++
    field.type ++ renderDefault field.default

theorem renderField_eq (field : FieldDefinition) :
    renderField field = "  " ++ fieldText field ++ "\n" := by
  have hdescription := renderDescription_append "  " field.description
  unfold renderField fieldText
  rw [hdescription]
  simp [String.append_assoc]

theorem startsItem_fieldText {field : FieldDefinition} (legible : field.Legible) :
    StartsItem (fieldText field).toList := by
  simp only [fieldText, String.toList_append, List.append_assoc]
  exact startsItem_describe _ _ (StartsName.append (Literal.exists_name legible.name) _)

/-- A field of an object is read as it is printed. -/
theorem fieldDefinition_append {field : FieldDefinition} (legible : field.Legible)
    (plain : field.default = none) (ends : Ends rest) :
    fieldDefinition ((fieldText field).toList ++ rest) = some (field.readBack, skipFrom false rest) := by
  obtain ⟨name, type, arguments, default, description⟩ := field
  obtain ⟨hname, ⟨named, nullable, hnamed, rfl⟩, harguments, -, hdescription⟩ := legible
  obtain rfl : default = none := plain
  have hrender : (fieldText ⟨name, decorate named nullable, arguments, none, description⟩).toList ++ rest =
      (describe "  " description).toList ++ (name.toList ++ ((renderArguments arguments).toList ++
        ':' :: ' ' :: ((decorate named nullable).toList ++ rest))) := by
    simp [fieldText, renderDefault]
  obtain ⟨read, hread, hgiven⟩ :=
    exists_maybe_arguments harguments (' ' :: ((decorate named nullable).toList ++ rest))
  have hstart : StartsName name.toList := Literal.exists_name hname
  unfold fieldDefinition
  rw [hrender, bind_of_reads (maybe_string_describe _ hdescription (by decide) (hstart.append _)),
    bind_of_reads (name_append hname (delimited_arguments _ _)), bind_of_reads hread,
    bind_of_reads (symbol_cons (show ":".toList = [':'] by decide) _),
    bind_of_reads (typeRef_decorated hnamed ends.delimited), bind_of_reads ends.skipDirectives, hgiven]
  rfl

/-- A field of an input is read as it is printed. -/
theorem inputField_append {field : FieldDefinition} (legible : field.Legible)
    (plain : field.arguments = []) (ends : Ends rest) :
    inputValue ((fieldText field).toList ++ rest) = some (field.readBack, skipFrom false rest) := by
  have hargument : (toArgument field).Readable := ⟨legible.name, legible.type, legible.default⟩
  have htext : (fieldText field).toList ++ rest = (describe "  " field.description).toList ++
      ((renderArgument (toArgument field)).toList ++ rest) := by
    simp [fieldText, renderArgument, toArgument, renderArguments, plain]
  have hread := inputValue_append hargument legible.description ends
  obtain ⟨name, type, arguments, default, description⟩ := field
  obtain rfl : arguments = [] := plain
  rw [htext]
  exact hread

/-! ## Blocks -/

theorem intercalate_empty (lines : List String) : "".intercalate lines = String.join lines := by
  induction lines with
  | nil => rfl
  | cons line more ih =>
    cases more with
    | nil => simp
    | cons next others =>
      rw [String.intercalate_cons_cons, ih, String.append_empty, String.join_cons (s := line)]

/-- Lines in braces are read as they are printed, if the text of each line is. -/
theorem block_append {items : List β} (body : β → String) (read : β → α) (nonempty : items ≠ [])
    (starts : ∀ item ∈ items, StartsItem (body item).toList)
    (reads : ∀ item ∈ items, ∀ after, Ends after →
      p ((body item).toList ++ after) = some (read item, skipFrom false after))
    (stop : ∀ after, p ('\x7d' :: after) = none) (rest : List Char) :
    block p (skipFrom false
      ((renderBlock (items.map fun item ↦ "  " ++ body item ++ "\n")).toList ++ rest)) =
        some (items.map read, skipFrom false rest) := by
  let line : β → String := fun item ↦ "  " ++ body item ++ "\n"
  have hopen : skipFrom false ((renderBlock (items.map line)).toList ++ rest) = '\x7b' :: '\n' ::
      (("".intercalate (items.map line)).toList ++ '\x7d' :: '\n' :: rest) := by
    rw [intercalate_empty]
    simp [renderBlock]
    rfl
  have hline : ∀ item after, (line item).toList ++ after =
      ' ' :: [' '] ++ ((body item).toList ++ '\n' :: after) := by
    intro item after
    simp [line]
  have hrow : Row p
      (skipFrom false (("".intercalate (items.map line)).toList ++ '\x7d' :: '\n' :: rest))
      (items.map read) ('\x7d' :: '\n' :: rest) := by
    refine row_intercalate (by decide) (fun item hitem after hafter ↦ ?_)
      (fun item hitem after ↦ ?_) (ends_bracket (.inl rfl) _) (stop _)
    · have hstart := (starts item hitem).startsToken
      have hreads := reads item hitem ('\n' :: after) hafter.line
      rw [hline, skipFrom_append_blank (by decide)]
      exact hstart.reads hreads
    · have hends := ((starts item hitem).append ('\n' :: after)).ends ' ' [' ']
        (by decide) (by decide)
      rw [← hline] at hends
      exact hends
  obtain ⟨first, others, rfl⟩ := List.exists_cons_of_ne_nil nonempty
  unfold block
  rw [hopen, bind_of_reads (symbol_cons (show "\x7b".toList = ['\x7b'] by decide) _)]
  change (many1 p >>= _) (skipFrom false (("".intercalate ((first :: others).map line)).toList ++ _)) = _
  rw [bind_of_reads hrow.many1, bind_of_reads (symbol_cons (show "\x7d".toList = ['\x7d'] by decide) _)]
  rfl

theorem head?_block (lines : List String) (rest : List Char) :
    (skipFrom false ((renderBlock lines).toList ++ rest)).head? = some '\x7b' := by
  simp [renderBlock]
  rfl

theorem fields_append {p : Reader FieldDefinition} {fields : List FieldDefinition}
    (nonempty : fields ≠ []) (legible : ∀ field ∈ fields, field.Legible)
    (reads : ∀ field ∈ fields, ∀ after, Ends after →
      p ((fieldText field).toList ++ after) = some (field.readBack, skipFrom false after))
    (stop : ∀ after, p ('\x7d' :: after) = none) (rest : List Char) :
    block p (skipFrom false ((renderBlock (fields.map renderField)).toList ++ rest)) =
      some (fields.map FieldDefinition.readBack, skipFrom false rest) := by
  rw [funext renderField_eq]
  exact block_append fieldText _ nonempty
    (fun field hfield ↦ startsItem_fieldText (legible field hfield)) reads stop rest

/-! ## Enum values and union members -/

theorem enumValue_append {value : String} (valid : Literal.isEnumName value = true) (ends : Ends rest) :
    enumValue (value.toList ++ rest) = some (value, skipFrom false rest) := by
  have hstart : StartsName value.toList := Literal.exists_name (Bool.and_eq_true_iff.mp valid).1
  unfold enumValue
  rw [bind_of_reads (maybe_string_of_name (hstart.append _)),
    bind_of_reads (Literal.enumName_append valid ends.delimited), bind_of_reads ends.skipDirectives]
  rfl

theorem enumName_bracket (rest : List Char) : enumName ('\x7d' :: rest) = none := by
  have hreserved : reserved ('\x7d' :: rest) = none :=
    Literal.reserved_eq_none fun c hc ↦ by cases hc; decide
  unfold enumName
  rw [seqRight_of_reads (absent_of_none hreserved)]
  exact name_bracket (.inl rfl) rest

/-- The members behind the first one, each after a bar. -/
def barred (members : List String) : List Char :=
  members.flatMap fun member ↦ ' ' :: '|' :: ' ' :: member.toList

theorem intercalate_bar (member : String) (more : List String) :
    (" | ".intercalate (member :: more)).toList = member.toList ++ barred more := by
  induction more generalizing member with
  | nil => simp [barred]
  | cons next others ih =>
    rw [String.intercalate_cons_cons, String.toList_append, ih]
    simp [barred]

theorem delimited_barred (members : List String) (ends : Ends rest) :
    Delimited (barred members ++ rest) := by
  cases members with
  | nil => exact ends.delimited
  | cons member more => exact .cons (by decide) _

theorem row_barred {members : List String}
    (valid : ∀ member ∈ members, Name.isValid member.toList = true) (ends : Ends rest) :
    Row (symbol "|" *> Literal.Grammar.name) (skipFrom false (barred members ++ rest)) members
      (skipFrom false rest) := by
  have hbar : "|".toList = ['|'] := by decide
  -- a member is read up to the bar before the next one, which leaves the text of the members after it
  induction members with
  | nil => exact .done (seqRight_of_none (ends.symbol_eq_none hbar (by decide)) _)
  | cons member more ih =>
    obtain ⟨hmember, hmore⟩ := List.forall_mem_cons.mp valid
    have htext : skipFrom false (barred (member :: more) ++ rest) =
        '|' :: ' ' :: (member.toList ++ (barred more ++ rest)) := by
      simp [barred]
      rfl
    have hskip : skipFrom false (' ' :: (member.toList ++ (barred more ++ rest))) =
        member.toList ++ (barred more ++ rest) :=
      ((Literal.startsToken_of_name hmember).append _).skipFrom_eq
    have hless := length_skipFrom_le false (barred more ++ rest)
    rw [htext]
    refine .item ?_ ?_ (ih hmore)
    · rw [seqRight_of_reads (symbol_cons hbar _), hskip,
        name_append hmember (delimited_barred more ends)]
    · rw [List.length_cons, List.length_cons, List.length_append]
      omega

/-- The members of a union are read as they are printed. -/
theorem unionMembers_append {members : List String}
    (valid : ∀ member ∈ members, Name.isValid member.toList = true) (nonempty : members ≠ [])
    (ends : Ends rest) :
    unionMembers ('=' :: ' ' :: ((" | ".intercalate members).toList ++ rest)) =
      some (members, skipFrom false rest) := by
  obtain ⟨member, more, rfl⟩ := List.exists_cons_of_ne_nil nonempty
  obtain ⟨hmember, hmore⟩ := List.forall_mem_cons.mp valid
  have hstart : StartsName member.toList := Literal.exists_name hmember
  have hskip : skipFrom false (' ' :: (member.toList ++ (barred more ++ rest))) =
      member.toList ++ (barred more ++ rest) := (hstart.append _).startsToken.skipFrom_eq
  have hbar : symbol "|" (member.toList ++ (barred more ++ rest)) = none := by
    refine symbol_eq_none (show "|".toList = ['|'] by decide) fun hfirst ↦ ?_
    obtain ⟨first, others, hname, hfirstStart⟩ := hstart
    rw [hname] at hfirst
    cases hfirst
    cases hfirstStart
  unfold unionMembers sepBy1
  rw [intercalate_bar, List.append_assoc,
    bind_of_reads (symbol_cons (show "=".toList = ['='] by decide) _), hskip,
    bind_of_reads (maybe_of_none hbar), bind_of_reads (name_append hmember (delimited_barred more ends)),
    bind_of_reads (row_barred hmore ends).many]
  rfl

/-! ## Bodies -/

/-- What is read after the name of a definition of the kind. -/
def bodyOf : DefinitionKind → Body
  | .scalar => scalarBody
  | .object | .interface => fieldsBody
  | .union => unionBody
  | .enumeration => enumBody
  | .inputObject => inputBody

section Bodies

variable {extending : Bool} {fields : List FieldDefinition} {values : List String}

theorem withFields_of_block {field : Reader FieldDefinition} (opened : text.head? = some '\x7b')
    (h : block field text = some (fields, rest)) : withFields field text =
      some ((fun definition ↦ { definition with fields := fields }), rest) := by
  unfold withFields
  rw [bind_of_reads (skipDirectives_eq (by simp [opened])), bind_of_reads h]
  rfl

theorem fieldsBody_of_block (opened : text.head? = some '\x7b')
    (h : block fieldDefinition text = some (fields, rest)) : fieldsBody extending text =
      some ((fun definition ↦ { definition with fields := fields }), rest) := by
  have hspelled : "implements".toList = 'i' :: "mplements".toList := by decide
  have himplemented : implemented text = none :=
    bind_of_none (symbol_eq_none hspelled (by simp [opened])) _
  cases extending with
  | false =>
    unfold fieldsBody
    dsimp only
    rw [bind_of_reads (maybe_of_none himplemented),
      bind_of_reads (skipDirectives_eq (by simp [opened])), bind_of_reads (maybe_of_reads h)]
    rfl
  | true =>
    refine orElse_of_reads ?_ _
    rw [seqRight_of_reads (maybe_of_none himplemented), withFields_of_block opened h]

theorem inputBody_of_block (opened : text.head? = some '\x7b')
    (h : block inputValue text = some (fields, rest)) : inputBody extending text =
      some ((fun definition ↦ { definition with fields := fields }), rest) := by
  cases extending <;> exact orElse_of_reads (withFields_of_block opened h) _

theorem enumBody_of_block (opened : text.head? = some '\x7b')
    (h : block enumValue text = some (values, rest)) : enumBody extending text =
      some ((fun definition ↦ { definition with values := values }), rest) := by
  cases extending <;>
  · refine orElse_of_reads ?_ _
    rw [bind_of_reads (skipDirectives_eq (by simp [opened])), bind_of_reads h]
    rfl

theorem unionBody_of_members (extending : Bool) {members : List String}
    (h : unionMembers ('=' :: text) = some (members, rest)) :
    unionBody extending ('=' :: text) =
      some ((fun definition ↦ { definition with members := members }), rest) := by
  cases extending <;>
  · refine orElse_of_reads ?_ _
    rw [bind_of_reads (skipDirectives_eq (by simp)), bind_of_reads h]
    rfl

end Bodies

/-- The body of a definition is read as it is printed, and gives the definition what it holds. -/
theorem exists_body {definition : Definition} (legible : definition.Legible) (ends : Ends rest) :
    ∃ complete, bodyOf definition.kind definition.extending
        (skipFrom false ((renderBody definition).toList ++ rest)) =
          some (complete, skipFrom false rest) ∧
      complete { Definition.new definition.name definition.kind with
        extending := definition.extending
        description := definition.description.map readText } = definition.readBack := by
  obtain ⟨name, kind, extending, description, fields, members, values, resource⟩ := definition
  obtain ⟨-, -, -, hfields, hmembers, hvalues, hfits⟩ := legible
  cases kind with
  | scalar =>
    obtain ⟨rfl, rfl, rfl, rfl⟩ : extending = false ∧ fields = [] ∧ members = [] ∧ values = [] := hfits
    have hread : scalarBody false (skipFrom false ("\n".toList ++ rest)) =
        some (id, skipFrom false rest) :=
      seqRight_of_reads ends.skipDirectives _
    exact ⟨id, hread, rfl⟩
  | union =>
    obtain ⟨rfl, hnonempty, rfl⟩ : fields = [] ∧ members ≠ [] ∧ values = [] := hfits
    have htext : skipFrom false ((" = " ++ " | ".intercalate members ++ "\n").toList ++ rest) =
        '=' :: ' ' :: ((" | ".intercalate members).toList ++ '\n' :: rest) := by
      simp
      rfl
    have hread := unionBody_of_members extending
      (unionMembers_append hmembers hnonempty ends.line)
    rw [← htext] at hread
    exact ⟨_, hread, rfl⟩
  | enumeration =>
    obtain ⟨rfl, rfl, hnonempty⟩ : fields = [] ∧ members = [] ∧ values ≠ [] := hfits
    have hblock := block_append id id hnonempty
      (fun value hvalue ↦ .inl (Literal.exists_name
        (Bool.and_eq_true_iff.mp (hvalues value hvalue)).1))
      (fun value hvalue after hafter ↦ enumValue_append (hvalues value hvalue) hafter)
      (fun after ↦ described_eq_none (.inl rfl) (enumName_bracket after) _) rest
    rw [List.map_id] at hblock
    exact ⟨_, enumBody_of_block (head?_block _ rest) hblock, rfl⟩
  | object | interface =>
    obtain ⟨hnonempty, hplain, rfl, rfl⟩ : fields ≠ [] ∧ (∀ field ∈ fields, field.default = none) ∧
      members = [] ∧ values = [] := hfits
    have hblock := fields_append (p := fieldDefinition) hnonempty hfields
      (fun field hfield after hafter ↦ fieldDefinition_append (hfields field hfield)
        (hplain field hfield) hafter)
      (fun after ↦ described_eq_none (.inl rfl) (name_bracket (.inl rfl) after) _) rest
    exact ⟨_, fieldsBody_of_block (head?_block _ rest) hblock, rfl⟩
  | inputObject =>
    obtain ⟨hnonempty, hplain, rfl, rfl⟩ : fields ≠ [] ∧ (∀ field ∈ fields, field.arguments = []) ∧
      members = [] ∧ values = [] := hfits
    have hblock := fields_append (p := inputValue) hnonempty hfields
      (fun field hfield after hafter ↦ inputField_append (hfields field hfield)
        (hplain field hfield) hafter)
      (fun after ↦ described_eq_none (.inl rfl) (name_bracket (.inl rfl) after) _) rest
    exact ⟨_, inputBody_of_block (head?_block _ rest) hblock, rfl⟩

end TypeDocument
end ResourceApi

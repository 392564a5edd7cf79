import ResourceApi.Proofs.Document.Body
import ResourceApi.Proofs.Except

/-!
# Reading printed documents

A definition starts with its keyword, or with that of an extension before it, which no other reader takes;
a description may come first, if there is no extension.  So a document that says no more than its definitions
print is read as it is printed, but for the resources its definitions come from, which are not written, and
for the descriptions, of which the values of their block strings are left.
-/

namespace ResourceApi.TypeDocument

open Text Text.Reader Literal.Grammar Grammar

variable {text rest : List Char}

/-! ## Definitions -/

section Keywords

variable {word : String} {kind other : DefinitionKind} {extending : Bool}

theorem startsName_keyword (kind : DefinitionKind) : StartsName kind.keyword.toList := by
  refine Literal.exists_name ?_
  cases kind <;> decide

/-- A text in which a blank follows the keyword does not start with the word. -/
def Apart (word keyword : String) : Prop :=
  dropWord word.toList keyword.toList = none ∧ ' ' ∉ word.toList

theorem Apart.symbol_eq_none {keyword : String} (apart : Apart word keyword) (rest : List Char) :
    symbol word (keyword.toList ++ ' ' :: rest) = none := by
  refine token_of_none (Literal.exactly_eq_none_iff.mpr ?_)
  refine dropWord_append_eq_none apart.1 fun c hc ↦ ?_
  cases hc
  exact apart.2

theorem symbol_blank (word : String) (h : StartsName text) :
    symbol word (word.toList ++ ' ' :: text) = some ((), text) := by
  rw [symbol_append]
  have hblank : skipFrom false (' ' :: text) = skipFrom false text := rfl
  rw [hblank, h.startsToken.skipFrom_eq]

/-- What stands before the name of a definition. -/
def introduce (extending : Bool) (kind : DefinitionKind) (text : List Char) : List Char :=
  (if extending then "extend ".toList else []) ++ (kind.keyword.toList ++ ' ' :: text)

theorem introduce_extension (kind : DefinitionKind) (text : List Char) :
    introduce true kind text = "extend".toList ++ ' ' :: introduce false kind text := by
  have hextend : "extend ".toList = "extend".toList ++ [' '] := by decide
  simp [introduce, hextend]

theorem startsName_introduce (extending : Bool) (kind : DefinitionKind) (text : List Char) :
    StartsName (introduce extending kind text) := by
  cases extending with
  | false => exact (startsName_keyword kind).append _
  | true => exact ⟨'e', _, by rw [introduce_extension]; rfl, by decide⟩

theorem Apart.symbol_definition (apart : Apart word kind.keyword) (text : List Char) :
    symbol word (introduce false kind text) = none :=
  apart.symbol_eq_none text

theorem Apart.symbol_extension (apart : Apart word "extend") (text : List Char) :
    symbol word (introduce true kind text) = none := by
  rw [introduce_extension]
  exact apart.symbol_eq_none _

/-- Neither the keyword nor an extension of it starts with the word. -/
theorem symbol_introduce_eq_none (apart : Apart word kind.keyword) (apart' : Apart word "extend") :
    symbol word (introduce extending kind text) = none := by
  cases extending with
  | false => exact apart.symbol_definition text
  | true => exact apart'.symbol_extension text

theorem symbol_keyword (kind : DefinitionKind) (h : StartsName text) :
    symbol kind.keyword (introduce false kind text) = some ((), text) :=
  symbol_blank kind.keyword h

theorem symbol_extend (kind : DefinitionKind) (text : List Char) :
    symbol "extend" (introduce true kind text) = some ((), introduce false kind text) := by
  rw [introduce_extension]
  exact symbol_blank "extend" (startsName_introduce false kind text)

theorem apart_extend (kind : DefinitionKind) :
    Apart "extend" kind.keyword ∧ Apart kind.keyword "extend" := by
  unfold Apart
  cases kind <;> decide

theorem apart_keyword (h : kind ≠ other) : Apart kind.keyword other.keyword := by
  unfold Apart
  revert h
  cases kind <;> cases other <;> decide

end Keywords

section Definitions

variable {definition : Definition} {word : String}

theorem renderDefinition_eq (definition : Definition) (rest : List Char) :
    (renderDefinition definition).toList ++ rest = (describe "" definition.description).toList ++
      introduce definition.extending definition.kind
        (definition.name.toList ++ ((renderBody definition).toList ++ rest)) := by
  have hdescription := renderDescription_append "" definition.description
  rw [String.append_empty, String.empty_append] at hdescription
  cases hextending : definition.extending <;>
    simp [renderDefinition, introduce, hdescription, hextending]

theorem startsItem_renderDefinition (definition : Definition) :
    StartsItem (renderDefinition definition).toList := by
  have htext := renderDefinition_eq definition []
  rw [List.append_nil] at htext
  rw [htext]
  exact startsItem_describe _ _ (startsName_introduce _ _ _)

theorem delimited_body (definition : Definition) (rest : List Char) :
    Delimited ((renderBody definition).toList ++ rest) := by
  have hstart : ∃ c more, (renderBody definition).toList ++ rest = c :: more ∧ isDelimiter c = true := by
    unfold renderBody
    cases definition.kind
    case scalar => exact ⟨'\n', rest, by simp, by decide⟩
    case union => exact ⟨' ', _, by simp; rfl, by decide⟩
    all_goals exact ⟨' ', _, by simp [renderBlock]; rfl, by decide⟩
  obtain ⟨c, more, htext, hc⟩ := hstart
  rw [htext]
  exact .cons hc more

/-- A definition is read as it is printed by the reader for its keyword. -/
theorem definitionOf_append (legible : definition.Legible) (ends : Ends rest) :
    definitionOf definition.kind.keyword definition.kind (bodyOf definition.kind)
        ((renderDefinition definition).toList ++ rest) =
      some (definition.readBack, skipFrom false rest) := by
  obtain ⟨complete, hbody, hcomplete⟩ := exists_body legible ends
  have hname : StartsName definition.name.toList := Literal.exists_name legible.name
  have hintroduced := startsName_introduce definition.extending definition.kind
    (definition.name.toList ++ ((renderBody definition).toList ++ rest))
  have hdescribed := maybe_string_describe "" legible.description rfl hintroduced
  have hread := bind_of_reads (name_append legible.name (delimited_body definition rest))
    fun name : String ↦ (do
      let complete ← bodyOf definition.kind definition.extending
      return complete { Definition.new name definition.kind with
        extending := definition.extending
        description := definition.description.map readText } : Reader Definition)
  rw [bind_of_reads hbody, hcomplete] at hread
  rw [renderDefinition_eq]
  unfold definitionOf
  cases hextending : definition.extending with
  | false =>
    rw [hextending] at hread hdescribed
    refine orElse_of_reads ?_ _
    rw [bind_of_reads hdescribed, bind_of_reads (symbol_keyword definition.kind (hname.append _))]
    exact hread
  | true =>
    -- the first alternative fails, since an extension starts with a word that is no keyword
    rw [legible.extension hextending] at hread hdescribed ⊢
    rw [hextending] at hread hdescribed
    rw [orElse_of_none]
    · change (symbol "extend" >>= _) (introduce true definition.kind _) = _
      rw [bind_of_reads (symbol_extend _ _),
        bind_of_reads (symbol_keyword definition.kind (hname.append _))]
      exact hread
    · rw [bind_of_reads hdescribed,
        bind_of_none ((apart_extend definition.kind).2.symbol_extension _)]

/-- A description is no word. -/
theorem symbol_describe_eq_none {first : Char} {more : List Char}
    (spelled : word.toList = first :: more) (h : first ≠ '"') (described : String) (text : List Char) :
    symbol word ((describe "" (some described)).toList ++ text) = none := by
  rw [describe_append]
  exact symbol_eq_none spelled fun hfirst ↦ h (Option.some.inj hfirst).symm

/-- A definition is not read by the reader for another keyword. -/
theorem definitionOf_eq_none {extending : Bool} {kind other : DefinitionKind} (h : other ≠ kind)
    (body : Body) {description : Option String} (closes : ∀ text ∈ description, Closes text.toList)
    (text : List Char) :
    definitionOf other.keyword other body
      ((describe "" description).toList ++ introduce extending kind text) = none := by
  have hstart := startsName_introduce extending kind text
  unfold definitionOf
  rw [orElse_of_none]
  · cases description with
    | none =>
      cases extending with
      | false => exact bind_of_none ((apart_extend kind).1.symbol_definition text) _
      | true =>
        change (symbol "extend" >>= _) (introduce true kind text) = _
        rw [bind_of_reads (symbol_extend kind text),
          bind_of_none ((apart_keyword h).symbol_definition text)]
    | some described =>
      have hextend : "extend".toList = 'e' :: "xtend".toList := by decide
      exact bind_of_none (symbol_describe_eq_none hextend (by decide) described _) _
  · rw [bind_of_reads (maybe_string_describe _ closes rfl hstart),
      bind_of_none (symbol_introduce_eq_none (apart_keyword h) (apart_extend other).2)]

theorem typeDefinition_eq : typeDefinition = DefinitionKind.all.foldr
    (fun kind next ↦ definitionOf kind.keyword kind (bodyOf kind) <|> next) failure := by
  simp only [DefinitionKind.all, List.foldr_cons, List.foldr_nil, orElse_failure]
  rfl

theorem typeDefinition_append (legible : definition.Legible) (ends : Ends rest) :
    typeDefinition ((renderDefinition definition).toList ++ rest) =
      some (definition.readBack, skipFrom false rest) := by
  have hkind : definition.kind ∈ DefinitionKind.all := by cases definition.kind <;> decide
  rw [typeDefinition_eq]
  refine foldr_orElse_of_reads hkind (definitionOf_append legible ends) fun other hother ↦ ?_
  rw [renderDefinition_eq]
  exact definitionOf_eq_none hother _ legible.description _

theorem schemaDefinition_eq_none {extending : Bool} {kind : DefinitionKind}
    (description : Option String) (text : List Char) :
    schemaDefinition ((describe "" description).toList ++ introduce extending kind text) = none := by
  have hkeyword : Apart "schema" kind.keyword := by
    unfold Apart
    cases kind <;> decide
  have hextend : Apart "schema" "extend" := by
    unfold Apart
    decide
  unfold schemaDefinition
  cases description with
  | none =>
    have hplain : (describe "" none).toList ++ introduce extending kind text =
        introduce extending kind text := rfl
    rw [hplain, orElse_of_none (bind_of_none (symbol_introduce_eq_none hkeyword hextend) _)]
    cases extending with
    | false => exact bind_of_none ((apart_extend kind).1.symbol_definition text) _
    | true => rw [bind_of_reads (symbol_extend kind text), bind_of_none (hkeyword.symbol_definition text)]
  | some described =>
    have hschema : "schema".toList = 's' :: "chema".toList := by decide
    have hextension : "extend".toList = 'e' :: "xtend".toList := by decide
    rw [orElse_of_none (bind_of_none (symbol_describe_eq_none hschema (by decide) described _) _)]
    exact bind_of_none (symbol_describe_eq_none hextension (by decide) described _) _

theorem entry_append (legible : definition.Legible) (ends : Ends rest) :
    entry ((renderDefinition definition).toList ++ rest) =
      some (some definition.readBack, skipFrom false rest) := by
  have hschema : schemaDefinition ((renderDefinition definition).toList ++ rest) = none := by
    rw [renderDefinition_eq]
    exact schemaDefinition_eq_none _ _
  unfold entry
  rw [orElse_of_none (seqRight_of_none hschema _)]
  exact orElse_of_reads (map_of_reads (typeDefinition_append legible ends) _) _

theorem entry_nil : entry [] = none := by
  decide

end Definitions

/-! ## Documents -/

/-- The definitions of a printed document are read one after the other. -/
theorem row_readBack {document : TypeDocument} (legible : ∀ definition ∈ document, definition.Legible) :
    Row entry (skipFrom false (render document).toList)
      ((document.map Definition.readBack).map some) [] := by
  have htext : (render document).toList =
      ("\n".intercalate (document.map renderDefinition)).toList ++ [] :=
    (List.append_nil _).symm
  rw [htext, List.map_map]
  refine row_intercalate (by decide) (fun definition hdefinition after hafter ↦ ?_)
    (fun definition hdefinition after ↦ ?_) ends_nil entry_nil
  · have hstart := (startsItem_renderDefinition definition).startsToken
    have hreads := entry_append (legible definition hdefinition) hafter
    exact hstart.reads hreads
  · have hstart := startsItem_renderDefinition definition
    exact (hstart.append after).ends '\n' [] (by decide) (by decide)

/-- A document is read as it is printed, with its descriptions as block strings give them and without the
resources its definitions come from. -/
theorem parse_readBack {document : TypeDocument} (nonempty : document ≠ [])
    (legible : ∀ definition ∈ document, definition.Legible) :
    parse (render document) = .ok (document.map Definition.readBack) := by
  have hrow := row_readBack legible
  obtain ⟨first, others, rfl⟩ := List.exists_cons_of_ne_nil nonempty
  have hkept : ((first :: others).map Definition.readBack |>.map some).filterMap id =
      (first :: others).map Definition.readBack := by
    rw [List.filterMap_map]
    exact List.filterMap_some
  have hread : Grammar.document (render (first :: others)).toList =
      some ((first :: others).map Definition.readBack, []) := by
    unfold Grammar.document
    rw [bind_of_reads (show skip _ = some ((), _) from rfl), bind_of_reads hrow.many1]
    exact congrArg (fun document ↦ some (document, [])) hkept
  unfold parse readAll
  rw [show Grammar.document.run _ = _ from hread]

/-- A document is read as it is printed, without the resources its definitions come from. -/
theorem parse_render {document : TypeDocument} (nonempty : document ≠ [])
    (readable : ∀ definition ∈ document, definition.Readable) :
    parse (render document) =
      .ok (document.map fun definition ↦ { definition with resource := none }) := by
  rw [parse_readBack nonempty fun definition hdefinition ↦ (readable definition hdefinition).legible]
  exact congrArg Except.ok (List.map_congr_left fun definition hdefinition ↦
    (readable definition hdefinition).readBack_eq)

/-- What is not read back: no definition at all, an enum value that starts with a reserved word, a string
with a control character that is written in other digits than it is read, and a float that is read as
another one. -/
theorem parse_render_unreadable :
    let printed : String → Option String := fun source ↦
      (Literal.Grammar.literal true source.toList).map fun read ↦ read.1.render
    let values : TypeDocument := [{ Definition.new "E" .enumeration with values := ["nullable"] }]
    let default : String → TypeDocument := fun text ↦ [{ Definition.new "I" .inputObject with
      fields := [{ FieldDefinition.new "x" "String" with default := some text }] }]
    printed "\"\\u0011\"" = some "\"\\u0017\"" ∧ printed "1e-28" = some "1.0000000000000001e-28" ∧
      ∀ document ∈ [[], values, default "\"\\u0017\"", default "1.0000000000000001e-28"],
        parse (render document) ≠ .ok document := by
  intro printed values default
  have hother : ∀ document ∈ [[], values, default "\"\\u0017\"", default "1.0000000000000001e-28"],
      (parse (render document)).passes (· == document) = false := by decide +kernel
  refine ⟨by decide +kernel, by decide +kernel, fun document hdocument hread ↦ ?_⟩
  have hpasses := hother document hdocument
  rw [hread] at hpasses
  exact Bool.false_ne_true (hpasses.symm.trans (beq_self_eq_true document))

/-- An input with a default, and an operation that takes it. -/
theorem parse_render_users :
    let page : Definition := { Definition.new "Page" .inputObject with
      fields := [{ FieldDefinition.new "limit" "Int!" with default := some "10" }]
      resource := some "User" }
    let query : Definition := { Definition.new "Query" .object with
      extending := true
      fields := [{ FieldDefinition.new "users" "[User!]" with arguments := [⟨"page", "Page", none⟩] }] }
    let document : TypeDocument := [page, query]
    document ≠ [] ∧ (∀ definition ∈ document, definition.Readable) ∧
      parse (render document) = .ok [{ page with resource := none }, query] := by
  intro page query document
  have hnonempty : document ≠ [] := List.cons_ne_nil _ _
  have hconstant : Literal.IsConstant "10" := ⟨['1', '0'], [], .int 10, rfl, trivial, by decide⟩
  have hlimit : IsDecorated "Int!" := ⟨"Int", [false], by decide, by decide⟩
  have husers : IsDecorated "[User!]" := ⟨"User", [true, false], by decide, by decide⟩
  have hpage : IsDecorated "Page" := ⟨"Page", [true], by decide, by decide⟩
  have hinput : page.Readable := by
    refine ⟨by decide, rfl, List.forall_mem_singleton.mpr ?_, by decide, by decide, ?_⟩
    · exact ⟨by decide, hlimit, (fun _ h ↦ nomatch h), fun _ h ↦ Option.some.inj h ▸ hconstant, rfl⟩
    · exact ⟨List.cons_ne_nil _ _, by decide, rfl, rfl⟩
  have hoperation : query.Readable := by
    refine ⟨by decide, rfl, List.forall_mem_singleton.mpr ?_, by decide, by decide, ?_⟩
    · refine ⟨by decide, husers, List.forall_mem_singleton.mpr ?_, (fun _ h ↦ nomatch h), rfl⟩
      exact ⟨by decide, hpage, fun _ h ↦ nomatch h⟩
    · exact ⟨List.cons_ne_nil _ _, by decide, rfl, rfl⟩
  have hreadable : ∀ definition ∈ document, definition.Readable :=
    List.forall_mem_cons.mpr ⟨hinput, List.forall_mem_singleton.mpr hoperation⟩
  exact ⟨hnonempty, hreadable, parse_render hnonempty hreadable⟩

end ResourceApi.TypeDocument

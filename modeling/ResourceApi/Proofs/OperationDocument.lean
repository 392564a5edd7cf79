import ResourceApi.OperationDocument
import ResourceApi.Proofs.Request.RoundTrip

/-!
# What operation documents say

The text of a document, line by line: the operation, then every appended fragment behind a blank line, with
its name, the type it is on and its selections.  If the names in it are names of the schema language, the
text is read as a request of one operation, which selects the result as its shape asks, and of these
fragments.
-/

namespace ResourceApi

open Request (Writes WritesBraces WritesOptional WritesDefinition IsSpreadName braces field heading)

/-! ## Lines -/

/-- The text with the given lines, each of which is ended. -/
def ofLines (lines : List String) : String := String.join (lines.map (· ++ "\n"))

theorem ofLines_cons (line : String) (lines : List String) :
    ofLines (line :: lines) = line ++ "\n" ++ ofLines lines := by
  simp [ofLines, String.join_cons]

theorem ofLines_append (front back : List String) :
    ofLines (front ++ back) = ofLines front ++ ofLines back := by
  simp [ofLines, String.join_append]

def Selection.lines : Selection → List String
  | .field name => [name]
  | .idOnly name => [name ++ " \x7b", "  id", "\x7d"]
  | .spread name fragment => [name ++ " \x7b", "  ..." ++ fragment, "\x7d"]

/-- The name and the type of the fragment, and then its selections. -/
def Fragment.lines (fragment : Fragment) : List String :=
  ("fragment " ++ fragment.name ++ " on " ++ fragment.on ++ " \x7b") ::
    (fragment.selections.flatMap Selection.lines).map ("  " ++ ·) ++ ["\x7d"]

theorem Selection.render_eq (selection : Selection) :
    selection.render = ofLines (selection.lines.map ("  " ++ ·)) := by
  apply String.toList_inj.mp
  cases selection <;> simp [render, lines, ofLines]

theorem Fragment.render_eq (fragment : Fragment) : fragment.render = ofLines fragment.lines := by
  have hselections : String.join (fragment.selections.map Selection.render) =
      ofLines ((fragment.selections.flatMap Selection.lines).map ("  " ++ ·)) := by
    induction fragment.selections with
    | nil => rfl
    | cons selection rest ih =>
      rw [List.map_cons, String.join_cons, ih, Selection.render_eq, List.flatMap_cons, List.map_append,
        ofLines_append]
  unfold render lines
  rw [hselections, List.cons_append, ofLines_cons, ofLines_append]
  simp [ofLines, String.append_assoc]

/-! ## Fragments as requests have them -/

/-- A field without arguments and selections. -/
def leaf (name : String) : Request.Selection := .field none name [] [] []

/-- The selection of a request that the selection is read as. -/
def Selection.request : Selection → Request.Selection
  | .field name => leaf name
  | .idOnly name => .field none name [] [] [leaf "id"]
  | .spread name fragment => .field none name [] [] [.spread fragment []]

/-- The definition of a request that the fragment is read as. -/
def Fragment.request (fragment : Fragment) : Request.FragmentDefinition :=
  ⟨fragment.name, fragment.on, [], fragment.selections.map Selection.request⟩

/-- The names of the selection can be read: they are names of the schema language, and what is spread does
not start like the word before a type. -/
def Selection.Spelled (selection : Selection) : Prop :=
  Name.isValid selection.fieldName.toList = true ∧ ∀ fragment ∈ selection.spread?, IsSpreadName fragment

/-- The names of the fragment can be read, and it selects something. -/
structure Fragment.Spelled (fragment : Fragment) : Prop where
  name : Name.isValid fragment.name.toList = true
  on : Name.isValid fragment.on.toList = true
  nonempty : fragment.selections ≠ []
  selections : ∀ selection ∈ fragment.selections, selection.Spelled

variable {fuel : Nat}

/-- A field without anything behind it. -/
theorem writes_leaf {name : String} (valid : Name.isValid name.toList = true) :
    Writes fuel name (leaf name) := by
  have hwrites : Writes fuel _ _ := Request.writes_field [] none valid (fun _ h ↦ nomatch h) rfl
  have htext : field name [] none = name := by simp [field, Request.listed]
  rwa [htext] at hwrites

/-- A field with braces behind it. -/
theorem writes_braced {name text : String} {inner : List Request.Selection}
    (valid : Name.isValid name.toList = true) (writes : WritesBraces fuel text inner) :
    Writes fuel (name ++ " " ++ text) (.field none name [] [] inner) := by
  have hwrites := Request.writes_field [] (some text) valid (fun _ h ↦ nomatch h) writes
  have htext : field name [] (some text) = name ++ " " ++ text := by
    simp [field, Request.listed, String.append_assoc]
  rwa [htext] at hwrites

/-- The text of a selection, on lines that are indented like those of a fragment. -/
def Selection.text : Selection → String
  | .field name => name
  | .idOnly name => name ++ " " ++ braces "\n    " "\n    " "\n  " ["id"]
  | .spread name fragment => name ++ " " ++ braces "\n    " "\n    " "\n  " ["..." ++ fragment]

theorem Selection.render_eq_text (selection : Selection) :
    selection.render = "  " ++ selection.text ++ "\n" := by
  apply String.toList_inj.mp
  cases selection <;> simp [render, text, braces]

theorem Selection.writes {selection : Selection} (spelled : selection.Spelled) :
    Writes (fuel + 1) selection.text selection.request := by
  obtain ⟨hname, hspread⟩ := spelled
  cases selection with
  | field name => exact writes_leaf hname
  | idOnly name =>
    apply writes_braced hname
    apply Request.writesBraces_singleton (by decide)
    exact writes_leaf (by decide)
  | spread name fragment =>
    apply writes_braced hname
    apply Request.writesBraces_singleton (by decide)
    exact Request.writes_spread (hspread fragment rfl)

theorem Fragment.render_eq_text {fragment : Fragment} (nonempty : fragment.selections ≠ []) :
    fragment.render = "fragment " ++ fragment.name ++ " on " ++ fragment.on ++ " " ++
      braces "\n  " "\n  " "\n" (fragment.selections.map Selection.text) ++ "\n" := by
  have hselections : ∀ first others, String.join ((first :: others).map Selection.render) =
      "  " ++ "\n  ".intercalate ((first :: others).map Selection.text) ++ "\n" := by
    intro first others
    induction others generalizing first with
    | nil => simp [Selection.render_eq_text]
    | cons next others ih =>
      rw [List.map_cons, String.join_cons, ih, Selection.render_eq_text]
      apply String.toList_inj.mp
      simp
  obtain ⟨first, others, hsplit⟩ := List.exists_cons_of_ne_nil nonempty
  unfold render
  rw [hsplit, hselections]
  apply String.toList_inj.mp
  simp [braces]

/-- A fragment is read as it is printed. -/
theorem Fragment.writesDefinition {fragment : Fragment} (spelled : fragment.Spelled) :
    WritesDefinition fragment.render (.inr fragment.request) := by
  have hwrites : WritesBraces Request.Grammar.maxDepth
      (braces "\n  " "\n  " "\n" (fragment.selections.map Selection.text))
      (fragment.selections.map Selection.request) := by
    have hitems : ∀ item ∈ fragment.selections.map fun selection ↦ (selection.text, selection.request),
        Writes 63 item.1 item.2 := by
      intro item hitem
      obtain ⟨selection, hselection, rfl⟩ := List.mem_map.mp hitem
      exact Selection.writes (spelled.selections selection hselection)
    have hbraces : WritesBraces 64 (braces "\n  " "\n  " "\n" _) _ :=
      Request.writesBraces _ (by simpa using spelled.nonempty) (by decide) hitems
    rw [List.map_map, List.map_map] at hbraces
    exact hbraces
  rw [render_eq_text spelled.nonempty]
  exact Request.writesDefinition_fragment spelled.name spelled.on hwrites

/-- Texts with separators between them are the first one and then each behind a separator. -/
theorem intercalate_cons (sep first : String) (others : List String) :
    sep.intercalate (first :: others) = first ++ String.join (others.map (sep ++ ·)) := by
  induction others generalizing first with
  | nil => simp [String.join]
  | cons next others ih =>
    rw [List.map_cons, String.join_cons, String.append_assoc, ← ih]
    apply String.toList_inj.mp
    simp

/-! ## Operations -/

/-- What is selected of a result: its leaves, or what the fragment at the root selects. -/
def Signature.result (signature : Signature) (root : Option String) : List Request.Selection :=
  match signature.shape, root with
  | .scalar, _ => []
  | .nameAndId, _ => [leaf "id", leaf "name"]
  | .object _, some fragment => [.spread fragment []]
  | .page _, some fragment =>
    [.field none "docs" [] [] [.spread fragment []], leaf "total", leaf "page", leaf "limit"]
  | .object _, none | .page _, none => [leaf "__typename"]

namespace OperationDocument

/-- How the operation of a document with the given part selects its result, and the fragment that it
spreads if there is one. -/
inductive SelectsResult (fragments : FragmentSet) (signature : Signature) :
    Option String → Option String → Option String → Prop
  | scalar (shape : signature.shape = .scalar) : SelectsResult fragments signature none none none
  | nameAndId (shape : signature.shape = .nameAndId) :
      SelectsResult fragments signature none (some "\x7b id name \x7d") none
  | bare {object : String} (shape : signature.shape = .object object ∨ signature.shape = .page object)
      (empty : fragments.partsOf object = []) :
      SelectsResult fragments signature none (some "\x7b __typename \x7d") none
  | part {object part fragment : String} (shape : signature.shape = .object object)
      (listed : (part, fragment) ∈ fragments.partsOf object) :
      SelectsResult fragments signature (some part) (some ("\x7b ..." ++ fragment ++ " \x7d"))
        (some fragment)
  | page {object part fragment : String} (shape : signature.shape = .page object)
      (listed : (part, fragment) ∈ fragments.partsOf object) :
      SelectsResult fragments signature (some part)
        (some ("\x7b docs \x7b ..." ++ fragment ++ " \x7d total page limit \x7d")) (some fragment)

/-- The operation: its kind, its name and its variables, and the root field with its selection. -/
def operationLines (signature : Signature) (name : String) (selection : Option String) : List String :=
  [heading signature.kind name signature.arguments ++ "\x7b",
    "  " ++ field signature.name (signature.arguments.map (·.name)) selection, "\x7d"]

/-- The text of a document: its operation, and each fragment behind a blank line. -/
def sourceOf (signature : Signature) (name : String) (selection : Option String)
    (appended : List Fragment) : String :=
  ofLines (operationLines signature name selection ++
    appended.flatMap fun fragment ↦ "" :: fragment.lines)

variable {fragments : FragmentSet} {signature : Signature} {document : OperationDocument}
  {name : String} {part selection root : Option String} {appended : List Fragment}

theorem operationText_eq (signature : Signature) (name : String) (selection : Option String) :
    operationText signature name selection = ofLines (operationLines signature name selection) := by
  have hvariables : variableDefinitions signature.arguments =
      Request.listed (signature.arguments.map Request.declared) := by
    unfold variableDefinitions Request.listed
    rw [List.isEmpty_map]
    rfl
  have hpassed : passedArguments signature.arguments =
      Request.listed ((signature.arguments.map (·.name)).map Request.passed) := by
    unfold passedArguments Request.listed
    rw [List.map_map, List.isEmpty_map]
    rfl
  apply String.toList_inj.mp
  unfold operationText
  rw [hvariables, hpassed]
  cases selection <;> simp [ofLines, operationLines, heading, field]

theorem sourceOf_eq (signature : Signature) (name : String) (selection : Option String)
    (appended : List Fragment) :
    sourceOf signature name selection appended = operationText signature name selection ++
      String.join (appended.map fun fragment ↦ "\n" ++ fragment.render) := by
  have happended : ofLines (appended.flatMap fun fragment ↦ "" :: fragment.lines) =
      String.join (appended.map fun fragment ↦ "\n" ++ fragment.render) := by
    induction appended with
    | nil => rfl
    | cons fragment rest ih =>
      rw [List.flatMap_cons, ofLines_append, ofLines_cons, ih, List.map_cons, String.join_cons,
        Fragment.render_eq, String.empty_append]
  rw [sourceOf, ofLines_append, operationText_eq, happended]

theorem source_plain (signature : Signature) (selection : Option String) :
    (plain signature selection).source = sourceOf signature signature.name selection [] := by
  simp [plain, sourceOf_eq, String.join]

theorem source_forPart (fragments : FragmentSet) (signature : Signature) (name part fragment : String) :
    (forPart fragments signature name part fragment).source =
      sourceOf signature name (some (selectionBy signature.shape fragment))
        (fragments.dependencies fragment) :=
  (sourceOf_eq ..).symm

theorem selectsResult_by {object part fragment : String}
    (shape : signature.shape = .object object ∨ signature.shape = .page object)
    (listed : (part, fragment) ∈ fragments.partsOf object) :
    SelectsResult fragments signature (some part) (some (selectionBy signature.shape fragment))
      (some fragment) := by
  rcases shape with hobject | hpage
  · rw [hobject]
    exact .part hobject listed
  · rw [hpage]
    exact .page hpage listed

theorem exists_of_mem_forObject {object : String}
    (shape : signature.shape = .object object ∨ signature.shape = .page object)
    (h : document ∈ forObject fragments signature object) :
    ∃ selection root, SelectsResult fragments signature document.part selection root ∧
      document.source = sourceOf signature document.name selection
        ((root.map fragments.dependencies).getD []) := by
  unfold forObject at h
  split at h
  · rename_i hempty
    obtain rfl := List.mem_singleton.mp h
    exact ⟨_, none, .bare shape hempty, source_plain _ _⟩
  · rename_i part fragment hsingle
    obtain rfl := List.mem_singleton.mp h
    exact ⟨_, some fragment, selectsResult_by shape (hsingle ▸ List.mem_singleton_self _),
      source_forPart ..⟩
  · obtain ⟨⟨part, fragment⟩, hlisted, rfl⟩ := List.mem_map.mp h
    exact ⟨_, some fragment, selectsResult_by shape hlisted, source_forPart ..⟩

/-- Behind its operation a document has the dependencies of the fragment that is spread. -/
theorem exists_of_mem_ofSignature (h : document ∈ ofSignature fragments signature) :
    ∃ selection root, SelectsResult fragments signature document.part selection root ∧
      document.source = sourceOf signature document.name selection
        ((root.map fragments.dependencies).getD []) := by
  unfold ofSignature at h
  split at h
  · rename_i hshape
    obtain rfl := List.mem_singleton.mp h
    exact ⟨none, none, .scalar hshape, source_plain _ _⟩
  · rename_i hshape
    obtain rfl := List.mem_singleton.mp h
    exact ⟨_, none, .nameAndId hshape, source_plain _ _⟩
  · exact exists_of_mem_forObject (.inl ‹_›) h
  · exact exists_of_mem_forObject (.inr ‹_›) h

/-! ## Documents as requests -/

/-- The request that a document is read as. -/
def request (signature : Signature) (name : String) (root : Option String) (appended : List Fragment) :
    Request.Document where
  operations := [{
    kind := Request.kindOf signature.kind
    name := some name
    variableDefinitions := signature.arguments.map Request.declaration
    directives := []
    selections := [.field none signature.name
      (signature.arguments.map fun argument ↦ (argument.name, .variable argument.name)) []
      (signature.result root)] }]
  fragments := appended.map Fragment.request

/-- The names in a document can be read. -/
structure Spelled (signature : Signature) (name : String) (root : Option String)
    (appended : List Fragment) : Prop where
  name : Name.isValid name.toList = true
  field : Name.isValid signature.name.toList = true
  arguments : ∀ argument ∈ signature.arguments,
    Name.isValid argument.name.toList = true ∧ IsDecorated argument.type
  root : ∀ fragment ∈ root, IsSpreadName fragment
  fragments : ∀ fragment ∈ appended, fragment.Spelled

theorem writesBraces_spread {fuel : Nat} {fragment : String} (spread : IsSpreadName fragment) :
    WritesBraces (fuel + 1) ("\x7b ..." ++ fragment ++ " \x7d") [.spread fragment []] := by
  have htext : "\x7b ..." ++ fragment ++ " \x7d" = braces " " " " " " ["..." ++ fragment] := by
    apply String.toList_inj.mp
    simp [braces]
  rw [htext]
  apply Request.writesBraces_singleton (by decide)
  exact Request.writes_spread spread

/-- A page has a fragment in its documents. -/
theorem writesBraces_page {fuel : Nat} {fragment : String} (spread : IsSpreadName fragment) :
    WritesBraces (fuel + 2) ("\x7b docs \x7b ..." ++ fragment ++ " \x7d total page limit \x7d")
      [.field none "docs" [] [] [.spread fragment []], leaf "total", leaf "page", leaf "limit"] := by
  have htext : "\x7b docs \x7b ..." ++ fragment ++ " \x7d total page limit \x7d" =
      braces " " " " " " ["docs" ++ " " ++ ("\x7b ..." ++ fragment ++ " \x7d"), "total", "page", "limit"] := by
    apply String.toList_inj.mp
    simp [braces]
  rw [htext]
  apply Request.writesBraces [(_, _), ("total", _), ("page", _), ("limit", _)] (List.cons_ne_nil _ _)
    (by decide)
  refine List.forall_mem_cons.mpr ⟨?_, List.forall_mem_cons.mpr ⟨?_, List.forall_mem_cons.mpr ⟨?_,
    List.forall_mem_singleton.mpr ?_⟩⟩⟩
  · exact writes_braced (by decide) (writesBraces_spread spread)
  · exact writes_leaf (by decide)
  · exact writes_leaf (by decide)
  · exact writes_leaf (by decide)

/-- The selection of a result is read as what its shape asks for. -/
theorem SelectsResult.writes {fuel : Nat} (selects : SelectsResult fragments signature part selection root)
    (spread : ∀ fragment ∈ root, IsSpreadName fragment) :
    WritesOptional (fuel + 2) selection (signature.result root) := by
  unfold Signature.result
  cases selects with
  | scalar shape =>
    rw [shape]
    rfl
  | nameAndId shape =>
    rw [shape]
    change WritesBraces (fuel + 2) (braces " " " " " " ["id", "name"]) _
    apply Request.writesBraces [("id", leaf "id"), ("name", leaf "name")] (List.cons_ne_nil _ _)
      (by decide)
    exact List.forall_mem_cons.mpr
      ⟨writes_leaf (by decide), List.forall_mem_singleton.mpr (writes_leaf (by decide))⟩
  | bare shape empty =>
    have htypename : WritesBraces (fuel + 2) (braces " " " " " " ["__typename"]) [leaf "__typename"] :=
      Request.writesBraces_singleton (by decide) (writes_leaf (by decide))
    rcases shape with hobject | hpage
    · rw [hobject]
      exact htypename
    · rw [hpage]
      exact htypename
  | part shape listed =>
    rw [shape]
    exact writesBraces_spread (spread _ rfl)
  | page shape listed =>
    rw [shape]
    exact writesBraces_page (spread _ rfl)

/-- The operation of a document is read as it is printed. -/
theorem writesDefinition_operationText (selects : SelectsResult fragments signature part selection root)
    (spelled : Spelled signature name root appended) :
    WritesDefinition (operationText signature name selection)
      (.inl { kind := Request.kindOf signature.kind, name := some name,
              variableDefinitions := signature.arguments.map Request.declaration, directives := [],
              selections := [.field none signature.name
                (signature.arguments.map fun argument ↦ (argument.name, .variable argument.name)) []
                (signature.result root)] }) := by
  have hnames : ∀ argument ∈ signature.arguments.map (·.name), Name.isValid argument.toList = true :=
    List.forall_mem_map.mpr fun argument hargument ↦ (spelled.arguments argument hargument).1
  have hfield : Writes 63 _ _ :=
    Request.writes_field _ selection spelled.field hnames (selects.writes spelled.root)
  rw [List.map_map] at hfield
  have hbraces : WritesBraces Request.Grammar.maxDepth (braces "\n  " " " "\n" _) _ :=
    Request.writesBraces_singleton (by decide) hfield
  have htext : operationText signature name selection =
      heading signature.kind name signature.arguments ++
        braces "\n  " " " "\n" [field signature.name (signature.arguments.map (·.name)) selection] ++
        "\n" := by
    rw [operationText_eq]
    apply String.toList_inj.mp
    simp [ofLines, operationLines, braces]
  rw [htext]
  exact Request.writesDefinition_operation signature.kind spelled.name spelled.arguments hbraces

/-- A document whose names can be read is read as its operation with the fragments behind it. -/
theorem parse?_sourceOf (selects : SelectsResult fragments signature part selection root)
    (spelled : Spelled signature name root appended) (nodup : (appended.map Fragment.name).Nodup) :
    Request.parse? (sourceOf signature name selection appended) =
      some (request signature name root appended) := by
  have htext : sourceOf signature name selection appended =
      "\n".intercalate (operationText signature name selection :: appended.map Fragment.render) := by
    rw [sourceOf_eq, intercalate_cons, List.map_map]
    rfl
  have hnodup : (((appended.map fun fragment ↦ (fragment.render, fragment.request)).map Prod.snd).map
      (·.name)).Nodup := by
    rw [List.map_map, List.map_map]
    exact nodup
  have hread := Request.parse?_intercalate _ (writesDefinition_operationText selects spelled)
    (List.forall_mem_map.mpr fun fragment hfragment ↦
      Fragment.writesDefinition (spelled.fragments fragment hfragment)) hnodup
  rw [List.map_map, List.map_map] at hread
  rw [htext]
  exact hread

end OperationDocument
end ResourceApi

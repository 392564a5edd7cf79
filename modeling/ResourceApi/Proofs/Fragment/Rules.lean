import Mathlib.Data.List.Forall2
import Mathlib.Data.List.ReduceOption
import ResourceApi.Proofs.Fragment.Order

/-!
# Rules of the parts

A part decides on each field of its type by itself, and a custom part on each of its entries: the field is
selected in one way, or left out.  The rules below say which it is, by the kind of the field and by the
fragments that the set lists for the type of the field.  They decide on every field in exactly one way, and
this is how the passes select.
-/

namespace ResourceApi

namespace FragmentSet

open Fragment

variable {set : FragmentSet} {node : TypeNode} {field : FieldNode} {entry : FragmentSelection}
  {part : String} {otherwise outcome : Option Selection} {selection : Selection}
  {selections : List Selection}

/-! ## Selections -/

/-- What a part of a type selects where the fragments of other parts are those of the set. -/
def selectionsOf (set : FragmentSet) (node : TypeNode) (part : String) : List Selection :=
  if part = scalarsOnly then node.fields.values.filterMap selectScalarsOnly
  else if part = refsNone then node.fields.values.filterMap set.selectRefsNone
  else if part = objectsNone then node.fields.values.filterMap selectObjectsNone
  else if part = whole then node.fields.values.filterMap set.selectWhole
  else ((Entries.get? node.fragments part).getD []).filterMap (set.selectCustom node)

/-- What a built-in part selects of a field. -/
def selectOf (set : FragmentSet) (part : String) (field : FieldNode) : Option Selection :=
  if part = scalarsOnly then selectScalarsOnly field
  else if part = refsNone then set.selectRefsNone field
  else if part = objectsNone then selectObjectsNone field
  else if part = whole then set.selectWhole field
  else none

theorem selectionsOf_builtin (mem : part ∈ builtinParts) (set : FragmentSet) (node : TypeNode) :
    set.selectionsOf node part = node.fields.values.filterMap (set.selectOf part) := by
  simp only [builtinParts, List.mem_cons, List.not_mem_nil, or_false] at mem
  rcases mem with rfl | rfl | rfl | rfl <;> rfl

theorem selectionsOf_custom (notMem : part ∉ builtinParts) (set : FragmentSet) (node : TypeNode) :
    set.selectionsOf node part =
      ((Entries.get? node.fragments part).getD []).filterMap (set.selectCustom node) := by
  have hne : ∀ other ∈ builtinParts, part ≠ other := by
    rintro other hother rfl
    exact notMem hother
  unfold selectionsOf
  rw [if_neg (hne _ (by decide)), if_neg (hne _ (by decide)), if_neg (hne _ (by decide)),
    if_neg (hne _ (by decide))]

/-! ## Rules -/

/-- A field that leads to an object type spreads the fragment that is listed for the part of this type; if
there is none, it is done otherwise. -/
inductive Follows (set : FragmentSet) (field : FieldNode) (part : String) (otherwise : Option Selection) :
    Option Selection → Prop
  | spread {fragment : String} (listed : set.fragmentFor? field.typeName part = some fragment) :
      Follows set field part otherwise (some (.spread field.name fragment))
  | otherwise (unlisted : set.fragmentFor? field.typeName part = none) :
      Follows set field part otherwise otherwise

/-- What a built-in part makes of a field.  All of them select leaves.  Nested objects are followed into the
same part, without references or whole, and left out if it is empty; the other parts leave them out.
References are left out, selected by their identifier, or followed into the part without references. -/
inductive FieldRule (set : FragmentSet) : String → FieldNode → Option Selection → Prop
  | leaf {part : String} {field : FieldNode} (builtin : part ∈ builtinParts)
      (kind : field.kind.isLeaf = true) : FieldRule set part field (some (.field field.name))
  | scalarsOnly {field : FieldNode} (kind : field.kind.isLeaf = false) :
      FieldRule set scalarsOnly field none
  | refsNone_object {field : FieldNode} {outcome : Option Selection} (kind : field.kind = .object)
      (follows : Follows set field refsNone none outcome) : FieldRule set refsNone field outcome
  | refsNone_reference {field : FieldNode} (kind : field.kind = .reference) :
      FieldRule set refsNone field none
  | objectsNone_object {field : FieldNode} (kind : field.kind = .object) :
      FieldRule set objectsNone field none
  | objectsNone_reference {field : FieldNode} (kind : field.kind = .reference) :
      FieldRule set objectsNone field (some (.idOnly field.name))
  | whole_object {field : FieldNode} {outcome : Option Selection} (kind : field.kind = .object)
      (follows : Follows set field whole none outcome) : FieldRule set whole field outcome
  | whole_reference {field : FieldNode} {outcome : Option Selection} (kind : field.kind = .reference)
      (follows : Follows set field refsNone (some (.idOnly field.name)) outcome) :
      FieldRule set whole field outcome

/-- What a custom part makes of one of its entries.  An entry that names no field of the type is left out,
and leaves are selected.  A nested object is followed into the part that the entry asks for, or else into
the whole, and left out if it is empty.  A reference is followed into the part that the entry asks for, if
it is a built-in one, or else into the part without references; if it is empty, the reference is selected
by its identifier. -/
inductive EntryRule (set : FragmentSet) (node : TypeNode) (entry : FragmentSelection) :
    Option Selection → Prop
  | unknown (absent : entry.fieldName ∉ node.fields.keys) : EntryRule set node entry none
  | leaf {field : FieldNode} (known : node.fields.get? entry.fieldName = some field)
      (kind : field.kind.isLeaf = true) : EntryRule set node entry (some (.field field.name))
  | nested {field : FieldNode} {outcome : Option Selection}
      (known : node.fields.get? entry.fieldName = some field) (kind : field.kind = .object)
      (follows : Follows set field (entry.part?.getD whole) none outcome) :
      EntryRule set node entry outcome
  | asked {field : FieldNode} {part : String} {outcome : Option Selection}
      (known : node.fields.get? entry.fieldName = some field) (kind : field.kind = .reference)
      (asks : entry.part? = some part) (builtin : part ∈ builtinParts)
      (follows : Follows set field part (some (.idOnly field.name)) outcome) :
      EntryRule set node entry outcome
  | referred {field : FieldNode} {outcome : Option Selection}
      (known : node.fields.get? entry.fieldName = some field) (kind : field.kind = .reference)
      (unasked : ∀ part ∈ builtinParts, entry.part? ≠ some part)
      (follows : Follows set field refsNone (some (.idOnly field.name)) outcome) :
      EntryRule set node entry outcome

/-- What a part selects: a built-in part what is made of the fields of the type, in their order, and a custom
part what is made of the entries that are declared for it. -/
inductive PartRule (set : FragmentSet) (node : TypeNode) (part : String) : List Selection → Prop
  | builtin {outcomes : List (Option Selection)} (builtin : part ∈ builtinParts)
      (fields : List.Forall₂ (set.FieldRule part) node.fields.values outcomes) :
      PartRule set node part outcomes.reduceOption
  | custom {entries : List FragmentSelection} {outcomes : List (Option Selection)}
      (custom : part ∉ builtinParts) (declared : Entries.get? node.fragments part = some entries)
      (entries : List.Forall₂ (set.EntryRule node) entries outcomes) :
      PartRule set node part outcomes.reduceOption

/-! ## The rules decide -/

theorem follows_iff :
    set.Follows field part otherwise outcome ↔ (set.spreadOf? field part).or otherwise = outcome := by
  unfold spreadOf?
  constructor
  · intro h
    cases h with
    | spread listed => rw [listed]; rfl
    | otherwise unlisted => rw [unlisted]; rfl
  · rintro rfl
    cases hlisted : set.fragmentFor? field.typeName part with
    | none => exact .otherwise hlisted
    | some fragment => exact .spread hlisted

theorem follows_none_iff : set.Follows field part none outcome ↔ set.spreadOf? field part = outcome := by
  rw [follows_iff, Option.or_none]

theorem follows_identifier_iff :
    set.Follows field part (some (.idOnly field.name)) outcome ↔
      some (set.referenceOf field part) = outcome := by
  rw [follows_iff, Option.or_some]
  rfl

section Builtin

variable (set field)

@[simp]
theorem selectOf_scalarsOnly : set.selectOf scalarsOnly field = selectScalarsOnly field := rfl

@[simp]
theorem selectOf_refsNone : set.selectOf refsNone field = set.selectRefsNone field := rfl

@[simp]
theorem selectOf_objectsNone : set.selectOf objectsNone field = selectObjectsNone field := rfl

@[simp]
theorem selectOf_whole : set.selectOf whole field = set.selectWhole field := rfl

end Builtin

theorem forall_mem_builtinParts {p : String → Prop} :
    (∀ part ∈ builtinParts, p part) ↔ p whole ∧ p scalarsOnly ∧ p objectsNone ∧ p refsNone := by
  simp [builtinParts]

theorem isLeaf_iff {kind : LinkKind} : kind.isLeaf = true ↔ kind = .scalar ∨ kind = .enumeration := by
  cases kind <;> simp [LinkKind.isLeaf]

theorem selectOf_of_isLeaf (builtin : part ∈ builtinParts) (kind : field.kind.isLeaf = true) :
    set.selectOf part field = some (.field field.name) := by
  revert part
  rw [forall_mem_builtinParts]
  rcases isLeaf_iff.mp kind with hkind | hkind <;>
    simp [selectWhole, selectScalarsOnly, selectObjectsNone, selectRefsNone, hkind, LinkKind.isLeaf]

theorem fieldRule_selectOf (builtin : part ∈ builtinParts) (set : FragmentSet) (field : FieldNode) :
    set.FieldRule part field (set.selectOf part field) := by
  by_cases hleaf : field.kind.isLeaf = true
  · rw [selectOf_of_isLeaf builtin hleaf]
    exact .leaf builtin hleaf
  · replace hleaf := Bool.eq_false_iff.mpr hleaf
    revert part
    rw [forall_mem_builtinParts]
    have hscalars : set.selectOf scalarsOnly field = none := by
      simp [selectScalarsOnly, hleaf]
    rw [hscalars, selectOf_whole, selectOf_objectsNone, selectOf_refsNone]
    unfold selectWhole selectObjectsNone selectRefsNone
    cases hkind : field.kind with
    | scalar => cases hkind ▸ hleaf
    | enumeration => cases hkind ▸ hleaf
    | object =>
      exact ⟨.whole_object hkind (follows_none_iff.mpr rfl), .scalarsOnly hleaf,
        .objectsNone_object hkind, .refsNone_object hkind (follows_none_iff.mpr rfl)⟩
    | reference =>
      exact ⟨.whole_reference hkind (follows_identifier_iff.mpr rfl), .scalarsOnly hleaf,
        .objectsNone_reference hkind, .refsNone_reference hkind⟩

/-- A field is selected as the rule of the part says. -/
theorem fieldRule_iff :
    set.FieldRule part field outcome ↔ part ∈ builtinParts ∧ set.selectOf part field = outcome := by
  constructor
  · intro h
    cases h with
    | leaf builtin kind => exact ⟨builtin, selectOf_of_isLeaf builtin kind⟩
    | scalarsOnly kind => exact ⟨by decide, by simp [selectScalarsOnly, kind]⟩
    | refsNone_object kind follows =>
      exact ⟨by decide, by simpa [selectRefsNone, kind] using follows_none_iff.mp follows⟩
    | refsNone_reference kind => exact ⟨by decide, by simp [selectRefsNone, kind]⟩
    | objectsNone_object kind => exact ⟨by decide, by simp [selectObjectsNone, kind]⟩
    | objectsNone_reference kind => exact ⟨by decide, by simp [selectObjectsNone, kind]⟩
    | whole_object kind follows =>
      exact ⟨by decide, by simpa [selectWhole, kind] using follows_none_iff.mp follows⟩
    | whole_reference kind follows =>
      exact ⟨by decide, by simpa [selectWhole, kind] using follows_identifier_iff.mp follows⟩
  · rintro ⟨builtin, rfl⟩
    exact fieldRule_selectOf builtin set field

/-- An entry for a reference leads into the part that it asks for, if this is a built-in one. -/
theorem entryRule_reference (known : node.fields.get? entry.fieldName = some field)
    (kind : field.kind = .reference)
    (follows : Follows set field ((entry.part?.filter builtinParts.contains).getD refsNone)
      (some (.idOnly field.name)) outcome) : set.EntryRule node entry outcome := by
  cases hpart : entry.part?.filter builtinParts.contains with
  | none =>
    rw [hpart] at follows
    refine .referred known kind (fun part hbuiltin hasked ↦ ?_) follows
    rw [hasked, Option.filter_some, if_pos (List.contains_iff_mem.mpr hbuiltin)] at hpart
    cases hpart
  | some part =>
    rw [hpart] at follows
    obtain ⟨hasked, hbuiltin⟩ := Option.filter_eq_some_iff.mp hpart
    exact .asked known kind hasked (List.contains_iff_mem.mp hbuiltin) follows

/-- An entry is selected as its rule says. -/
theorem entryRule_iff : set.EntryRule node entry outcome ↔ set.selectCustom node entry = outcome := by
  unfold selectCustom
  constructor
  · intro h
    cases h with
    | unknown absent => simp [Entries.get?_eq_none_iff.mpr absent]
    | leaf known kind =>
      rcases isLeaf_iff.mp kind with hkind | hkind <;> simp [known, hkind]
    | nested known kind follows => simpa [known, kind] using follows_none_iff.mp follows
    | asked known kind asks builtin follows =>
      simpa [known, kind, asks, Option.filter_some, builtin] using follows_identifier_iff.mp follows
    | referred known kind unasked follows =>
      have hnone : entry.part?.filter builtinParts.contains = none := by
        apply Option.filter_eq_none_iff.mpr
        exact fun part hasked hbuiltin ↦ unasked part (List.contains_iff_mem.mp hbuiltin) hasked
      simpa [known, kind, hnone] using follows_identifier_iff.mp follows
  · rintro rfl
    cases known : node.fields.get? entry.fieldName with
    | none => exact .unknown (Entries.get?_eq_none_iff.mp known)
    | some field =>
      simp only [Option.bind_eq_bind, Option.bind_some]
      cases kind : field.kind with
      | scalar => exact .leaf known (kind ▸ rfl)
      | enumeration => exact .leaf known (kind ▸ rfl)
      | object => exact .nested known kind (follows_none_iff.mpr rfl)
      | reference => exact entryRule_reference known kind (follows_identifier_iff.mpr rfl)

/-- Outcomes item by item are those of a function. -/
theorem forall₂_iff_map {α β : Type} {rule : α → β → Prop} {f : α → β} {items : List α}
    {outcomes : List β} (h : ∀ item outcome, rule item outcome ↔ f item = outcome) :
    List.Forall₂ rule items outcomes ↔ items.map f = outcomes := by
  have hrule : rule = fun item ↦ Eq (f item) := by
    funext item outcome
    exact propext (h item outcome)
  rw [hrule, ← List.forall₂_map_left_iff, List.forall₂_eq_eq_eq]

theorem reduceOption_map {α β : Type} (f : α → Option β) (items : List α) :
    (items.map f).reduceOption = items.filterMap f := by
  unfold List.reduceOption
  rw [List.filterMap_map]
  rfl

theorem declared_of_own (own : part ∈ ownParts node) (custom : part ∉ builtinParts) :
    ∃ entries, Entries.get? node.fragments part = some entries := by
  have hcustom : part ∈ customParts node := (List.mem_append.mp own).resolve_left custom
  obtain ⟨entry, hentry, rfl⟩ := List.mem_map.mp hcustom
  apply Option.ne_none_iff_exists'.mp
  rw [ne_eq, Entries.get?_eq_none_iff, not_not]
  exact List.mem_map_of_mem (List.mem_filter.mp hentry).1

theorem partRule_builtin_iff (builtin : part ∈ builtinParts) :
    set.PartRule node part selections ↔ set.selectionsOf node part = selections := by
  have hfields : ∀ outcomes, List.Forall₂ (set.FieldRule part) node.fields.values outcomes ↔
      node.fields.values.map (set.selectOf part) = outcomes := fun _ ↦
    forall₂_iff_map fun _ _ ↦ fieldRule_iff.trans (and_iff_right builtin)
  rw [selectionsOf_builtin builtin, ← reduceOption_map]
  constructor
  · intro h
    cases h with
    | builtin _ fields => rw [(hfields _).mp fields]
    | custom custom _ _ => exact absurd builtin custom
  · rintro rfl
    exact .builtin builtin ((hfields _).mpr rfl)

theorem partRule_custom_iff (own : part ∈ ownParts node) (custom : part ∉ builtinParts) :
    set.PartRule node part selections ↔ set.selectionsOf node part = selections := by
  have hentries : ∀ entries outcomes, List.Forall₂ (set.EntryRule node) entries outcomes ↔
      entries.map (set.selectCustom node) = outcomes := fun _ _ ↦
    forall₂_iff_map fun _ _ ↦ entryRule_iff
  obtain ⟨entries, hdeclared⟩ := declared_of_own own custom
  rw [selectionsOf_custom custom, hdeclared, Option.getD_some, ← reduceOption_map]
  constructor
  · intro h
    cases h with
    | builtin builtin _ => exact absurd builtin custom
    | custom _ declared entries =>
      obtain rfl := Option.some.inj (hdeclared.symm.trans declared)
      rw [(hentries _ _).mp entries]
  · rintro rfl
    exact .custom custom hdeclared ((hentries _ _).mpr rfl)

/-- The selections of a part are what the rules say, and nothing else. -/
theorem partRule_iff (own : part ∈ ownParts node) :
    set.PartRule node part selections ↔ set.selectionsOf node part = selections := by
  by_cases builtin : part ∈ builtinParts
  · exact partRule_builtin_iff builtin
  · exact partRule_custom_iff own builtin

end FragmentSet
end ResourceApi

import Mathlib.Data.List.Induction
import Mathlib.Data.List.Nodup
import ResourceApi.Document.Merge
import ResourceApi.Proofs.Document.Fields

/-!
# Merged documents

Merging leaves one definition of each name, the first part of the name with all others folded into it.
Its fields are those of all definitions and extensions of the name, less the fields whose names occur
before: the first one of a name wins, as long as no single definition has two fields of one name.
-/

namespace ResourceApi.TypeDocument

variable {document : TypeDocument} {merged : List Definition} {definition held : Definition}
  {all kept more : List FieldDefinition} {field : FieldDefinition} {name : String}

/-! ## First fields -/

/-- What is kept of the fields is the first one of each name. -/
def Firsts (all kept : List FieldDefinition) : Prop :=
  ∀ field, field ∈ kept ↔ all.find? (·.name == field.name) = some field

theorem firsts_of_nodup (distinct : (all.map (·.name)).Nodup) : Firsts all all := by
  intro field
  constructor
  · intro hfield
    have hfound : (all.find? (·.name == field.name)).isSome :=
      List.find?_isSome.mpr ⟨field, hfield, beq_self_eq_true _⟩
    obtain ⟨found, hfound⟩ := Option.isSome_iff_exists.mp hfound
    have hname : found.name = field.name := by simpa using List.find?_some hfound
    rw [hfound, List.inj_on_of_nodup_map distinct (List.mem_of_find?_eq_some hfound) hfield hname]
  · exact List.mem_of_find?_eq_some

theorem Firsts.concat (h : Firsts all kept) (added : FieldDefinition) :
    Firsts (all ++ [added])
      (if kept.any (·.name == added.name) then kept else kept ++ [added]) := by
  intro field
  rw [List.find?_append]
  by_cases hpresent : kept.any (·.name == added.name) = true
  · rw [if_pos hpresent, h field]
    obtain ⟨first, hfirst, hname⟩ := List.any_eq_true.mp hpresent
    rw [beq_iff_eq] at hname
    cases hfound : all.find? (·.name == field.name) with
    | some found => simp
    | none =>
      have hother : added.name ≠ field.name := by
        intro hsame
        rw [← hsame, ← hname, (h first).mp hfirst] at hfound
        cases hfound
      simp [hother]
  · rw [if_neg hpresent, List.mem_append, List.mem_singleton, h field]
    have habsent : all.find? (·.name == added.name) = none := by
      cases hfound : all.find? (·.name == added.name) with
      | none => rfl
      | some found =>
        have hname : found.name = added.name := by simpa using List.find?_some hfound
        refine absurd (List.any_eq_true.mpr ⟨found, (h found).mpr ?_, by simpa using hname⟩) hpresent
        rwa [hname]
    constructor
    · rintro (hold | rfl)
      · rw [hold, Option.some_or]
      · rw [habsent, Option.none_or, List.find?_singleton, if_pos (beq_self_eq_true _)]
    · intro hfound
      rcases Option.or_eq_some_iff.mp hfound with hold | ⟨-, hnew⟩
      · exact .inl hold
      · exact .inr (List.mem_singleton.mp (List.mem_of_find?_eq_some hnew))

theorem Firsts.mergeFields (h : Firsts all kept) (more : List FieldDefinition) :
    Firsts (all ++ more) (mergeFields kept more) := by
  unfold TypeDocument.mergeFields
  induction more generalizing all kept with
  | nil => simpa using h
  | cons added rest ih =>
    rw [List.foldl_cons, ← List.singleton_append, ← List.append_assoc]
    exact ih (h.concat added)

/-! ## One definition -/

theorem names_foldInto (definition : Definition) (merged : List Definition) :
    (foldInto definition merged).map (·.name) =
      if definition.name ∈ merged.map (·.name) then merged.map (·.name)
      else merged.map (·.name) ++ [definition.name] := by
  induction merged with
  | nil => rfl
  | cons first rest ih =>
    unfold foldInto
    by_cases hname : first.name = definition.name
    · simp [hname, fold]
    · have hcons : definition.name ∈ (first :: rest).map (·.name) ↔
          definition.name ∈ rest.map (·.name) := by
        simp [Ne.symm hname]
      rw [if_neg (by simpa using hname), List.map_cons, ih]
      by_cases hrest : definition.name ∈ rest.map (·.name)
      · rw [if_pos hrest, if_pos (hcons.mpr hrest), List.map_cons]
      · rw [if_neg hrest, if_neg (mt hcons.mp hrest), List.map_cons, List.cons_append]

/-- What stands after a definition is folded in: what has other names, and the definition itself or the
one it is folded into. -/
theorem cases_of_mem_foldInto (distinct : (merged.map (·.name)).Nodup)
    (h : held ∈ foldInto definition merged) :
    held ∈ merged ∧ held.name ≠ definition.name ∨
      (∃ first ∈ merged, first.name = definition.name ∧ held = fold first definition) ∨
        definition.name ∉ merged.map (·.name) ∧ held = { definition with extending := false } := by
  induction merged with
  | nil => exact .inr (.inr ⟨List.not_mem_nil, List.mem_singleton.mp h⟩)
  | cons first rest ih =>
    obtain ⟨hfresh, hrest⟩ := List.nodup_cons.mp distinct
    unfold foldInto at h
    by_cases hname : first.name = definition.name
    · rw [if_pos (by simpa using hname)] at h
      rcases List.mem_cons.mp h with rfl | hlater
      · exact .inr (.inl ⟨first, List.mem_cons_self, hname, rfl⟩)
      · refine .inl ⟨List.mem_cons_of_mem _ hlater, fun hsame ↦ hfresh ?_⟩
        exact List.mem_map.mpr ⟨held, hlater, hsame.trans hname.symm⟩
    · rw [if_neg (by simpa using hname)] at h
      rcases List.mem_cons.mp h with rfl | hlater
      · exact .inl ⟨List.mem_cons_self, hname⟩
      · rcases ih hrest hlater with ⟨hmem, hother⟩ | ⟨into, hinto, hfold⟩ | ⟨habsent, rfl⟩
        · exact .inl ⟨List.mem_cons_of_mem _ hmem, hother⟩
        · exact .inr (.inl ⟨into, List.mem_cons_of_mem _ hinto, hfold⟩)
        · exact .inr (.inr ⟨by simpa using ⟨Ne.symm hname, by simpa using habsent⟩, rfl⟩)

/-! ## The parts of one name -/

/-- The parts of a type folded into the first of them, which becomes a definition. -/
def folded? : List Definition → Option Definition
  | [] => none
  | first :: rest => some (rest.foldl fold { first with extending := false })

theorem folded?_append_singleton (parts : List Definition) (definition : Definition) :
    folded? (parts ++ [definition]) =
      some (((folded? parts).map (fold · definition)).getD { definition with extending := false }) := by
  cases parts with
  | nil => rfl
  | cons first rest => simp [folded?]

/-- What one definition becomes when others are folded into it. -/
theorem foldl_fold (first : Definition) (rest : List Definition) :
    (rest.foldl fold first).extending = first.extending ∧
      (rest.foldl fold first).fields = mergeFields first.fields (rest.flatMap (·.fields)) ∧
      (rest.foldl fold first).members = addMissing first.members (rest.flatMap (·.members)) ∧
      (rest.foldl fold first).values = addMissing first.values (rest.flatMap (·.values)) := by
  induction rest generalizing first with
  | nil => exact ⟨rfl, rfl, rfl, rfl⟩
  | cons definition rest ih =>
    obtain ⟨hextending, hfields, hmembers, hvalues⟩ := ih (fold first definition)
    simp only [List.foldl_cons, List.flatMap_cons]
    exact ⟨hextending, hfields.trans List.foldl_append.symm, hmembers.trans List.foldl_append.symm,
      hvalues.trans List.foldl_append.symm⟩

/-! ## All definitions -/

/-- The definitions have the names of a document in order of their first occurrence, and each is folded
of all parts of its name. -/
structure FoldedOf (document : TypeDocument) (merged : List Definition) : Prop where
  names : merged.map (·.name) = (document.map (·.name)).eraseDups
  distinct : (merged.map (·.name)).Nodup
  parts : ∀ held ∈ merged, folded? (document.allNamed held.name) = some held

theorem FoldedOf.mem_names (h : FoldedOf document merged) :
    name ∈ merged.map (·.name) ↔ name ∈ document.map (·.name) := by
  rw [h.names, List.mem_eraseDups]

theorem eraseDups_append_singleton (names : List String) (name : String) :
    (names ++ [name]).eraseDups =
      if name ∈ names then names.eraseDups else names.eraseDups ++ [name] := by
  rw [List.eraseDups_append]
  unfold List.removeAll
  by_cases hpresent : name ∈ names
  · simp [hpresent]
  · simp [hpresent, List.eraseDups_cons]

theorem allNamed_append_singleton (document : TypeDocument) (definition : Definition) (name : String) :
    allNamed (document ++ [definition]) name =
      document.allNamed name ++ if definition.name == name then [definition] else [] := by
  unfold allNamed
  rw [List.filter_append, List.filter_singleton, Bool.cond_eq_ite]

theorem FoldedOf.foldInto (h : FoldedOf document merged) (definition : Definition) :
    FoldedOf (document ++ [definition]) (foldInto definition merged) where
  names := by
    rw [names_foldInto, List.map_append, List.map_singleton, eraseDups_append_singleton, ← h.names]
    exact if_congr h.mem_names rfl rfl
  distinct := by
    rw [names_foldInto]
    split
    · exact h.distinct
    · rename_i hfresh
      simpa using List.Nodup.concat hfresh h.distinct
  parts held hheld := by
    rw [allNamed_append_singleton]
    rcases cases_of_mem_foldInto h.distinct hheld with
      ⟨hmem, hother⟩ | ⟨first, hfirst, hsame, rfl⟩ | ⟨hfresh, rfl⟩
    · rw [if_neg (by simpa using Ne.symm hother), List.append_nil]
      exact h.parts held hmem
    · change folded? (document.allNamed first.name ++
        if definition.name == first.name then [definition] else []) = _
      rw [if_pos (by simpa using hsame.symm), folded?_append_singleton, h.parts first hfirst]
      rfl
    · have hnone : document.allNamed definition.name = [] := by
        refine List.filter_eq_nil_iff.mpr fun other hother hname ↦ hfresh ?_
        exact h.mem_names.mpr (List.mem_map.mpr ⟨other, hother, beq_iff_eq.mp hname⟩)
      change folded? (document.allNamed definition.name ++
        if definition.name == definition.name then [definition] else []) = _
      rw [if_pos (beq_self_eq_true _), hnone, List.nil_append]
      rfl

theorem foldedOf_merge (document : TypeDocument) : FoldedOf document document.merge := by
  unfold merge
  induction document using List.reverseRecOn with
  | nil => exact ⟨rfl, List.nodup_nil, fun _ h ↦ nomatch h⟩
  | append_singleton front last ih =>
    rw [List.foldl_append, List.foldl_cons, List.foldl_nil]
    exact ih.foldInto last

/-- A merged definition is made of the first part of its name and the later ones. -/
theorem exists_parts (h : held ∈ document.merge) :
    ∃ first rest, document.allNamed held.name = first :: rest ∧
      held = rest.foldl fold { first with extending := false } := by
  have hparts := (foldedOf_merge document).parts held h
  cases hnamed : document.allNamed held.name with
  | nil =>
    rw [hnamed] at hparts
    cases hparts
  | cons first rest =>
    rw [hnamed] at hparts
    exact ⟨first, rest, rfl, (Option.some.inj hparts).symm⟩

/-- One definition stands for each name of the document, and for the given name it has the first
fields. -/
structure MergedAt (name : String) (document : TypeDocument) (merged : List Definition) : Prop where
  distinct : (merged.map (·.name)).Nodup
  present : ∀ definition ∈ document, definition.name ∈ merged.map (·.name)
  fields : ∀ held ∈ merged, held.name = name → Firsts (document.fieldsOf name) held.fields

/-- The merged definition of a name has the first field of every name, of all definitions and
extensions. -/
theorem mergedAt_merge
    (distinct : ∀ definition ∈ document, definition.name = name →
      (definition.fields.map (·.name)).Nodup) : MergedAt name document (merge document) where
  distinct := (foldedOf_merge document).distinct
  present definition hmem := (foldedOf_merge document).mem_names.mpr (List.mem_map_of_mem hmem)
  fields held hheld hname := by
    obtain ⟨first, rest, hparts, hheld⟩ := exists_parts hheld
    rw [hname] at hparts
    have hfirst : first ∈ document.allNamed name := hparts ▸ List.mem_cons_self
    obtain ⟨hmem, hfirstName⟩ := List.mem_filter.mp hfirst
    have hfirsts := firsts_of_nodup (distinct first hmem (beq_iff_eq.mp hfirstName))
    unfold fieldsOf
    rw [hparts, hheld, (foldl_fold _ rest).2.1]
    exact hfirsts.mergeFields _

end ResourceApi.TypeDocument

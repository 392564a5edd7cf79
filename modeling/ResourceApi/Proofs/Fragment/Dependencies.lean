import Mathlib.Algebra.Order.BigOperators.Group.List
import Mathlib.Algebra.Order.Ring.Nat
import ResourceApi.Proofs.Fragment.Acyclic
import ResourceApi.Proofs.OperationDocument

/-!
# What a fragment depends on

The dependencies of a fragment are found with a stack of names and a bound on the number of visits.  They
are those of the search without either, which goes from a fragment to all that it spreads before it turns
to the next name.  That search always ends: every name that is put on the stack is spread by a fragment
that is visited for the first time.  It finds what is reached through spreads, also where they run in
circles, because what it has found is closed under them in the end.

These are the fragments that a document of an operation has behind it.
-/

namespace ResourceApi

open Relation (ReflTransGen)

namespace FragmentSet

variable {set : FragmentSet} {fragment other : Fragment} {name root : String}
  {seen found inner more : List Fragment} {names rest front back : List String}

/-- Every fragment stands under its own name. -/
def StandsByName (set : FragmentSet) : Prop :=
  ∀ name fragment, set.get? name = some fragment → fragment.name = name

/-- The fragment is defined under a name that is reached from the root, if not the root itself. -/
def Reaches (set : FragmentSet) (root : String) (fragment : Fragment) : Prop :=
  ∃ name, ReflTransGen set.Spreads root name ∧ set.get? name = some fragment

/-! ## The search -/

/-- Searching the names, one after the other, finds the fragments in their order, if those that are seen
already are left out.  A fragment that is met for the first time comes before all that it spreads, and
this before what the next names bring. -/
inductive Searches (set : FragmentSet) : List Fragment → List String → List Fragment → Prop
  | done {seen : List Fragment} : Searches set seen [] []
  | undefined {seen found : List Fragment} {name : String} {rest : List String}
      (missing : set.get? name = none) (further : Searches set seen rest found) :
      Searches set seen (name :: rest) found
  | again {seen found : List Fragment} {fragment : Fragment} {name : String} {rest : List String}
      (defined : set.get? name = some fragment) (old : fragment.name ∈ seen.map Fragment.name)
      (further : Searches set seen rest found) : Searches set seen (name :: rest) found
  | first {seen inner more : List Fragment} {fragment : Fragment} {name : String} {rest : List String}
      (defined : set.get? name = some fragment) (fresh : fragment.name ∉ seen.map Fragment.name)
      (nested : Searches set (seen ++ [fragment]) fragment.spreads inner)
      (further : Searches set (seen ++ fragment :: inner) rest more) :
      Searches set seen (name :: rest) (fragment :: (inner ++ more))

namespace Searches

/-- Names that are searched together can be searched in two parts. -/
theorem exists_of_append (h : Searches set seen (front ++ back) found) :
    ∃ inner more, Searches set seen front inner ∧ Searches set (seen ++ inner) back more ∧
      found = inner ++ more := by
  generalize hnames : front ++ back = names at h
  induction h generalizing front with
  | done =>
    obtain ⟨rfl, rfl⟩ := List.append_eq_nil_iff.mp hnames
    exact ⟨[], [], .done, .done, rfl⟩
  | @undefined seen found name rest missing further ih =>
    rcases List.append_eq_cons_iff.mp hnames with ⟨rfl, rfl⟩ | ⟨front, rfl, rfl⟩
    · exact ⟨[], found, .done, by simpa using .undefined missing further, rfl⟩
    · obtain ⟨inner, more, hinner, hmore, rfl⟩ := ih rfl
      exact ⟨inner, more, .undefined missing hinner, hmore, rfl⟩
  | @again seen found fragment name rest defined old further ih =>
    rcases List.append_eq_cons_iff.mp hnames with ⟨rfl, rfl⟩ | ⟨front, rfl, rfl⟩
    · exact ⟨[], found, .done, by simpa using .again defined old further, rfl⟩
    · obtain ⟨inner, more, hinner, hmore, rfl⟩ := ih rfl
      exact ⟨inner, more, .again defined old hinner, hmore, rfl⟩
  | @first seen inner more fragment name rest defined fresh nested further _ ih =>
    rcases List.append_eq_cons_iff.mp hnames with ⟨rfl, rfl⟩ | ⟨front, rfl, rfl⟩
    · exact ⟨[], _, .done, by simpa using .first defined fresh nested further, rfl⟩
    · obtain ⟨next, last, hnext, hlast, rfl⟩ := ih rfl
      refine ⟨fragment :: (inner ++ next), last, .first defined fresh nested hnext, ?_, by simp⟩
      simpa using hlast

/-- A search finds one thing only. -/
theorem unique (h : Searches set seen names found) {found' : List Fragment}
    (h' : Searches set seen names found') : found = found' := by
  induction h generalizing found' with
  | done =>
    cases h'
    rfl
  | undefined missing _ ih =>
    cases h' with
    | undefined _ further => exact ih further
    | again defined => cases missing.symm.trans defined
    | first defined => cases missing.symm.trans defined
  | again defined old _ ih =>
    cases h' with
    | undefined missing => cases missing.symm.trans defined
    | again _ _ further => exact ih further
    | first defined' fresh =>
      cases defined.symm.trans defined'
      exact absurd old fresh
  | first defined fresh _ _ ihnested ih =>
    cases h' with
    | undefined missing => cases missing.symm.trans defined
    | again defined' old =>
      cases defined.symm.trans defined'
      exact absurd old fresh
    | first defined' _ nested further =>
      cases defined.symm.trans defined'
      obtain rfl := ihnested nested
      rw [ih further]

/-- No fragment is found twice, and none that is seen already. -/
theorem nodup (h : Searches set seen names found) (distinct : (seen.map Fragment.name).Nodup) :
    ((seen ++ found).map Fragment.name).Nodup := by
  induction h with
  | done => rwa [List.append_nil]
  | undefined _ _ ih => exact ih distinct
  | again _ _ _ ih => exact ih distinct
  | @first seen inner more fragment name rest _ fresh _ _ ihnested ih =>
    have hvisited : ((seen ++ [fragment]).map Fragment.name).Nodup := by
      rw [List.map_append, List.map_singleton, ← List.concat_eq_append]
      exact distinct.concat fresh
    have hnested : ((seen ++ fragment :: inner).map Fragment.name).Nodup := by
      simpa using ihnested hvisited
    simpa using ih hnested

/-- What is found is reached from one of the names. -/
theorem reaches (h : Searches set seen names found) :
    ∀ fragment ∈ found, ∃ name ∈ names, set.Reaches name fragment := by
  induction h with
  | done => exact fun _ h ↦ nomatch h
  | undefined _ _ ih =>
    intro fragment hfragment
    obtain ⟨name, hname, hreaches⟩ := ih fragment hfragment
    exact ⟨name, List.mem_cons_of_mem _ hname, hreaches⟩
  | again _ _ _ ih =>
    intro fragment hfragment
    obtain ⟨name, hname, hreaches⟩ := ih fragment hfragment
    exact ⟨name, List.mem_cons_of_mem _ hname, hreaches⟩
  | @first seen inner more fragment name rest defined _ _ _ ihnested ih =>
    intro other hother
    rcases List.mem_cons.mp hother with rfl | hother
    · exact ⟨name, List.mem_cons_self, name, .refl, defined⟩
    rcases List.mem_append.mp hother with hinner | hmore
    · obtain ⟨spread, hspread, target, hpath, htarget⟩ := ihnested other hinner
      exact ⟨name, List.mem_cons_self, target, .head ⟨fragment, defined, hspread⟩ hpath, htarget⟩
    · obtain ⟨next, hnext, hreaches⟩ := ih other hmore
      exact ⟨next, List.mem_cons_of_mem _ hnext, hreaches⟩

end Searches

/-! ## Completeness -/

/-- All fragments that are defined under the names are found. -/
def Exhausts (set : FragmentSet) (found : List Fragment) (names : List String) : Prop :=
  ∀ name ∈ names, ∀ fragment, set.get? name = some fragment → fragment ∈ found

theorem Exhausts.mono (h : set.Exhausts found names) (more : found ⊆ seen) : set.Exhausts seen names :=
  fun name hname fragment hfragment ↦ more (h name hname fragment hfragment)

/-- A search leaves nothing out: of the names, and of what the fragments it has found spread.  That a
fragment of the same name has been seen tells that the fragment itself has been seen. -/
theorem Searches.exhausts (h : Searches set seen names found) (named : set.StandsByName)
    (stored : ∀ fragment ∈ seen, set.get? fragment.name = some fragment) :
    set.Exhausts (seen ++ found) names ∧
      (∀ fragment ∈ found, set.Exhausts (seen ++ found) fragment.spreads) ∧
      ∀ fragment ∈ found, set.get? fragment.name = some fragment := by
  induction h with
  | done => exact ⟨(fun _ h ↦ nomatch h), (fun _ h ↦ nomatch h), (fun _ h ↦ nomatch h)⟩
  | undefined missing _ ih =>
    obtain ⟨hrest, hfound⟩ := ih stored
    refine ⟨List.forall_mem_cons.mpr ⟨fun fragment hfragment ↦ ?_, hrest⟩, hfound⟩
    cases missing.symm.trans hfragment
  | @again seen found fragment name rest defined old _ ih =>
    obtain ⟨hrest, hfound⟩ := ih stored
    refine ⟨List.forall_mem_cons.mpr ⟨fun other hother ↦ ?_, hrest⟩, hfound⟩
    obtain rfl := Option.some.inj (defined.symm.trans hother)
    obtain ⟨same, hsame, hname⟩ := List.mem_map.mp old
    have hstored := stored same hsame
    rw [hname, named name fragment defined, defined] at hstored
    obtain rfl := Option.some.inj hstored
    exact List.mem_append_left _ hsame
  | @first seen inner more fragment name rest defined _ _ _ ihnested ih =>
    have hfragment : set.get? fragment.name = some fragment := (named name fragment defined).symm ▸ defined
    obtain ⟨hspreads, hinner, hinnerStored⟩ := ihnested (List.forall_mem_append.mpr
      ⟨stored, List.forall_mem_singleton.mpr hfragment⟩)
    obtain ⟨hrest, hmore, hmoreStored⟩ := ih (List.forall_mem_append.mpr
      ⟨stored, List.forall_mem_cons.mpr ⟨hfragment, hinnerStored⟩⟩)
    -- both searches have found no more than is found in the end
    have hnested : seen ++ [fragment] ++ inner ⊆ seen ++ fragment :: (inner ++ more) := by
      intro other hother
      simp only [List.mem_append, List.mem_cons, List.not_mem_nil] at hother ⊢
      tauto
    have hfurther : seen ++ fragment :: inner ++ more ⊆ seen ++ fragment :: (inner ++ more) := by
      rw [List.append_assoc, List.cons_append]
      exact List.Subset.refl _
    refine ⟨List.forall_mem_cons.mpr ⟨fun other hother ↦ ?_, hrest.mono hfurther⟩, ?_, ?_⟩
    · obtain rfl := Option.some.inj (defined.symm.trans hother)
      exact List.mem_append_right _ List.mem_cons_self
    · refine List.forall_mem_cons.mpr ⟨hspreads.mono hnested, List.forall_mem_append.mpr ⟨?_, ?_⟩⟩
      · exact fun other hother ↦ (hinner other hother).mono hnested
      · exact fun other hother ↦ (hmore other hother).mono hfurther
    · exact List.forall_mem_cons.mpr ⟨hfragment, List.forall_mem_append.mpr ⟨hinnerStored, hmoreStored⟩⟩

/-- A search that starts anew finds all that is reached. -/
theorem Searches.mem_iff (h : Searches set [] [root] found) (named : set.StandsByName) :
    fragment ∈ found ↔ set.Reaches root fragment := by
  obtain ⟨hroot, hclosed, -⟩ := h.exhausts named fun _ h ↦ nomatch h
  rw [List.nil_append] at hroot hclosed
  constructor
  · intro hfragment
    obtain ⟨name, hname, hreaches⟩ := h.reaches fragment hfragment
    rwa [List.mem_singleton.mp hname] at hreaches
  · rintro ⟨name, hpath, hdefined⟩
    induction hpath generalizing fragment with
    | refl => exact hroot root (List.mem_singleton_self root) fragment hdefined
    | tail _ spreads ih =>
      obtain ⟨parent, hparent, hspread⟩ := spreads
      exact hclosed parent (ih hparent) _ hspread fragment hdefined

/-! ## Visits -/

/-- How many names the fragments that are not seen yet may put on the stack. -/
def pending (set : FragmentSet) (seen : List Fragment) : Nat :=
  ((set.definitions.values.filter fun fragment ↦
    fragment.name ∉ seen.map Fragment.name).map fun fragment ↦ fragment.spreads.length).sum

/-- A visit takes what the fragment spreads from the names that are pending. -/
theorem pending_visited (defined : set.get? name = some fragment)
    (fresh : fragment.name ∉ seen.map Fragment.name) :
    set.pending (seen ++ [fragment]) + fragment.spreads.length ≤ set.pending seen := by
  have hmem : fragment ∈ set.definitions.values := List.mem_map_of_mem (Entries.mem_of_get? defined)
  obtain ⟨front, back, hsplit⟩ := List.append_of_mem hmem
  have hless : ∀ part : List Fragment,
      ((part.filter fun other ↦ other.name ∉ (seen ++ [fragment]).map Fragment.name).map
          fun other ↦ other.spreads.length).sum ≤
        ((part.filter fun other ↦ other.name ∉ seen.map Fragment.name).map
          fun other ↦ other.spreads.length).sum := by
    intro part
    have hsublist := List.monotone_filter_right part
      (p := fun other ↦ decide (other.name ∉ (seen ++ [fragment]).map Fragment.name))
      (q := fun other ↦ decide (other.name ∉ seen.map Fragment.name)) fun other h ↦ by
        rw [decide_eq_true_iff, List.map_append, List.mem_append, not_or] at h
        exact decide_eq_true h.1
    exact (hsublist.map _).sum_le_sum fun _ _ ↦ Nat.zero_le _
  have hfront := hless front
  have hback := hless back
  unfold pending
  rw [hsplit, List.filter_append, List.filter_append, List.filter_cons_of_neg, List.filter_cons_of_pos]
  · simp only [List.map_append, List.map_cons, List.sum_append, List.sum_cons] at hfront hback ⊢
    omega
  · exact decide_eq_true fresh
  · simp

theorem any_name_iff : (seen.any (·.name == fragment.name)) = true ↔
    fragment.name ∈ seen.map Fragment.name := by
  simp only [List.any_eq_true, beq_iff_eq, List.mem_map]

/-- If the number of visits is large enough, the stack is searched to its end. -/
theorem searches_visit {fuel : Nat} (enough : names.length + set.pending seen ≤ fuel) :
    ∃ found, set.visit fuel seen names = seen ++ found ∧ Searches set seen names found := by
  induction fuel generalizing seen names with
  | zero =>
    obtain rfl := List.length_eq_zero_iff.mp (Nat.eq_zero_of_add_eq_zero (Nat.le_zero.mp enough)).1
    exact ⟨[], by simp [visit], .done⟩
  | succ fuel ih =>
    cases names with
    | nil => exact ⟨[], by simp [visit], .done⟩
    | cons name rest =>
      rw [List.length_cons] at enough
      have hrest : rest.length + set.pending seen ≤ fuel := by omega
      cases hdefined : set.get? name with
      | none =>
        obtain ⟨found, hvisit, hfound⟩ := ih hrest
        refine ⟨found, ?_, .undefined hdefined hfound⟩
        rw [visit, hdefined, ← hvisit]
      | some fragment =>
        by_cases hold : fragment.name ∈ seen.map Fragment.name
        · obtain ⟨found, hvisit, hfound⟩ := ih hrest
          refine ⟨found, ?_, .again hdefined hold hfound⟩
          rw [visit, hdefined, ← hvisit]
          exact if_pos (any_name_iff.mpr hold)
        · have hpending := pending_visited hdefined hold
          have henough :
              (fragment.spreads ++ rest).length + set.pending (seen ++ [fragment]) ≤ fuel := by
            rw [List.length_append]
            omega
          obtain ⟨found, hvisit, hfound⟩ := ih henough
          obtain ⟨inner, more, hinner, hmore, rfl⟩ := hfound.exists_of_append
          refine ⟨fragment :: (inner ++ more), ?_, .first hdefined hold hinner (by simpa using hmore)⟩
          rw [visit, hdefined]
          refine (if_neg (mt any_name_iff.mp hold)).trans (hvisit.trans ?_)
          rw [List.append_assoc, List.singleton_append]

/-- The dependencies are what the search finds. -/
theorem searches_dependencies (set : FragmentSet) (root : String) :
    Searches set [] [root] (set.dependencies root) := by
  have henough : [root].length + set.pending [] ≤ set.visitBound := by
    unfold pending visitBound
    simp [List.length_flatMap, Nat.add_comm]
  obtain ⟨found, hvisit, hfound⟩ := searches_visit henough
  unfold dependencies
  rwa [hvisit, List.nil_append]

/-- The root comes first, if it is defined. -/
theorem head?_dependencies (set : FragmentSet) (root : String) :
    (set.dependencies root).head? = set.get? root := by
  have hsearch := searches_dependencies set root
  generalize set.dependencies root = found at hsearch ⊢
  cases hsearch with
  | undefined missing further =>
    cases further
    exact missing.symm
  | again _ old => cases old
  | first defined => exact defined.symm

theorem nodup_dependencies (set : FragmentSet) (root : String) :
    ((set.dependencies root).map Fragment.name).Nodup :=
  (searches_dependencies set root).nodup List.nodup_nil

/-! ## Operation documents -/

open OperationDocument (SelectsResult Spelled request sourceOf)

/-- In a set whose fragments stand under their own names, whatever they spread, the search from a root
comes to one end.  It finds the fragments that are reached, each once, the root first and each before
all that it leads to; it finds none exactly if the root is undefined.  So behind the operation of every
document stands each fragment that is reached from the one it spreads, once, and nothing else: its name,
its type and its selections, line by line.  If the names can be read, the text is read as a request with
this operation and these fragments. -/
theorem dependencies_reaches (set : FragmentSet) (named : set.StandsByName) :
    (∀ root, (∀ found, Searches set [] [root] found ↔ found = set.dependencies root) ∧
      (∀ fragment, fragment ∈ set.dependencies root ↔ set.Reaches root fragment) ∧
      ((set.dependencies root).map Fragment.name).Nodup ∧
      (set.dependencies root).head? = set.get? root ∧
      (set.dependencies root = [] ↔ set.get? root = none)) ∧
    ∀ signature, ∀ document ∈ OperationDocument.ofSignature set signature,
      ∃ selection root appended, SelectsResult set signature document.part selection root ∧
        document.source = sourceOf signature document.name selection appended ∧
        (appended.map Fragment.name).Nodup ∧
        (∀ fragment, fragment ∈ appended ↔ ∃ name ∈ root, set.Reaches name fragment) ∧
        (∀ name ∈ root, appended = set.dependencies name) ∧
        (Spelled signature document.name root appended →
          Request.parse? document.source = some (request signature document.name root appended)) := by
  constructor
  · intro root
    have hsearch := searches_dependencies set root
    refine ⟨fun found ↦ ⟨fun h ↦ h.unique hsearch, fun h ↦ h ▸ hsearch⟩,
      fun fragment ↦ hsearch.mem_iff named, nodup_dependencies set root, head?_dependencies set root, ?_⟩
    rw [← head?_dependencies, List.head?_eq_none_iff]
  · intro signature document hdocument
    obtain ⟨selection, root, hselects, hsource⟩ :=
      OperationDocument.exists_of_mem_ofSignature hdocument
    have hnodup : (((root.map set.dependencies).getD []).map Fragment.name).Nodup := by
      cases root with
      | none => exact List.nodup_nil
      | some name => exact nodup_dependencies set name
    refine ⟨selection, root, _, hselects, hsource, hnodup, fun fragment ↦ ?_, fun name hname ↦ ?_,
      fun spelled ↦ ?_⟩
    · cases root with
      | none => simp
      | some name => simpa using (searches_dependencies set name).mem_iff named
    · cases hname
      rfl
    · rw [hsource]
      exact OperationDocument.parse?_sourceOf hselects spelled hnodup

/-- A circle of two fragments, one of which spreads itself, a shared target and an undefined one: what the
search finds stands in the document of a query, and is read there. -/
theorem dependencies_reaches_circle :
    let first : Fragment := ⟨"A", "A", "Whole", [.spread "x" "B", .spread "y" "C", .spread "z" "D"]⟩
    let second : Fragment := ⟨"B", "B", "Whole", [.spread "x" "B", .spread "y" "A", .spread "z" "C"]⟩
    let shared : Fragment := ⟨"C", "C", "Whole", [.field "x", .idOnly "w"]⟩
    let set : FragmentSet :=
      ⟨[("A", first), ("B", second), ("C", shared)], [("A", [("Whole", some "A")])]⟩
    let signature : Signature :=
      ⟨"getA", "getA", "A", .query .byId .mixed .whole, [⟨"id", "ID!"⟩], "A", .object "A"⟩
    set.StandsByName ∧ Searches set [] ["A"] [first, second, shared] ∧ set.Reaches "A" shared ∧
      ∃ document ∈ OperationDocument.ofSignature set signature,
        document.source = ofLines ["query getA($id: ID!) \x7b", "  getA(id: $id) \x7b ...A \x7d", "\x7d",
          "", "fragment A on A \x7b", "  x \x7b", "    ...B", "  \x7d", "  y \x7b", "    ...C", "  \x7d",
          "  z \x7b", "    ...D", "  \x7d", "\x7d",
          "", "fragment B on B \x7b", "  x \x7b", "    ...B", "  \x7d", "  y \x7b", "    ...A", "  \x7d",
          "  z \x7b", "    ...C", "  \x7d", "\x7d",
          "", "fragment C on C \x7b", "  x", "  w \x7b", "    id", "  \x7d", "\x7d"] ∧
        Request.parse? document.source =
          some (request signature "getA" (some "A") [first, second, shared]) := by
  intro first second shared set signature
  have hnamed : set.StandsByName := by
    intro name fragment hfragment
    have hstored : ∀ entry ∈ set.definitions, entry.2.name = entry.1 := by decide
    exact hstored _ (Entries.mem_of_get? hfragment)
  have hfound : [first, second, shared] = set.dependencies "A" := by decide +kernel
  obtain ⟨hsearches, hdocuments⟩ := dependencies_reaches set hnamed
  obtain ⟨hsearch, hreaches, -⟩ := hsearches "A"
  refine ⟨hnamed, (hsearch _).mpr hfound, (hreaches shared).mp ?_, _, List.mem_singleton_self _, ?_, ?_⟩
  · rw [← hfound]
    simp
  · decide +kernel
  · obtain ⟨selection, root, appended, hselects, -, -, -, happended, hread⟩ :=
      hdocuments signature _ (List.mem_singleton_self _)
    have hroot : root = some "A" := by
      cases hselects with
      | part shape listed =>
        cases shape
        cases List.mem_singleton.mp listed
        rfl
      | page shape => cases shape
    subst hroot
    rw [happended "A" rfl, ← hfound] at hread
    have hselections : ∀ fragment ∈ [first, second, shared], ∀ selection ∈ fragment.selections,
        selection.Spelled := by
      unfold Selection.Spelled Request.IsSpreadName
      decide
    have hfragments : ∀ fragment ∈ [first, second, shared], fragment.Spelled := by
      intro fragment hfragment
      have hnames : ∀ fragment ∈ [first, second, shared], Name.isValid fragment.name.toList = true ∧
          Name.isValid fragment.on.toList = true ∧ fragment.selections ≠ [] := by decide
      obtain ⟨hname, hon, hnonempty⟩ := hnames fragment hfragment
      exact ⟨hname, hon, hnonempty, hselections fragment hfragment⟩
    have hid : IsDecorated "ID!" := ⟨"ID", [false], by decide, by decide⟩
    apply hread
    refine ⟨by decide, by decide, List.forall_mem_singleton.mpr ⟨by decide, hid⟩, ?_, hfragments⟩
    intro fragment hfragment
    cases hfragment
    exact ⟨by decide, by decide⟩

end FragmentSet
end ResourceApi

import Mathlib.Data.List.Infix
import ResourceApi.Path

/-!
# Paths above a path

A path lies within itself and within every front part of it that ends before a dot.  These front parts
are ordered by their length, and their depths come in the same order.  A path is the same as its segments:
cutting it and joining the segments are inverse to each other.
-/

namespace ResourceApi.Path

variable {ancestor other path : String}

theorem length_cut (segment text : List Char) : (cut segment text).length = text.count '.' + 1 := by
  induction text generalizing segment with
  | nil => rfl
  | cons c rest ih =>
    rw [cut]
    by_cases h : c = '.' <;> simp [h, ih]

theorem depth_eq (path : String) : depth path = path.toList.count '.' + 1 := by
  rw [depth, segments, List.length_map, length_cut]

theorem isWithin_iff :
    isWithin ancestor path = true ↔ path = ancestor ∨ ancestor.toList ++ ['.'] <+: path.toList := by
  simp [isWithin]

theorem prefix_of_isWithin (h : isWithin ancestor path = true) : ancestor.toList <+: path.toList := by
  rcases isWithin_iff.mp h with rfl | hfront
  · exact List.prefix_rfl
  · exact (List.prefix_append _ _).trans hfront

/-- Front parts of one path that are equally long are the same. -/
theorem eq_of_isWithin (hancestor : isWithin ancestor path = true) (hother : isWithin other path = true)
    (hlength : ancestor.length = other.length) : ancestor = other := by
  have hfront : ancestor.toList <+: other.toList := by
    apply List.prefix_of_prefix_length_le (prefix_of_isWithin hancestor) (prefix_of_isWithin hother)
    exact hlength.le
  exact String.toList_inj.mp (hfront.eq_of_length hlength)

/-- A longer front part goes on with a dot after a shorter one, so it is deeper. -/
theorem depth_lt_of_length_lt (hancestor : isWithin ancestor path = true)
    (hother : isWithin other path = true) (hlength : ancestor.length < other.length) :
    depth ancestor < depth other := by
  have hother := prefix_of_isWithin hother
  have hdot : ancestor.toList ++ ['.'] <+: other.toList := by
    rcases isWithin_iff.mp hancestor with rfl | hancestor
    · exact absurd hother.length_le (Nat.not_le.mpr hlength)
    · apply List.prefix_of_prefix_length_le hancestor hother
      rw [List.length_append, List.length_singleton]
      exact hlength
  have hcount := hdot.sublist.count_le '.'
  rw [List.count_append, List.count_singleton_self] at hcount
  rw [depth_eq, depth_eq]
  omega

/-! ## Segments -/

/-- A text that can stand between dots: it is not empty and has no dot itself. -/
def IsSegment (text : String) : Prop := text ≠ "" ∧ '.' ∉ text.toList

theorem cut_eq (segment text : List Char) :
    cut segment text = List.splitOnPPrepend (· == '.') text segment := by
  induction text generalizing segment with
  | nil => rfl
  | cons c rest ih =>
    rw [cut, List.splitOnPPrepend_cons_eq_if, ih, ih]
    rfl

theorem segments_eq (path : String) :
    segments path = (path.toList.splitOn '.').map String.ofList := by
  rw [segments, cut_eq]
  rfl

theorem segments_ne_nil (path : String) : segments path ≠ [] := by
  rw [segments_eq, Ne, List.map_eq_nil_iff]
  exact List.splitOn_ne_nil _ _

theorem toList_join (segments : List String) :
    (join segments).toList = ['.'].intercalate (segments.map String.toList) :=
  String.toList_intercalate

theorem join_segments (path : String) : join (segments path) = path := by
  apply String.toList_inj.mp
  rw [toList_join, segments_eq, List.map_map]
  have hid : String.toList ∘ String.ofList = id := funext fun _ ↦ String.toList_ofList
  rw [hid, List.map_id, List.intercalate_splitOn]

theorem segments_join {texts : List String} (nonempty : texts ≠ [])
    (undotted : ∀ text ∈ texts, '.' ∉ text.toList) : segments (join texts) = texts := by
  have hsplit : (['.'].intercalate (texts.map String.toList)).splitOn '.' =
      texts.map String.toList := by
    apply List.splitOn_intercalate
    · exact List.forall_mem_map.mpr undotted
    · simpa using nonempty
  rw [segments_eq, toList_join, hsplit, List.map_map]
  have hid : String.ofList ∘ String.toList = id := funext fun _ ↦ String.ofList_toList
  rw [hid, List.map_id]

theorem not_mem_of_mem_cut {segment text part : List Char} (h : part ∈ cut segment text)
    (hsegment : '.' ∉ segment) : '.' ∉ part := by
  induction text generalizing segment with
  | nil =>
    obtain rfl := List.mem_singleton.mp h
    simpa using hsegment
  | cons c rest ih =>
    rw [cut] at h
    by_cases hc : c = '.'
    · rw [if_pos (by simpa using hc)] at h
      rcases List.mem_cons.mp h with rfl | hrest
      · simpa using hsegment
      · exact ih hrest List.not_mem_nil
    · rw [if_neg (by simpa using hc)] at h
      exact ih h (by simpa [eq_comm] using ⟨hc, hsegment⟩)

theorem isSegment_of_mem_segments {text path : String} (h : text ∈ segments path) (filled : text ≠ "") :
    IsSegment text := by
  refine ⟨filled, ?_⟩
  obtain ⟨part, hpart, rfl⟩ := List.mem_map.mp h
  rw [String.toList_ofList]
  exact not_mem_of_mem_cut hpart List.not_mem_nil

theorem join_append {front back : List String} (hfront : front ≠ []) (hback : back ≠ []) :
    join (front ++ back) = join front ++ "." ++ join back :=
  String.intercalate_append_of_ne_nil hfront hback

/-- A path whose first segments are those of another lies within it. -/
theorem isWithin_of_prefix (h : segments ancestor <+: segments path) : isWithin ancestor path = true := by
  obtain ⟨rest, hrest⟩ := h
  rw [isWithin_iff, ← join_segments ancestor, ← join_segments path, ← hrest]
  by_cases hnil : rest = []
  · left
    rw [hnil, List.append_nil]
  · right
    rw [join_append (segments_ne_nil ancestor) hnil, String.toList_append, String.toList_append]
    exact List.prefix_append _ _

theorem join_ne_empty {texts : List String} (nonempty : texts ≠ []) (filled : ∀ text ∈ texts, text ≠ "") :
    join texts ≠ "" := by
  cases texts with
  | nil => exact absurd rfl nonempty
  | cons first rest =>
    have hfirst := filled first List.mem_cons_self
    cases rest with
    | nil => simpa [join] using hfirst
    | cons second more => simp [join]

end ResourceApi.Path

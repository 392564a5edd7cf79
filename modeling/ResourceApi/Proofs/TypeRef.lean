import Mathlib.Data.List.TakeWhile
import ResourceApi.TypeRef

/-!
# The named type of a reference

Decorating a name and reading the named type of the text gives the name back.  That needs no more of
the name than that it holds no decoration: a text that is no reference, because its name is none of the
schema language, is read by trimming.
-/

namespace ResourceApi.TypeRef

/-- The text holds no brackets and no marks. -/
def IsPlain (text : List Char) : Prop := ∀ c ∈ text, isDecoration c = false

/-! ## Reading a rendered reference -/

theorem dropLast?_append (c : Char) (text : List Char) : dropLast? c (text ++ [c]) = some text := by
  simp [dropLast?]

theorem dropLast?_of_plain {c : Char} {text : List Char} (hc : isDecoration c = true)
    (h : IsPlain text) : dropLast? c text = none := by
  unfold dropLast?
  refine if_neg fun hlast ↦ ?_
  have hplain := h c (List.mem_of_getLast? hlast)
  rw [hc] at hplain
  cases hplain

theorem name_ofVector (name : String) (nullable : List Bool) :
    (ofVector name nullable).name = name := by
  induction nullable with
  | nil => rfl
  | cons first rest ih =>
    cases rest with
    | nil => rfl
    | cons next more => exact ih

/-- The mark of a reference is read off its end, and leaves the text before it. -/
theorem dropLast?_mark {text : List Char} (h : dropLast? '!' text = none) (nullable : Bool) :
    (dropLast? '!' (text ++ mark nullable)).getD (text ++ mark nullable) = text ∧
      (dropLast? '!' (text ++ mark nullable)).isNone = nullable := by
  cases nullable with
  | false =>
    have hmark : mark false = ['!'] := rfl
    rw [hmark, dropLast?_append]
    exact ⟨rfl, rfl⟩
  | true =>
    have hmark : mark true = [] := rfl
    rw [hmark, List.append_nil, h]
    exact ⟨rfl, rfl⟩

theorem renderChars_list (item : TypeRef) (nullable : Bool) :
    renderChars (.list item nullable) = ('[' :: (item.renderChars ++ [']'])) ++ mark nullable := by
  simp [renderChars]

/-- A text has at least as many characters as the reference has lists. -/
theorem depth_le_length (ref : TypeRef) : ref.depth ≤ ref.renderChars.length := by
  induction ref with
  | named => exact Nat.zero_le _
  | list item nullable ih =>
    simp only [depth, renderChars, List.length_append, List.length_cons]
    omega

/-- A rendered reference is read as itself, if the named type has a name of the schema language and the
bound on the number of lists is large enough. -/
theorem parseWith_renderChars {ref : TypeRef} (h : IsPlain ref.name.toList) (fuel : Nat) :
    parseWith fuel ref.renderChars =
      if Name.isValid ref.name.toList = true ∧ ref.depth < fuel then some ref else none := by
  induction ref generalizing fuel with
  | named name nullable =>
    cases fuel with
    | zero => exact (if_neg fun hfuel ↦ Nat.not_lt_zero _ hfuel.2).symm
    | succ fuel =>
      have hplain : dropLast? '!' name.toList = none := dropLast?_of_plain (by decide) h
      obtain ⟨htext, hnone⟩ := dropLast?_mark hplain nullable
      have hfuel : depth (.named name nullable) < fuel + 1 := Nat.succ_pos fuel
      simp only [hfuel, and_true]
      unfold parseWith renderChars
      dsimp only
      rw [htext, hnone]
      split
      · rename_i rest hname
        have hbracket := h '[' (hname ▸ List.mem_cons_self)
        cases hbracket
      · rw [String.ofList_toList]
        rfl
  | list item nullable ih =>
    cases fuel with
    | zero => exact (if_neg fun hfuel ↦ Nat.not_lt_zero _ hfuel.2).symm
    | succ fuel =>
      have hclosed : dropLast? '!' ('[' :: (item.renderChars ++ [']'])) = none := by
        rw [← List.cons_append]
        unfold dropLast?
        rw [List.getLast?_concat]
        rfl
      obtain ⟨htext, hnone⟩ := dropLast?_mark hclosed nullable
      unfold parseWith
      dsimp only
      rw [renderChars_list, htext, hnone]
      have hdepth : depth (.list item nullable) < fuel + 1 ↔ item.depth < fuel := Nat.succ_lt_succ_iff
      simp only [dropLast?_append, Option.bind_eq_bind, Option.bind_some, ih h fuel, hdepth, name]
      split <;> rfl

/-! ## Trimming -/

theorem dropWhile_plain {front text : List Char} (hfront : ∀ c ∈ front, isDecoration c = true)
    (h : IsPlain text) (hne : text ≠ []) (back : List Char) :
    (front ++ (text ++ back)).dropWhile isDecoration = text ++ back := by
  rw [List.dropWhile_append_of_pos hfront]
  cases text with
  | nil => exact absurd rfl hne
  | cons first rest =>
    rw [List.cons_append, List.dropWhile_cons_of_neg]
    simp [h first List.mem_cons_self]

/-- Trimming takes off decoration and nothing else. -/
theorem trim_decoration {front text back : List Char} (hfront : ∀ c ∈ front, isDecoration c = true)
    (h : IsPlain text) (hback : ∀ c ∈ back, isDecoration c = true) :
    (((front ++ (text ++ back)).dropWhile isDecoration).reverse.dropWhile isDecoration).reverse =
      text := by
  by_cases hne : text = []
  · subst hne
    have hall : ∀ c ∈ front ++ ([] ++ back), isDecoration c = true := by
      intro c hc
      rw [List.nil_append] at hc
      exact (List.mem_append.mp hc).elim (hfront c) (hback c)
    rw [List.dropWhile_eq_nil_iff.mpr hall]
    rfl
  · have hreverse : IsPlain text.reverse := fun c hc ↦ h c (List.mem_reverse.mp hc)
    have hbackReverse : ∀ c ∈ back.reverse, isDecoration c = true :=
      fun c hc ↦ hback c (List.mem_reverse.mp hc)
    have htrim := dropWhile_plain hbackReverse hreverse (by simpa using hne) []
    rw [dropWhile_plain hfront h hne, List.reverse_append]
    rw [List.append_nil] at htrim
    rw [htrim, List.reverse_reverse]

theorem renderChars_parts (ref : TypeRef) : ∃ front back, ref.renderChars =
    front ++ (ref.name.toList ++ back) ∧ (∀ c ∈ front, isDecoration c = true) ∧
      ∀ c ∈ back, isDecoration c = true := by
  have hmark : ∀ nullable, ∀ c ∈ mark nullable, isDecoration c = true := by
    intro nullable c hc
    cases nullable with
    | false =>
      obtain rfl := List.mem_singleton.mp hc
      rfl
    | true => cases hc
  induction ref with
  | named name nullable => exact ⟨[], mark nullable, rfl, by simp, hmark nullable⟩
  | list item nullable ih =>
    obtain ⟨front, back, hrender, hfront, hback⟩ := ih
    refine ⟨'[' :: front, back ++ ']' :: mark nullable, ?_, ?_, ?_⟩
    · simp [renderChars, hrender, name]
    · exact List.forall_mem_cons.mpr ⟨rfl, hfront⟩
    · intro c hc
      rcases List.mem_append.mp hc with hold | hnew
      · exact hback c hold
      · rcases List.mem_cons.mp hnew with rfl | hmarked
        · rfl
        · exact hmark nullable c hmarked

/-- The named type of a decorated name is the name. -/
theorem nameOf_decorate {name : String} (h : IsPlain name.toList) (nullable : List Bool) :
    nameOf (decorate name nullable) = name := by
  have hname : (ofVector name nullable).name = name := name_ofVector name nullable
  have hplain : IsPlain (ofVector name nullable).name.toList := hname.symm ▸ h
  have hchars : (decorate name nullable).toList = (ofVector name nullable).renderChars :=
    String.toList_ofList
  unfold nameOf parse?
  rw [hchars, parseWith_renderChars hplain]
  by_cases hread : Name.isValid (ofVector name nullable).name.toList = true ∧
      (ofVector name nullable).depth < (ofVector name nullable).renderChars.length + 1
  · rw [if_pos hread]
    exact hname
  · rw [if_neg hread]
    obtain ⟨front, back, hrender, hfront, hback⟩ := renderChars_parts (ofVector name nullable)
    dsimp only
    rw [hrender, trim_decoration hfront hplain hback, hname, String.ofList_toList]

/-! ## References by their texts -/

section Texts

variable {name : String}

theorem decorate_nullable (name : String) : decorate name [true] = name := by
  simp [decorate, ofVector, render, renderChars, mark]

theorem decorate_nonNull (name : String) : decorate name [false] = name ++ "!" := by
  apply String.toList_inj.mp
  simp [decorate, ofVector, render, renderChars, mark]

theorem decorate_list (name : String) : decorate name [false, true] = "[" ++ name ++ "]!" := by
  apply String.toList_inj.mp
  simp [decorate, ofVector, render, renderChars, mark]

theorem decorate_nonNullList (name : String) :
    decorate name [false, false] = "[" ++ name ++ "!]!" := by
  apply String.toList_inj.mp
  simp [decorate, ofVector, render, renderChars, mark]

theorem nameOf_nullable (h : IsPlain name.toList) : nameOf name = name := by
  simpa only [decorate_nullable] using nameOf_decorate h [true]

theorem nameOf_nonNull (h : IsPlain name.toList) : nameOf (name ++ "!") = name := by
  simpa only [decorate_nonNull] using nameOf_decorate h [false]

theorem nameOf_list (h : IsPlain name.toList) : nameOf ("[" ++ name ++ "]!") = name := by
  simpa only [decorate_list] using nameOf_decorate h [false, true]

theorem nameOf_nonNullList (h : IsPlain name.toList) : nameOf ("[" ++ name ++ "!]!") = name := by
  simpa only [decorate_nonNullList] using nameOf_decorate h [false, false]

end Texts

end ResourceApi.TypeRef

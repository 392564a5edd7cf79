import ResourceApi.Proofs.Entries
import ResourceApi.Proofs.Text.Case
import ResourceApi.Proofs.TypeRef
import ResourceApi.Text.Plural
import ResourceApi.TypeRef

/-!
# Names that stay names

A word consists of letters and digits of the first 128 code points and of underscores, the characters
that names of the schema language are made of.  All spellings that generated names are built from turn
words into words: camel case, upper case with underscores, and the plural.
-/

namespace ResourceApi

/-- The text holds no characters but those of names. -/
def IsWord (text : String) : Prop := ∀ c ∈ text.toList, Name.isContinue c = true

-- Through the list: the characters are finitely many, but too many to go through.
instance (text : String) : Decidable (IsWord text) :=
  List.decidableBAll (fun c ↦ Name.isContinue c = true) text.toList

theorem isWord_of_isValid {text : String} (h : Name.isValid text.toList = true) : IsWord text := by
  intro c hc
  unfold Name.isValid at h
  split at h
  · cases h
  · rename_i first rest htext
    obtain ⟨hfirst, hrest⟩ := Bool.and_eq_true_iff.mp h
    rw [htext] at hc
    rcases List.mem_cons.mp hc with rfl | hmem
    · unfold Name.isStart at hfirst
      unfold Name.isContinue Char.isAlphanum
      rcases Bool.or_eq_true_iff.mp hfirst with halpha | hunderscore
      · rw [halpha]
        rfl
      · rw [hunderscore, Bool.or_true]
    · exact List.all_eq_true.mp hrest c hmem

theorem IsWord.append {front back : String} (hfront : IsWord front) (hback : IsWord back) :
    IsWord (front ++ back) := by
  intro c hc
  rw [String.toList_append, List.mem_append] at hc
  exact hc.elim (hfront c) (hback c)

namespace Text

theorem isContinue_iff (c : Char) : Name.isContinue c = true ↔
    (65 ≤ c.toNat ∧ c.toNat ≤ 90) ∨ (97 ≤ c.toNat ∧ c.toNat ≤ 122) ∨
      (48 ≤ c.toNat ∧ c.toNat ≤ 57) ∨ c.toNat = 95 := by
  have hunderscore : c = '_' ↔ c.toNat = 95 := by
    constructor
    · rintro rfl
      rfl
    · exact fun h ↦ Char.ext (UInt32.toNat_inj.mp h)
  unfold Name.isContinue Char.isAlphanum Char.isAlpha Char.isUpper Char.isDigit
  simp only [Bool.or_eq_true, Bool.and_eq_true, decide_eq_true_iff, beq_iff_eq, isLower_iff,
    ge_iff_le, UInt32.le_iff_toNat_le, hunderscore]
  exact or_assoc.trans (or_assoc.trans Iff.rfl)

theorem isPlain_of_isWord {text : String} (h : IsWord text) : TypeRef.IsPlain text.toList := by
  intro c hc
  have hword := (isContinue_iff c).mp (h c hc)
  unfold TypeRef.isDecoration
  simp only [Bool.or_eq_false_iff, beq_eq_false_iff_ne]
  refine ⟨⟨?_, ?_⟩, ?_⟩ <;>
  · rintro rfl
    revert hword
    decide

theorem isAscii_of_isContinue {c : Char} (h : Name.isContinue c = true) : isAscii c = true := by
  rw [isContinue_iff] at h
  unfold isAscii
  rw [decide_eq_true_iff]
  omega

theorem isContinue_of_mem_upperChars {c d : Char} (h : Name.isContinue c = true)
    (hd : d ∈ upperChars c) : Name.isContinue d = true := by
  unfold upperChars at hd
  rw [if_pos (isAscii_of_isContinue h)] at hd
  obtain rfl := List.mem_singleton.mp hd
  rw [isContinue_iff] at h ⊢
  rw [toNat_toUpper]
  split <;> omega

theorem isContinue_of_mem_lowerChars {c d : Char} (h : Name.isContinue c = true)
    (hd : d ∈ lowerChars c) : Name.isContinue d = true := by
  unfold lowerChars at hd
  rw [if_pos (isAscii_of_isContinue h)] at hd
  obtain rfl := List.mem_singleton.mp hd
  rw [isContinue_iff] at h ⊢
  rw [toNat_toLower]
  split <;> omega

theorem ne_sigma_of_isContinue {c : Char} (h : Name.isContinue c = true) : c ≠ 'Σ' := by
  rintro rfl
  revert h
  decide

/-! ## Words of an identifier -/

theorem mem_of_mem_cutRun {mode : WordMode} {word chars part : List Char} {c : Char}
    (hpart : part ∈ cutRun mode word chars) (hc : c ∈ part) : c ∈ word ∨ c ∈ chars := by
  induction mode, word, chars using cutRun.induct with
  | case1 => cases hpart
  | case2 mode word last =>
    obtain rfl := List.mem_singleton.mp hpart
    rw [List.mem_reverse, List.mem_cons] at hc
    rcases hc with rfl | hword
    · exact .inr (List.mem_singleton_self c)
    · exact .inl hword
  | case3 mode word first next rest hcut ih =>
    rw [cutRun, if_pos hcut] at hpart
    rcases List.mem_cons.mp hpart with rfl | hlater
    · rw [List.mem_reverse, List.mem_cons] at hc
      rcases hc with rfl | hword
      · exact .inr List.mem_cons_self
      · exact .inl hword
    · rcases ih hlater with hnone | hrest
      · cases hnone
      · exact .inr (List.mem_cons_of_mem _ hrest)
  | case4 mode word first next rest hcut hupper ih =>
    rw [cutRun, if_neg hcut, if_pos hupper] at hpart
    rcases List.mem_cons.mp hpart with rfl | hlater
    · exact .inl (List.mem_reverse.mp hc)
    · rcases ih hlater with hfirst | hrest
      · rw [List.mem_singleton.mp hfirst]
        exact .inr List.mem_cons_self
      · exact .inr (List.mem_cons_of_mem _ hrest)
  | case5 mode word first next rest hcut hupper ih =>
    rw [cutRun, if_neg hcut, if_neg hupper] at hpart
    rcases ih hpart with hword | hrest
    · rcases List.mem_cons.mp hword with rfl | hword
      · exact .inr List.mem_cons_self
      · exact .inl hword
    · exact .inr (List.mem_cons_of_mem _ hrest)

theorem mem_of_mem_runsOf {run chars part : List Char} {c : Char}
    (hpart : part ∈ runsOf run chars) (hc : c ∈ part) : c ∈ run ∨ c ∈ chars := by
  induction chars generalizing run with
  | nil =>
    obtain rfl := List.mem_singleton.mp hpart
    exact .inl (List.mem_reverse.mp hc)
  | cons first rest ih =>
    rw [runsOf] at hpart
    split at hpart
    · rcases ih hpart with hrun | hrest
      · rcases List.mem_cons.mp hrun with rfl | hrun
        · exact .inr List.mem_cons_self
        · exact .inl hrun
      · exact .inr (List.mem_cons_of_mem _ hrest)
    · rcases List.mem_cons.mp hpart with rfl | hlater
      · exact .inl (List.mem_reverse.mp hc)
      · rcases ih hlater with hnone | hrest
        · cases hnone
        · exact .inr (List.mem_cons_of_mem _ hrest)

/-- The words of a text hold only characters of the text. -/
theorem mem_of_mem_words {text : String} {word : List Char} {c : Char} (hword : word ∈ words text)
    (hc : c ∈ word) : c ∈ text.toList := by
  obtain ⟨run, hrun, hcut⟩ := List.mem_flatMap.mp hword
  rcases mem_of_mem_cutRun hcut hc with hnone | hmem
  · cases hnone
  · rcases mem_of_mem_runsOf hrun hmem with hnone | htext
    · cases hnone
    · exact htext

theorem exists_mem_cutRun (mode : WordMode) (word : List Char) {chars : List Char} {c : Char}
    (hc : c ∈ word ∨ c ∈ chars) (hne : chars ≠ []) : ∃ part ∈ cutRun mode word chars, c ∈ part := by
  induction mode, word, chars using cutRun.induct with
  | case1 => exact absurd rfl hne
  | case2 mode word last =>
    refine ⟨_, List.mem_singleton_self _, List.mem_reverse.mpr (List.mem_cons.mpr ?_)⟩
    exact hc.symm.imp_left List.mem_singleton.mp
  | case3 mode word first next rest hcut ih =>
    rw [cutRun, if_pos hcut]
    by_cases hlater : c ∈ next :: rest
    · obtain ⟨part, hpart, hmem⟩ := ih (.inr hlater) (List.cons_ne_nil _ _)
      exact ⟨part, List.mem_cons_of_mem _ hpart, hmem⟩
    · refine ⟨_, List.mem_cons_self, List.mem_reverse.mpr (List.mem_cons.mpr ?_)⟩
      exact (hc.imp_right fun h ↦ (List.mem_cons.mp h).resolve_right hlater).symm
  | case4 mode word first next rest hcut hupper ih =>
    rw [cutRun, if_neg hcut, if_pos hupper]
    rcases hc with hword | hchars
    · exact ⟨_, List.mem_cons_self, List.mem_reverse.mpr hword⟩
    · have hlater : c ∈ [first] ∨ c ∈ next :: rest :=
        (List.mem_cons.mp hchars).imp_left List.mem_singleton.mpr
      obtain ⟨part, hpart, hmem⟩ := ih hlater (List.cons_ne_nil _ _)
      exact ⟨part, List.mem_cons_of_mem _ hpart, hmem⟩
  | case5 mode word first next rest hcut hupper ih =>
    rw [cutRun, if_neg hcut, if_neg hupper]
    refine ih ?_ (List.cons_ne_nil _ _)
    rcases hc with hword | hchars
    · exact .inl (List.mem_cons_of_mem _ hword)
    · rcases List.mem_cons.mp hchars with rfl | hlater
      · exact .inl List.mem_cons_self
      · exact .inr hlater

theorem exists_mem_runsOf (run : List Char) {chars : List Char} {c : Char}
    (hc : c ∈ run ∨ c ∈ chars ∧ isAlphanumeric c = true) : ∃ part ∈ runsOf run chars, c ∈ part := by
  induction chars generalizing run with
  | nil =>
    refine ⟨_, List.mem_singleton_self _, List.mem_reverse.mpr (hc.resolve_right ?_)⟩
    exact fun h ↦ nomatch h.1
  | cons first rest ih =>
    rw [runsOf]
    split
    · refine ih _ ?_
      rcases hc with hrun | ⟨hchars, hletter⟩
      · exact .inl (List.mem_cons_of_mem _ hrun)
      · rcases List.mem_cons.mp hchars with rfl | hrest
        · exact .inl List.mem_cons_self
        · exact .inr ⟨hrest, hletter⟩
    · rename_i hfirst
      rcases hc with hrun | ⟨hchars, hletter⟩
      · exact ⟨_, List.mem_cons_self, List.mem_reverse.mpr hrun⟩
      · rcases List.mem_cons.mp hchars with rfl | hrest
        · exact absurd hletter hfirst
        obtain ⟨part, hpart, hmem⟩ := ih [] (.inr ⟨hrest, hletter⟩)
        exact ⟨part, List.mem_cons_of_mem _ hpart, hmem⟩

/-- Every letter and digit of a text stands in one of its words. -/
theorem exists_mem_words {text : String} {c : Char} (hc : c ∈ text.toList)
    (hletter : isAlphanumeric c = true) : ∃ word ∈ words text, c ∈ word := by
  obtain ⟨run, hrun, hmem⟩ := exists_mem_runsOf [] (.inr ⟨hc, hletter⟩)
  obtain ⟨word, hword, hcut⟩ := exists_mem_cutRun .fresh [] (.inr hmem)
    (List.ne_nil_of_mem hmem)
  exact ⟨word, List.mem_flatMap.mpr ⟨run, hrun, hword⟩, hcut⟩

theorem expandingUpper_ne_nil : ∀ entry ∈ Table.expandingUpper, entry.2 ≠ [] := by
  decide

theorem upperChars_ne_nil (c : Char) : upperChars c ≠ [] := by
  unfold upperChars
  split
  · exact List.cons_ne_nil _ _
  · split
    · rename_i codes hfind
      exact mt List.map_eq_nil_iff.mp (expandingUpper_ne_nil _ (List.mem_of_find?_eq_some hfind))
    · exact List.cons_ne_nil _ _

/-- A text with a letter or a digit does not vanish in camel case. -/
theorem upperCamelCase_ne_empty {text : String} {c : Char} (hc : c ∈ text.toList)
    (hletter : isAlphanumeric c = true) : upperCamelCase text ≠ "" := by
  obtain ⟨word, hword, hmem⟩ := exists_mem_words hc hletter
  intro hempty
  have hnil : (words text).flatMap capitalize = [] := by
    simpa [upperCamelCase] using congrArg String.toList hempty
  have hcapital : capitalize word = [] := List.flatMap_eq_nil_iff.mp hnil word hword
  cases word with
  | nil => cases hmem
  | cons first rest => exact upperChars_ne_nil first (List.append_eq_nil_iff.mp hcapital).1

theorem isContinue_of_mem_lowerTail {chars : List Char} {c : Char}
    (h : ∀ d ∈ chars, Name.isContinue d = true) (hc : c ∈ lowerTail chars) :
    Name.isContinue c = true := by
  induction chars with
  | nil => cases hc
  | cons first rest ih =>
    obtain ⟨hfirst, hrest⟩ := List.forall_mem_cons.mp h
    cases rest with
    | nil =>
      rw [lowerTail, if_neg (by simpa using ne_sigma_of_isContinue hfirst)] at hc
      exact isContinue_of_mem_lowerChars hfirst hc
    | cons second more =>
      simp only [lowerTail, List.mem_append] at hc
      rcases hc with hc | hc
      · exact isContinue_of_mem_lowerChars hfirst hc
      · exact ih hrest hc

theorem isWord_upperCamelCase {text : String} (h : IsWord text) : IsWord (upperCamelCase text) := by
  intro c hc
  unfold upperCamelCase at hc
  rw [String.toList_ofList] at hc
  obtain ⟨word, hword, hc⟩ := List.mem_flatMap.mp hc
  have hchars : ∀ d ∈ word, Name.isContinue d = true := fun d hd ↦ h d (mem_of_mem_words hword hd)
  cases word with
  | nil => cases hc
  | cons first rest =>
    obtain ⟨hfirst, hrest⟩ := List.forall_mem_cons.mp hchars
    rcases List.mem_append.mp hc with hc | hc
    · exact isContinue_of_mem_upperChars hfirst hc
    · exact isContinue_of_mem_lowerTail hrest hc

theorem isWord_upperSnakeCase {text : String} (h : IsWord text) : IsWord (upperSnakeCase text) := by
  intro c hc
  unfold upperSnakeCase at hc
  rw [String.toList_ofList] at hc
  rcases mem_intercalate hc with hunderscore | ⟨part, hpart, hc⟩
  · obtain rfl := List.mem_singleton.mp hunderscore
    decide
  · obtain ⟨word, hword, rfl⟩ := List.mem_map.mp hpart
    obtain ⟨d, hd, hc⟩ := List.mem_flatMap.mp hc
    exact isContinue_of_mem_upperChars (h d (mem_of_mem_words hword hd)) hc

/-! ## Plurals -/

theorem isWord_upperCase {text : String} (h : IsWord text) : IsWord (upperCase text) := by
  intro c hc
  unfold upperCase at hc
  rw [String.toList_ofList] at hc
  obtain ⟨d, hd, hc⟩ := List.mem_flatMap.mp hc
  exact isContinue_of_mem_upperChars (h d hd) hc

theorem isContinue_of_mem_lowerCaseAfter {before chars : List Char} {c : Char}
    (h : ∀ d ∈ chars, Name.isContinue d = true) (hc : c ∈ lowerCaseAfter before chars) :
    Name.isContinue c = true := by
  induction chars generalizing before with
  | nil => cases hc
  | cons first rest ih =>
    obtain ⟨hfirst, hrest⟩ := List.forall_mem_cons.mp h
    rw [lowerCaseAfter, if_neg (by simpa using ne_sigma_of_isContinue hfirst),
      List.mem_append] at hc
    rcases hc with hc | hc
    · exact isContinue_of_mem_lowerChars hfirst hc
    · exact ih hrest hc

theorem isWord_lowerCase {text : String} (h : IsWord text) : IsWord (lowerCase text) := by
  intro c hc
  unfold lowerCase at hc
  rw [String.toList_ofList] at hc
  exact isContinue_of_mem_lowerCaseAfter h hc

/-- The parts of a split hold only characters of the text and of the hump before. -/
theorem mem_of_mem_splitHump {hump chars : List Char} {c : Char}
    (hc : c ∈ (splitHump hump chars).1 ∨ c ∈ (splitHump hump chars).2) : c ∈ hump ∨ c ∈ chars := by
  induction chars generalizing hump with
  | nil =>
    rcases hc with hc | hc
    · cases hc
    · exact .inl hc
  | cons first rest ih =>
    cases rest with
    | nil =>
      rcases hc with hc | hc
      · cases hc
      · rcases List.mem_cons.mp hc with rfl | hhump
        · exact .inr List.mem_cons_self
        · exact .inl hhump
    | cons before more =>
      rw [splitHump] at hc
      split at hc
      · rcases hc with hc | hc
        · exact .inr (List.mem_cons_of_mem _ (List.mem_reverse.mp hc))
        · rcases List.mem_cons.mp hc with rfl | hhump
          · exact .inr List.mem_cons_self
          · exact .inl hhump
      · rcases ih hc with hhump | hrest
        · rcases List.mem_cons.mp hhump with rfl | hhump
          · exact .inr List.mem_cons_self
          · exact .inl hhump
        · exact .inr (List.mem_cons_of_mem _ hrest)

theorem isWord_lastHump {name : String} (h : IsWord name) :
    IsWord (lastHump name).1 ∧ IsWord (lastHump name).2 := by
  unfold lastHump
  refine ⟨fun c hc ↦ ?_, fun c hc ↦ ?_⟩ <;> rw [String.toList_ofList] at hc
  · rcases mem_of_mem_splitHump (.inl hc) with hnone | hname
    · cases hnone
    · exact h c (List.mem_reverse.mp hname)
  · rcases mem_of_mem_splitHump (.inr hc) with hnone | hname
    · cases hnone
    · exact h c (List.mem_reverse.mp hname)

theorem isWord_matchCase {word inflected : String} (h : IsWord inflected) :
    IsWord (matchCase word inflected) := by
  unfold matchCase
  split
  · exact isWord_upperCase h
  · split
    · rename_i first _ c rest _ hinflected
      split
      · intro d hd
        rw [String.toList_ofList, List.mem_append] at hd
        have hchars : ∀ d ∈ c :: rest, Name.isContinue d = true := hinflected ▸ h
        rcases hd with hd | hd
        · exact isContinue_of_mem_upperChars (hchars c List.mem_cons_self) hd
        · exact hchars d (List.mem_cons_of_mem _ hd)
      · exact h
    · exact h

/-- The texts that plurals of identifiers are made of, besides the words themselves. -/
def pluralParts : List String :=
  "s" :: (listedPlurals ++ wholeWordPlurals).map Prod.snd ++ pluralRules.map PluralRule.suffix

theorem mem_of_mem_inflect {rule : PluralRule} {word inflected : List Char} {c : Char}
    (h : rule.inflect? word = some inflected) (hc : c ∈ inflected) :
    c ∈ word ∨ c ∈ rule.suffix.toList := by
  obtain ⟨ending, -, hending⟩ := List.exists_of_findSome?_eq_some h
  dsimp only at hending
  split at hending
  · obtain ⟨n, -, rfl⟩ := Option.map_eq_some_iff.mp hending
    refine (List.mem_append.mp hc).imp_left fun hbase ↦ List.mem_reverse.mp ?_
    exact List.mem_of_mem_drop (List.mem_of_mem_take (List.mem_reverse.mp hbase))
  · cases hending

/-- The plural of a word holds only characters of the word and of the rules and lists. -/
theorem mem_of_mem_plural {word : String} {c : Char} (hc : c ∈ (plural word).toList) :
    c ∈ word.toList ∨ ∃ part ∈ pluralParts, c ∈ part.toList := by
  unfold plural at hc
  split at hc
  · exact .inl hc
  · split at hc
    · rename_i listed hlisted
      have hentry : (word, listed) ∈ listedPlurals := Entries.mem_of_get? hlisted
      refine .inr ⟨listed, List.mem_append_left _ (List.mem_cons_of_mem _ ?_), hc⟩
      exact List.mem_map_of_mem (List.mem_append_left _ hentry)
    · split at hc
      · rename_i inflected hinflected
        obtain ⟨rule, hrule, hinflect⟩ := List.exists_of_findSome?_eq_some hinflected
        rw [String.toList_ofList] at hc
        refine (mem_of_mem_inflect hinflect hc).imp_right fun hsuffix ↦ ?_
        exact ⟨rule.suffix, List.mem_append_right _ (List.mem_map_of_mem hrule), hsuffix⟩
      · rw [String.toList_append] at hc
        exact (List.mem_append.mp hc).imp_right fun hs ↦ ⟨"s", List.mem_cons_self, hs⟩

/-- What holds of all parts and of the plural by the rules holds of the plural of a whole word. -/
theorem getD_wholeWord {P : String → Prop} (hparts : ∀ part ∈ pluralParts, P part) {fallback : String}
    (h : P fallback) (word : String) : P ((wholeWordPlurals.lookup word).getD fallback) := by
  cases hlookup : wholeWordPlurals.lookup word with
  | none => exact h
  | some listed =>
    have hentry : (word, listed) ∈ wholeWordPlurals := Entries.mem_of_get? hlookup
    refine hparts listed (List.mem_append_left _ (List.mem_cons_of_mem _ ?_))
    exact List.mem_map_of_mem (List.mem_append_right _ hentry)

theorem isWord_of_mem_pluralParts : ∀ part ∈ pluralParts, IsWord part := by
  decide

theorem isWord_plural {word : String} (h : IsWord word) : IsWord (plural word) := by
  intro c hc
  rcases mem_of_mem_plural hc with hword | ⟨part, hpart, hmem⟩
  · exact h c hword
  · exact isWord_of_mem_pluralParts part hpart c hmem

theorem isWord_pluralize {name : String} (h : IsWord name) : IsWord (pluralize name) := by
  obtain ⟨hhead, hword⟩ := isWord_lastHump h
  have hinflected := getD_wholeWord isWord_of_mem_pluralParts (isWord_plural (isWord_lowerCase hword))
    (lowerCase (lastHump name).2)
  unfold pluralize pluralizeBy
  dsimp only
  split
  · exact h.append (by decide)
  · exact hhead.append (isWord_matchCase hinflected)

end Text
end ResourceApi

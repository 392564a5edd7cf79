import Mathlib.Tactic.IntervalCases
import ResourceApi.Literal.Reader
import ResourceApi.Proofs.Text.Reader
import ResourceApi.Proofs.TypeRef

/-!
# Reading printed tokens

A printed token is read back together with what is insignificant after it, provided that it is followed
by something that cannot belong to it.
-/

namespace ResourceApi.Literal.Grammar

open Text Text.Reader

variable {α : Type} {p : Reader α} {value : α} {text rest : List Char}

/-! ## What is insignificant -/

/-- The character starts a token. -/
def isSignificant (c : Char) : Bool := !isInsignificant c && c != '#'

/-- The text holds no token. -/
def isBlank (text : List Char) : Bool := text.all isInsignificant

theorem skipFrom_append_blank {blank : List Char} (h : isBlank blank = true) (rest : List Char) :
    skipFrom false (blank ++ rest) = skipFrom false rest := by
  induction blank with
  | nil => rfl
  | cons c blank ih =>
    obtain ⟨hc, hblank⟩ := Bool.and_eq_true_iff.mp (List.all_cons.symm.trans h)
    rw [List.cons_append]
    simp [skipFrom, hc, ih hblank]

theorem skipFrom_of_significant (h : ∀ c ∈ text.head?, isSignificant c = true) :
    skipFrom false text = text := by
  cases text with
  | nil => rfl
  | cons c rest =>
    have hc := h c rfl
    unfold isSignificant at hc
    rw [Bool.and_eq_true, Bool.not_eq_true', bne_iff_ne] at hc
    simp [skipFrom, hc.1, hc.2]

theorem length_skipFrom_le (inComment : Bool) (text : List Char) :
    (skipFrom inComment text).length ≤ text.length := by
  induction text generalizing inComment with
  | nil => exact le_rfl
  | cons c rest ih =>
    unfold skipFrom
    split
    · exact (ih _).trans (Nat.le_succ _)
    · split
      · exact (ih _).trans (Nat.le_succ _)
      · split
        · exact (ih _).trans (Nat.le_succ _)
        · exact le_rfl

/-- The text starts with a token. -/
def StartsToken (text : List Char) : Prop :=
  ∃ first more, text = first :: more ∧ isSignificant first = true

namespace StartsToken

theorem append (h : StartsToken text) (rest : List Char) : StartsToken (text ++ rest) := by
  obtain ⟨first, more, rfl, hfirst⟩ := h
  exact ⟨first, more ++ rest, rfl, hfirst⟩

theorem skipFrom_eq (h : StartsToken text) : skipFrom false text = text := by
  obtain ⟨first, more, rfl, hfirst⟩ := h
  refine skipFrom_of_significant fun c hc ↦ ?_
  cases hc
  exact hfirst

/-- Something of the text is left to be read. -/
theorem length_skipFrom_lt (h : StartsToken text) (rest : List Char) :
    (skipFrom false rest).length < (skipFrom false (text ++ rest)).length := by
  rw [(h.append rest).skipFrom_eq]
  obtain ⟨first, more, rfl, -⟩ := h
  have hle := length_skipFrom_le false rest
  rw [List.length_append, List.length_cons]
  omega

/-- A token is read wherever its text is what comes next, and something of the text is used up. -/
theorem reads {α : Type} {p : Reader α} {value : α} (h : StartsToken text)
    (read : p (text ++ rest) = some (value, skipFrom false rest)) :
    p (skipFrom false (text ++ rest)) = some (value, skipFrom false rest) ∧
      (skipFrom false rest).length < (skipFrom false (text ++ rest)).length := by
  refine ⟨?_, h.length_skipFrom_lt rest⟩
  rw [(h.append rest).skipFrom_eq]
  exact read

end StartsToken

/-! ## Tokens -/

theorem token_of_reads (h : p text = some (value, rest)) :
    token p text = some (value, skipFrom false rest) := by
  unfold token
  rw [seqLeft_of_reads h]
  rfl

theorem token_of_none (h : p text = none) : token p text = none := by
  change (p text).bind _ = none
  rw [h]
  rfl

theorem symbol_append (word : String) (rest : List Char) :
    symbol word (word.toList ++ rest) = some ((), skipFrom false rest) :=
  token_of_reads (exactly_append word rest)

theorem symbol_cons {word : String} {c : Char} (spelled : word.toList = [c]) (rest : List Char) :
    symbol word (c :: rest) = some ((), skipFrom false rest) := by
  have hread := symbol_append word rest
  rwa [spelled] at hread

theorem symbol_eq_none {word : String} {first : Char} {more : List Char}
    (spelled : word.toList = first :: more) (h : text.head? ≠ some first) :
    symbol word text = none :=
  token_of_none (exactly_eq_none spelled h)

/-- The character cannot belong to a token before it. -/
def isDelimiter (c : Char) : Bool :=
  !Name.isContinue c && !(['.', '+', '-', '!', '"'].contains c)

/-- The text does not go on with a token before it. -/
def Delimited (text : List Char) : Prop := ∀ c ∈ text.head?, isDelimiter c = true

theorem Delimited.cons {c : Char} (h : isDelimiter c = true) (rest : List Char) :
    Delimited (c :: rest) := by
  intro d hd
  cases hd
  exact h

theorem Delimited.ne (h : Delimited rest) {c : Char} (hc : isDelimiter c = false) :
    rest.head? ≠ some c := by
  intro heq
  rw [h c heq] at hc
  cases hc

theorem Delimited.not_continue (h : Delimited rest) :
    ∀ c ∈ rest.head?, Name.isContinue c = false := by
  intro c hc
  have hdelimiter := h c hc
  unfold isDelimiter at hdelimiter
  simp only [Bool.and_eq_true, Bool.not_eq_true'] at hdelimiter
  exact hdelimiter.1

theorem nameChars_append (valid : Name.isValid text = true)
    (stop : ∀ c ∈ rest.head?, Name.isContinue c = false) :
    nameChars (text ++ rest) = some (text, rest) := by
  cases text with
  | nil => cases valid
  | cons first more =>
    unfold Name.isValid at valid
    rw [Bool.and_eq_true, List.all_eq_true] at valid
    unfold nameChars
    rw [List.cons_append, bind_of_reads (satisfy_of_accepts valid.1 _),
      bind_of_reads (takeWhile_append valid.2 stop)]
    rfl

theorem name_append {name : String} (valid : Name.isValid name.toList = true)
    (delimited : Delimited rest) :
    Grammar.name (name.toList ++ rest) = some (name, skipFrom false rest) := by
  unfold Grammar.name
  rw [token_of_reads (map_of_reads (nameChars_append valid delimited.not_continue) _),
    String.ofList_toList]

theorem name_eq_none (h : ∀ c ∈ text.head?, Name.isStart c = false) : Grammar.name text = none := by
  refine token_of_none ?_
  change (nameChars text).bind _ = none
  unfold nameChars
  rw [bind_of_none (satisfy_eq_none h)]
  rfl

theorem name_cons_eq_none {c : Char} (h : Name.isStart c = false) (rest : List Char) :
    Grammar.name (c :: rest) = none := by
  apply name_eq_none
  intro first hfirst
  cases hfirst
  exact h

/-! ## Type references -/

theorem present_mark (nullable : Bool) (delimited : Delimited rest) :
    present (char '!') (TypeRef.mark nullable ++ rest) = some (!nullable, rest) := by
  unfold present
  cases nullable with
  | false =>
    change (maybe (char '!') >>= _) ('!' :: rest) = _
    rw [bind_of_reads (maybe_of_reads (char_cons '!' rest))]
    rfl
  | true =>
    change (maybe (char '!') >>= _) rest = _
    rw [bind_of_reads (maybe_of_none (char_eq_none (delimited.ne (by decide))))]
    rfl

theorem not_continue_mark (nullable : Bool) (delimited : Delimited rest) :
    ∀ c ∈ (TypeRef.mark nullable ++ rest).head?, Name.isContinue c = false := by
  cases nullable with
  | false =>
    intro c hc
    cases hc
    decide
  | true => exact delimited.not_continue

theorem typeRefWith_append {ref : TypeRef} (valid : Name.isValid ref.name.toList = true)
    (delimited : Delimited rest) {fuel : Nat} (enough : ref.depth < fuel) :
    typeRefWith fuel (ref.renderChars ++ rest) = some (ref, rest) := by
  obtain ⟨fuel, rfl⟩ := Nat.exists_eq_succ_of_ne_zero (Nat.ne_zero_of_lt enough)
  induction ref generalizing fuel rest with
  | named name nullable =>
    replace valid : Name.isValid name.toList = true := valid
    have hbracket : char '[' (name.toList ++ (TypeRef.mark nullable ++ rest)) = none := by
      refine char_eq_none fun hfirst ↦ ?_
      cases hname : name.toList with
      | nil =>
        rw [hname] at valid
        cases valid
      | cons first more =>
        rw [hname] at valid hfirst
        cases hfirst
        cases valid
    unfold typeRefWith TypeRef.renderChars
    rw [List.append_assoc, orElse_of_none (bind_of_none hbracket _),
      bind_of_reads (nameChars_append valid (not_continue_mark nullable delimited)),
      bind_of_reads (present_mark nullable delimited), Bool.not_not, String.ofList_toList]
    rfl
  | list item nullable ih =>
    have hdeeper : item.depth < fuel := Nat.lt_of_succ_lt_succ enough
    obtain ⟨fuel, rfl⟩ := Nat.exists_eq_succ_of_ne_zero (Nat.ne_zero_of_lt hdeeper)
    have hclosed : Delimited (']' :: (TypeRef.mark nullable ++ rest)) := .cons (by decide) _
    have hitem := ih valid hclosed fuel hdeeper
    have hrender : (TypeRef.list item nullable).renderChars ++ rest =
        '[' :: (item.renderChars ++ (']' :: (TypeRef.mark nullable ++ rest))) := by
      simp [TypeRef.renderChars]
    rw [hrender]
    unfold typeRefWith
    refine orElse_of_reads ?_ _
    rw [bind_of_reads (char_cons _ _), bind_of_reads hitem, bind_of_reads (char_cons _ _),
      bind_of_reads (present_mark nullable delimited), Bool.not_not]
    rfl

theorem typeRef_append {ref : TypeRef} (valid : Name.isValid ref.name.toList = true)
    (delimited : Delimited rest) :
    typeRef (ref.render.toList ++ rest) = some (ref, skipFrom false rest) := by
  have henough : ref.depth < (ref.render.toList ++ rest).length + 1 := by
    rw [List.length_append, TypeRef.render, String.toList_ofList]
    have hdepth := ref.depth_le_length
    omega
  unfold typeRef
  rw [TypeRef.render, String.toList_ofList] at henough ⊢
  exact token_of_reads (typeRefWith_append valid delimited henough)

/-! ## Strings -/

/-- The character is written so that it is read back: control characters are written in decimal and read
in hexadecimal digits, which are the same below ten, and line ends have escapes of their own. -/
def isLegible (c : Char) : Bool :=
  c.toNat < 11 || c == '\r' || (0x20 ≤ c.toNat && !(0x7f ≤ c.toNat && c.toNat < 0xa0))

theorem quotedBody_escape {c : Char} (legible : isLegible c = true) (rest : List Char) :
    quotedBody (escape c ++ rest) =
      (quotedBody rest).bind fun read ↦ some (c :: read.1, read.2) := by
  unfold escape
  split_ifs with hreturn hline htab hquote hslash hcontrol
  · cases beq_iff_eq.mp hreturn
    rfl
  · cases beq_iff_eq.mp hline
    rfl
  · cases beq_iff_eq.mp htab
    rfl
  · cases beq_iff_eq.mp hquote
    rfl
  · cases beq_iff_eq.mp hslash
    rfl
  · have hother : ∀ d : Char, ¬(c == d) = true → c.toNat ≠ d.toNat :=
      fun d hne heq ↦ hne (beq_iff_eq.mpr (Char.toNat_inj.mp heq))
    have hline' : c.toNat ≠ 10 := hother '\n' hline
    have htab' : c.toNat ≠ 9 := hother '\t' htab
    have hbelow : c.toNat < 9 := by
      simp only [isLegible, hreturn, Bool.or_false, Bool.or_eq_true, Bool.and_eq_true,
        Bool.not_eq_true', decide_eq_true_eq, Bool.and_eq_false_iff, decide_eq_false_iff_not]
        at legible hcontrol
      omega
    obtain ⟨code, hcode, hless⟩ : ∃ code, c = Char.ofNat code ∧ code < 9 := ⟨c.toNat, by simp, hbelow⟩
    subst hcode
    interval_cases code <;> rfl
  · have hend : isLineEnd c = false := by
      unfold isLineEnd
      rw [Bool.or_eq_false_iff]
      exact ⟨Bool.eq_false_iff.mpr hline, Bool.eq_false_iff.mpr hreturn⟩
    rw [List.singleton_append, quotedBody]
    · rw [if_neg (by simp [hend])]
      rfl
    · exact fun heq ↦ hquote (beq_iff_eq.mpr heq)
    · exact fun _ _ _ _ _ heq _ ↦ hslash (beq_iff_eq.mpr heq)
    · exact fun _ _ heq _ ↦ hslash (beq_iff_eq.mpr heq)

theorem quotedBody_append (legible : ∀ c ∈ text, isLegible c = true) (rest : List Char) :
    quotedBody (text.flatMap escape ++ '"' :: rest) = some (text, rest) := by
  induction text with
  | nil => rfl
  | cons c more ih =>
    obtain ⟨hc, hmore⟩ := List.forall_mem_cons.mp legible
    rw [List.flatMap_cons, List.append_assoc, quotedBody_escape hc, ih hmore]
    rfl

theorem exists_escape (c : Char) : ∃ first more, escape c = first :: more ∧ first ≠ '"' := by
  unfold escape
  split_ifs with hreturn hline htab hquote
  · exact ⟨_, _, rfl, by decide⟩
  · exact ⟨_, _, rfl, by decide⟩
  · exact ⟨_, _, rfl, by decide⟩
  · exact ⟨_, _, rfl, by decide⟩
  · exact ⟨_, _, rfl, by decide⟩
  · exact ⟨_, _, rfl, by decide⟩
  · exact ⟨_, _, rfl, fun heq ↦ hquote (beq_iff_eq.mpr heq)⟩

/-- A quoted text is no block string. -/
theorem exactly_block_eq_none (text : List Char) (delimited : Delimited rest) :
    exactly "\"\"\"" ('"' :: (text.flatMap escape ++ '"' :: rest)) = none := by
  have hword : "\"\"\"".toList = ['"', '"', '"'] := by decide
  unfold exactly
  rw [hword]
  cases text with
  | nil =>
    cases rest with
    | nil => rfl
    | cons c more =>
      have hne : '"' ≠ c := fun heq ↦ delimited.ne (by decide) (congrArg some heq.symm)
      simp [dropWord, hne]
  | cons c text =>
    obtain ⟨first, more, hescape, hne⟩ := exists_escape c
    simp [dropWord, hescape, hne.symm]

/-- A printed string is read back. -/
theorem string_append {text : String} (legible : ∀ c ∈ text.toList, isLegible c = true)
    (delimited : Delimited rest) :
    string ((quote text).toList ++ rest) = some (text, skipFrom false rest) := by
  have hquoted : (quote text).toList ++ rest =
      '"' :: (text.toList.flatMap escape ++ '"' :: rest) := by
    simp [quote]
  have hchars : ∀ block : Reader (List Char),
      block ('"' :: (text.toList.flatMap escape ++ '"' :: rest)) = none →
        (block <|> (char '"' *> (quotedBody : Reader (List Char))))
          ('"' :: (text.toList.flatMap escape ++ '"' :: rest)) = some (text.toList, rest) := by
    intro block hblock
    rw [orElse_of_none hblock, seqRight_of_reads (char_cons _ _)]
    exact quotedBody_append legible rest
  rw [hquoted]
  refine token_of_reads ?_
  rw [bind_of_reads (hchars _ (bind_of_none (exactly_block_eq_none _ delimited) _)),
    String.ofList_toList]
  rfl

theorem string_eq_none (h : text.head? ≠ some '"') : string text = none := by
  have hword : "\"\"\"".toList = '"' :: ['"', '"'] := by decide
  refine token_of_none (bind_of_none ?_ _)
  rw [orElse_of_none (bind_of_none (exactly_eq_none hword h) _),
    seqRight_of_none (char_eq_none h)]

/-! ## Items with separators -/

variable {β : Type} {sep : String} {printed : β → String} {read : β → α} {items : List β}
  {ends : List Char → Prop}

theorem exists_intercalate_cons (sep : String) (printed : β → String) (item : β) (more : List β)
    (rest : List Char) : ∃ after, (sep.intercalate ((item :: more).map printed)).toList ++ rest =
      (printed item).toList ++ after := by
  cases more with
  | nil => exact ⟨rest, by simp⟩
  | cons next others =>
    exact ⟨sep.toList ++ ((sep.intercalate ((next :: others).map printed)).toList ++ rest), by simp⟩

/-- A row of printed items is read back, if what separates them is insignificant and each item ends
where the next one or the text behind the row begins. -/
theorem row_intercalate (blank : isBlank sep.toList = true)
    (reads : ∀ item ∈ items, ∀ after, ends after →
      p (skipFrom false ((printed item).toList ++ after)) = some (read item, skipFrom false after) ∧
        (skipFrom false after).length < (skipFrom false ((printed item).toList ++ after)).length)
    (follows : ∀ item ∈ items, ∀ after, ends (sep.toList ++ ((printed item).toList ++ after)))
    (last : ends rest) (stop : p (skipFrom false rest) = none) :
    Row p (skipFrom false ((sep.intercalate (items.map printed)).toList ++ rest)) (items.map read)
      (skipFrom false rest) := by
  induction items with
  | nil => simpa using Row.done stop
  | cons item more ih =>
    have hmore := ih (fun other hother ↦ reads other (List.mem_cons_of_mem _ hother))
      fun other hother ↦ follows other (List.mem_cons_of_mem _ hother)
    obtain ⟨after, htext, hends, hskip⟩ : ∃ after,
        (sep.intercalate ((item :: more).map printed)).toList ++ rest =
          (printed item).toList ++ after ∧ ends after ∧
        skipFrom false after =
          skipFrom false ((sep.intercalate (more.map printed)).toList ++ rest) := by
      cases more with
      | nil => exact ⟨rest, by simp, last, by simp⟩
      | cons next others =>
        refine ⟨sep.toList ++ ((sep.intercalate ((next :: others).map printed)).toList ++ rest),
          by simp, ?_, skipFrom_append_blank blank _⟩
        obtain ⟨after, hafter⟩ := exists_intercalate_cons sep printed next others rest
        rw [hafter]
        exact follows next (List.mem_cons_of_mem _ List.mem_cons_self) after
    obtain ⟨hreads, hconsumes⟩ := reads item List.mem_cons_self after hends
    rw [htext]
    rw [← hskip] at hmore
    exact .item hreads hconsumes hmore

end ResourceApi.Literal.Grammar

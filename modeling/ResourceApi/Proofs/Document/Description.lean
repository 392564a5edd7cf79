import ResourceApi.Document.Printer
import ResourceApi.Proofs.Literal.Token

/-!
# Descriptions as block strings

A description is printed between triple quotes, with a backslash before every triple quote of its own; the
lexer looks for the first triple quote without one.  A backslash or some quotes at the end of the text run
into the closing quotes, so a text closes if it ends in no backslash, and in quotes by threes.  The value of
a block string is that of its lines without their common indent and without blank lines around them; it is
the same for an escaped text, up to the backslashes.
-/

namespace ResourceApi.TypeDocument

open Text Text.Reader Literal.Grammar

variable {text more rest : List Char} {c : Char}

/-! ## Escaped texts -/

/-- Takes the backslash off every escaped triple quote. -/
def unescapeTripleQuotes : List Char → List Char
  | '\\' :: '"' :: '"' :: '"' :: rest => '"' :: '"' :: '"' :: unescapeTripleQuotes rest
  | c :: rest => c :: unescapeTripleQuotes rest
  | [] => []

theorem escapeTripleQuotes_cons (h : ∀ more, c = '"' → text ≠ '"' :: '"' :: more) :
    escapeTripleQuotes (c :: text) = c :: escapeTripleQuotes text :=
  escapeTripleQuotes.eq_2 c text h

/-- A quote at the start of an escaped text is one of the text, and not the first of three. -/
theorem eq_of_escapeTripleQuotes_append (h : escapeTripleQuotes text ++ rest = '"' :: more) :
    (text = [] ∧ rest = '"' :: more) ∨
      ∃ others, text = '"' :: others ∧ escapeTripleQuotes others ++ rest = more ∧
        ∀ last, others ≠ '"' :: '"' :: last := by
  fun_cases escapeTripleQuotes text with
  | case1 others =>
    rw [escapeTripleQuotes] at h
    cases h
  | case2 c others hplain =>
    rw [escapeTripleQuotes_cons hplain] at h
    obtain ⟨rfl, hmore⟩ := List.cons.inj h
    exact .inr ⟨others, rfl, hmore, fun last ↦ hplain last rfl⟩
  | case3 => exact .inl ⟨rfl, h⟩

/-- No escaped text starts with a triple quote. -/
theorem escapeTripleQuotes_ne (text more : List Char) :
    escapeTripleQuotes text ≠ '"' :: '"' :: '"' :: more := by
  intro h
  rw [← List.append_nil (escapeTripleQuotes text)] at h
  obtain ⟨-, hnil⟩ | ⟨second, -, hsecond, hplain⟩ := eq_of_escapeTripleQuotes_append h
  · cases hnil
  · obtain ⟨-, hnil⟩ | ⟨third, rfl, hthird, -⟩ := eq_of_escapeTripleQuotes_append hsecond
    · cases hnil
    · obtain ⟨-, hnil⟩ | ⟨others, rfl, -⟩ := eq_of_escapeTripleQuotes_append hthird
      · cases hnil
      · exact hplain others rfl

theorem unescapeTripleQuotes_cons (h : ∀ more, text ≠ '"' :: '"' :: '"' :: more) :
    unescapeTripleQuotes (c :: text) = c :: unescapeTripleQuotes text :=
  unescapeTripleQuotes.eq_2 c text fun more _ ↦ h more

theorem unescapeTripleQuotes_escapeTripleQuotes (text : List Char) :
    unescapeTripleQuotes (escapeTripleQuotes text) = text := by
  fun_induction escapeTripleQuotes text with
  | case1 rest ih => rw [unescapeTripleQuotes, ih]
  | case2 c rest _ ih => rw [unescapeTripleQuotes_cons (escapeTripleQuotes_ne rest), ih]
  | case3 => rfl

/-! ## Where a block string closes -/

/-- The number of quotes that the text ends in. -/
def trailingQuotes (text : List Char) : Nat := (text.reverse.takeWhile (· == '"')).length

/-- The quotes behind the text are not taken for a part of it: the text ends in no backslash, and all the
quotes it ends in are escaped, three at a time. -/
structure Closes (text : List Char) : Prop where
  slash : text.getLast? ≠ some '\\'
  quotes : trailingQuotes text % 3 = 0

instance (text : List Char) : Decidable (Closes text) :=
  decidable_of_iff (text.getLast? ≠ some '\\' ∧ trailingQuotes text % 3 = 0)
    ⟨fun h ↦ ⟨h.1, h.2⟩, fun h ↦ ⟨h.slash, h.quotes⟩⟩

theorem trailingQuotes_replicate (n : Nat) : trailingQuotes (List.replicate n '"') = n := by
  simp [trailingQuotes]

theorem trailingQuotes_cons (h : ∀ n, c = '"' → text ≠ List.replicate n '"') :
    trailingQuotes (c :: text) = trailingQuotes text := by
  unfold trailingQuotes
  rw [List.reverse_cons, List.takeWhile_append]
  split_ifs with hall
  · have hquotes : text.reverse.takeWhile (· == '"') = text.reverse :=
      (List.takeWhile_prefix _).eq_of_length hall
    have htext : text = List.replicate text.length '"' := by
      refine List.eq_replicate_iff.mpr ⟨rfl, fun d hd ↦ ?_⟩
      rw [List.takeWhile_eq_self_iff] at hquotes
      exact beq_iff_eq.mp (hquotes d (List.mem_reverse.mpr hd))
    have hc : (c == '"') = false := beq_eq_false_iff_ne.mpr fun heq ↦ h _ heq htext
    simp [hquotes, hc]
  · rfl

theorem closes_triple (text : List Char) : Closes ('"' :: '"' :: '"' :: text) ↔ Closes text := by
  have hquotes : trailingQuotes ('"' :: '"' :: '"' :: text) % 3 = trailingQuotes text % 3 := by
    by_cases hall : ∃ n, text = List.replicate n '"'
    · obtain ⟨n, rfl⟩ := hall
      have hthree := trailingQuotes_replicate (n + 3)
      simp only [List.replicate_succ] at hthree
      rw [hthree, trailingQuotes_replicate, Nat.add_mod_right]
    · push Not at hall
      have hlonger : ∀ others : List Char, (∀ n, others ≠ List.replicate n '"') →
          ∀ n, '"' :: others ≠ List.replicate n '"' := by
        intro others hothers n heq
        cases n with
        | zero => cases heq
        | succ n => exact hothers n (List.cons.inj heq).2
      rw [trailingQuotes_cons fun n _ ↦ hlonger _ (hlonger _ hall) n,
        trailingQuotes_cons fun n _ ↦ hlonger _ hall n, trailingQuotes_cons fun n _ ↦ hall n]
  have hslash : ('"' :: '"' :: '"' :: text).getLast? = some '\\' ↔ text.getLast? = some '\\' := by
    cases text with
    | nil => decide
    | cons d others => simp
  exact ⟨fun h ↦ ⟨mt hslash.mpr h.slash, hquotes ▸ h.quotes⟩,
    fun h ↦ ⟨mt hslash.mp h.slash, hquotes.trans h.quotes⟩⟩

theorem closes_singleton (c : Char) : Closes [c] ↔ c ≠ '\\' ∧ c ≠ '"' := by
  constructor
  · intro h
    refine ⟨fun hc ↦ h.slash (by rw [hc]; rfl), ?_⟩
    rintro rfl
    exact absurd h (by decide)
  · rintro ⟨hslash, hquote⟩
    refine ⟨by simp [hslash], ?_⟩
    rw [trailingQuotes_cons fun _ hc ↦ absurd hc hquote]
    rfl

theorem closes_cons (h : ∀ more, c = '"' → text ≠ '"' :: '"' :: more) :
    Closes (c :: text) ↔ (text = [] → c ≠ '\\' ∧ c ≠ '"') ∧ Closes text := by
  cases text with
  | nil =>
    rw [closes_singleton]
    exact ⟨fun hc ↦ ⟨fun _ ↦ hc, by decide⟩, fun hc ↦ hc.1 rfl⟩
  | cons d others =>
    rw [and_iff_right fun hnil ↦ nomatch hnil]
    by_cases htwo : c = '"' ∧ d :: others = ['"']
    · obtain ⟨rfl, htext⟩ := htwo
      rw [htext]
      decide
    · have hquotes : trailingQuotes (c :: d :: others) = trailingQuotes (d :: others) := by
        refine trailingQuotes_cons fun n hc htext ↦ ?_
        match n with
        | 0 => cases htext
        | 1 => exact htwo ⟨hc, htext⟩
        | n + 2 => exact h _ hc htext
      have hslash : (c :: d :: others).getLast? = (d :: others).getLast? := List.getLast?_cons_cons
      exact ⟨fun h ↦ ⟨hslash ▸ h.slash, hquotes ▸ h.quotes⟩,
        fun h ↦ ⟨hslash ▸ h.slash, hquotes ▸ h.quotes⟩⟩

/-! ### The reader -/

theorem blockBody_cons (hslash : ∀ more, c = '\\' → text ≠ '"' :: '"' :: '"' :: more)
    (hquote : ∀ more, c = '"' → text ≠ '"' :: '"' :: more) :
    blockBody (c :: text) = (blockBody text).map fun read ↦ (c :: read.1, read.2) := by
  rw [blockBody.eq_4 c text hslash hquote]
  cases blockBody text <;> rfl

theorem blockBody_triple (text : List Char) : blockBody ('\\' :: '"' :: '"' :: '"' :: text) =
    (blockBody text).map fun read ↦ ('\\' :: '"' :: '"' :: '"' :: read.1, read.2) := by
  rw [blockBody]
  cases blockBody text <;> rfl

theorem map_append_eq_iff (word : List Char) {raw : List Char} {body : Option (List Char × List Char)} :
    (body.map fun read ↦ (word ++ read.1, read.2)) = some (word ++ raw, rest) ↔
      body = some (raw, rest) := by
  cases body with
  | none => simp
  | some read => simp [Prod.ext_iff]

/-- An escaped text with the quotes that are to close it. -/
def quoted (text rest : List Char) : List Char :=
  escapeTripleQuotes text ++ '"' :: '"' :: '"' :: rest

theorem escapeTripleQuotes_eq_nil (h : escapeTripleQuotes text = []) : text = [] := by
  fun_cases escapeTripleQuotes text with
  | case1 others =>
    rw [escapeTripleQuotes] at h
    cases h
  | case2 c others hplain =>
    rw [escapeTripleQuotes_cons hplain] at h
    cases h
  | case3 => rfl

/-- Neither way of reading a quote within a text, as one of three that are escaped or as the first of the
closing ones, applies in front of an escaped text, unless that text ends there. -/
theorem blockBody_cons_quoted (h : ∀ more, c = '"' → text ≠ '"' :: '"' :: more) :
    blockBody (c :: quoted text rest) = some (c :: escapeTripleQuotes text, rest) ↔
      (text = [] → c ≠ '\\' ∧ c ≠ '"') ∧
        blockBody (quoted text rest) = some (escapeTripleQuotes text, rest) := by
  by_cases hslash : ∃ more, c = '\\' ∧ quoted text rest = '"' :: '"' :: '"' :: more
  · obtain ⟨more, rfl, hmore⟩ := hslash
    rw [hmore]
    refine iff_of_false (fun hread ↦ ?_) (fun ⟨hend, hread⟩ ↦ ?_)
    · rw [blockBody_triple] at hread
      obtain ⟨read, -, heq⟩ := Option.map_eq_some_iff.mp hread
      exact escapeTripleQuotes_ne text _ (List.cons.inj (Prod.mk.inj heq).1).2.symm
    · rw [blockBody] at hread
      have hnil := (Prod.mk.inj (Option.some.inj hread)).1
      exact (hend (escapeTripleQuotes_eq_nil hnil.symm)).1 rfl
  · by_cases hquote : ∃ more, c = '"' ∧ quoted text rest = '"' :: '"' :: more
    · obtain ⟨more, rfl, hmore⟩ := hquote
      refine iff_of_false (fun hread ↦ ?_) (fun ⟨hend, hread⟩ ↦ ?_)
      · rw [hmore, blockBody] at hread
        cases hread
      · obtain ⟨hnil, -⟩ | ⟨second, rfl, hsecond, -⟩ := eq_of_escapeTripleQuotes_append hmore
        · exact (hend hnil).2 rfl
        · obtain ⟨rfl, -⟩ | ⟨others, rfl, -⟩ := eq_of_escapeTripleQuotes_append hsecond
          · cases hread
          · exact h others rfl rfl
    · push Not at hslash hquote
      have hend : text = [] → c ≠ '\\' ∧ c ≠ '"' := by
        rintro rfl
        exact ⟨fun hc ↦ hslash rest hc rfl, fun hc ↦ hquote ('"' :: rest) hc rfl⟩
      rw [and_iff_right hend, blockBody_cons hslash hquote]
      exact map_append_eq_iff [c]

/-- The lexer closes the block string of a description at its last quotes. -/
theorem blockBody_quoted_iff (text rest : List Char) :
    blockBody (quoted text rest) = some (escapeTripleQuotes text, rest) ↔ Closes text := by
  fun_induction escapeTripleQuotes text with
  | case1 others ih =>
    have hcons : quoted ('"' :: '"' :: '"' :: others) rest =
        '\\' :: '"' :: '"' :: '"' :: quoted others rest := rfl
    rw [closes_triple, ← ih, hcons, blockBody_triple]
    exact map_append_eq_iff ['\\', '"', '"', '"']
  | case2 c others hplain ih =>
    have hcons : quoted (c :: others) rest = c :: quoted others rest := by
      rw [quoted, escapeTripleQuotes_cons hplain]
      rfl
    rw [closes_cons hplain, ← ih, hcons, blockBody_cons_quoted hplain]
  | case3 => exact iff_of_true (by rw [quoted, escapeTripleQuotes]; rfl) (by decide)

/-! ## The value of a block string -/

theorem linesFrom_append (line before text : List Char) :
    linesFrom (line ++ before) text = (linesFrom line text).modifyHead (before.reverse ++ ·) := by
  fun_induction linesFrom line text with
  | case1 line => simp [linesFrom]
  | case2 line rest _ => simp [linesFrom]
  | case3 line c rest hplain hend _ => simp [linesFrom, hend]
  | case4 line c rest hplain hend ih =>
    have hcons : linesFrom (line ++ before) (c :: rest) = linesFrom (c :: line ++ before) rest := by
      simp [linesFrom, hend]
    rw [hcons, ih]

theorem linesFrom_cons (h : isLineEnd c = false) :
    linesFrom [] (c :: text) = (linesFrom [] text).modifyHead (c :: ·) := by
  have hline : linesFrom [] (c :: text) = linesFrom ([] ++ [c]) text := by
    have hreturn : c ≠ '\r' := by
      rintro rfl
      cases h
    rw [linesFrom.eq_3 _ _ _ fun _ hc ↦ absurd hc hreturn, if_neg (Bool.eq_false_iff.mp h)]
    rfl
  rw [hline, linesFrom_append]
  rfl

theorem linesFrom_cons_of_end (h : isLineEnd c = true) : linesFrom [] (c :: text) =
    if c = '\r' ∧ text.head? = some '\n' then linesFrom [] text else [] :: linesFrom [] text := by
  split_ifs with hboth
  · obtain ⟨rfl, hline⟩ := hboth
    obtain ⟨rest, rfl⟩ := List.head?_eq_some_iff.mp hline
    rfl
  · rw [linesFrom.eq_3 _ _ _ fun rest hc htext ↦ hboth ⟨hc, by rw [htext]; rfl⟩, if_pos h]
    rfl

/-- The first line goes up to the first line end. -/
theorem head?_linesFrom (text : List Char) :
    (linesFrom [] text).head? = some (text.takeWhile (!isLineEnd ·)) := by
  induction text with
  | nil => rfl
  | cons c rest ih =>
    cases hend : isLineEnd c with
    | false => simp [linesFrom_cons hend, hend, ih]
    | true =>
      rw [linesFrom_cons_of_end hend]
      split_ifs with hboth
      · rw [ih]
        obtain ⟨more, rfl⟩ := List.head?_eq_some_iff.mp hboth.2
        have hnext : isLineEnd '\n' = true := by decide
        simp [hend, hnext]
      · simp [hend]

theorem escapeTripleQuotes_modifyHead (plain : ∀ more, c = '"' → text ≠ '"' :: '"' :: more) :
    ((linesFrom [] text).modifyHead (c :: ·)).map escapeTripleQuotes =
      ((linesFrom [] text).map escapeTripleQuotes).modifyHead (c :: ·) := by
  obtain ⟨more, hlines⟩ := List.head?_eq_some_iff.mp (head?_linesFrom text)
  have hfirst : ∀ last, c = '"' → text.takeWhile (!isLineEnd ·) ≠ '"' :: '"' :: last := by
    intro last hc hstart
    obtain ⟨after, hafter⟩ : text.takeWhile (!isLineEnd ·) <+: text := List.takeWhile_prefix _
    rw [hstart] at hafter
    exact plain _ hc hafter.symm
  simp [hlines, escapeTripleQuotes_cons hfirst]

/-- The lines of an escaped text are the escaped lines of the text. -/
theorem linesFrom_escapeTripleQuotes (text : List Char) :
    linesFrom [] (escapeTripleQuotes text) = (linesFrom [] text).map escapeTripleQuotes := by
  fun_induction escapeTripleQuotes text with
  | case1 rest ih =>
    have hquote : isLineEnd '"' = false := by decide
    have hslash : isLineEnd '\\' = false := by decide
    rw [linesFrom_cons hslash]
    simp only [linesFrom_cons hquote, ih]
    cases linesFrom [] rest <;> rfl
  | case2 c rest hplain ih =>
    cases hend : isLineEnd c with
    | false => rw [linesFrom_cons hend, linesFrom_cons hend, ih, escapeTripleQuotes_modifyHead hplain]
    | true =>
      have hhead : (escapeTripleQuotes rest).head? = some '\n' ↔ rest.head? = some '\n' := by
        fun_cases escapeTripleQuotes rest with
        | case1 => simp
        | case2 => simp
        | case3 => simp
      rw [linesFrom_cons_of_end hend, linesFrom_cons_of_end hend, ih, apply_ite (List.map _)]
      simp only [hhead]
      rfl
  | case3 => rfl

/-! ### Indentation -/

theorem takeWhile_isIndent_escapeTripleQuotes (line : List Char) :
    (escapeTripleQuotes line).takeWhile isIndent = line.takeWhile isIndent := by
  fun_induction escapeTripleQuotes line with
  | case1 rest _ => rfl
  | case2 c rest _ ih => rw [List.takeWhile_cons, List.takeWhile_cons, ih]
  | case3 => rfl

theorem all_isIndent_escapeTripleQuotes (line : List Char) :
    (escapeTripleQuotes line).all isIndent = line.all isIndent := by
  fun_induction escapeTripleQuotes line with
  | case1 rest _ => rfl
  | case2 c rest _ ih => rw [List.all_cons, List.all_cons, ih]
  | case3 => rfl

theorem indentOf?_escapeTripleQuotes (line : List Char) :
    indentOf? (escapeTripleQuotes line) = indentOf? line := by
  unfold indentOf?
  rw [all_isIndent_escapeTripleQuotes, takeWhile_isIndent_escapeTripleQuotes]

/-- There is nothing to escape in blanks. -/
theorem escapeTripleQuotes_append {blank : List Char} (h : ∀ c ∈ blank, c ≠ '"') (text : List Char) :
    escapeTripleQuotes (blank ++ text) = blank ++ escapeTripleQuotes text := by
  induction blank with
  | nil => rfl
  | cons c blank ih =>
    obtain ⟨hc, hblank⟩ := List.forall_mem_cons.mp h
    rw [List.cons_append, escapeTripleQuotes_cons fun _ heq ↦ absurd heq hc, ih hblank]
    rfl

theorem escapeTripleQuotes_eq_self (h : ∀ c ∈ text, c ≠ '"') : escapeTripleQuotes text = text := by
  have happend := escapeTripleQuotes_append h []
  rw [List.append_nil, escapeTripleQuotes, List.append_nil] at happend
  exact happend

theorem ne_quote_of_isIndent (h : isIndent c = true) : c ≠ '"' := by
  rintro rfl
  cases h

/-- The line without the common indent, if it is long enough to have one. -/
def unindent (indent : Nat) (line : List Char) : List Char :=
  if line.length ≥ indent then line.drop indent else line

theorem unindent_escapeTripleQuotes {indent : Nat} {line : List Char}
    (h : ∀ width ∈ indentOf? line, indent ≤ width) :
    unindent indent (escapeTripleQuotes line) = escapeTripleQuotes (unindent indent line) := by
  by_cases hblank : line.all isIndent = true
  · have hplain : ∀ c ∈ line, c ≠ '"' := fun c hc ↦ ne_quote_of_isIndent (List.all_eq_true.mp hblank c hc)
    have hpart : ∀ c ∈ unindent indent line, c ∈ line := by
      intro c hc
      unfold unindent at hc
      split at hc
      · exact List.mem_of_mem_drop hc
      · exact hc
    rw [escapeTripleQuotes_eq_self hplain, escapeTripleQuotes_eq_self fun c hc ↦ hplain c (hpart c hc)]
  · have hindent : indent ≤ (line.takeWhile isIndent).length := h _ (by simp [indentOf?, hblank])
    obtain ⟨content, hline⟩ : ∃ content, line = line.takeWhile isIndent ++ content :=
      ⟨_, (List.takeWhile_append_dropWhile).symm⟩
    have hblanks : ∀ c ∈ line.takeWhile isIndent, c ≠ '"' := fun c hc ↦
      ne_quote_of_isIndent (List.mem_takeWhile_imp hc)
    generalize line.takeWhile isIndent = blank at *
    subst hline
    have hrest : ∀ text : List Char, unindent indent (blank ++ text) = blank.drop indent ++ text := by
      intro text
      unfold unindent
      rw [if_pos (by rw [List.length_append]; omega), List.drop_append_of_le_length hindent]
    rw [escapeTripleQuotes_append hblanks, hrest, hrest,
      escapeTripleQuotes_append fun c hc ↦ hblanks c (List.mem_of_mem_drop hc)]

/-! ### The value of an escaped text -/

theorem escapeTripleQuotes_append_line (line rest : List Char) :
    escapeTripleQuotes (line ++ '\n' :: rest) =
      escapeTripleQuotes line ++ '\n' :: escapeTripleQuotes rest := by
  fun_induction escapeTripleQuotes line with
  | case1 others ih =>
    simp only [List.cons_append]
    rw [escapeTripleQuotes, ih]
  | case2 c others hplain ih =>
    have happend : ∀ more, c = '"' → others ++ '\n' :: rest ≠ '"' :: '"' :: more := by
      intro more hc heq
      match others with
      | [] => cases heq
      | [d] => cases heq
      | d :: e :: last =>
        simp only [List.cons_append, List.cons.injEq] at heq
        obtain ⟨rfl, rfl, -⟩ := heq
        exact hplain last hc rfl
    rw [List.cons_append, escapeTripleQuotes_cons happend, ih]
    rfl
  | case3 => rfl

theorem escapeTripleQuotes_intercalate (lines : List (List Char)) :
    ['\n'].intercalate (lines.map escapeTripleQuotes) =
      escapeTripleQuotes (['\n'].intercalate lines) := by
  induction lines with
  | nil => rfl
  | cons line more ih =>
    cases more with
    | nil => simp
    | cons next others =>
      have hcons : ∀ (first second : List Char) rest, ['\n'].intercalate (first :: second :: rest) =
          first ++ '\n' :: ['\n'].intercalate (second :: rest) := by
        intro first second rest
        simp [List.intercalate_cons_cons]
      rw [List.map_cons] at ih
      rw [List.map_cons, List.map_cons, hcons, hcons, ih, escapeTripleQuotes_append_line]

/-- The lines with what they are without the common indent, which the first one keeps. -/
def unindented (lines : List (List Char)) : List (List Char × List Char) :=
  let indent := ((lines.drop 1).filterMap indentOf?).min?.getD 0
  lines.zipIdx.map fun (line, i) ↦
    (line, if i != 0 && line.length ≥ indent then line.drop indent else line)

theorem unindented_escapeTripleQuotes (lines : List (List Char)) :
    unindented (lines.map escapeTripleQuotes) =
      (unindented lines).map (Prod.map escapeTripleQuotes escapeTripleQuotes) := by
  have hindents : ((lines.map escapeTripleQuotes).drop 1).filterMap indentOf? =
      (lines.drop 1).filterMap indentOf? := by
    rw [← List.map_drop, List.filterMap_map]
    exact congrArg (List.filterMap · _) (funext indentOf?_escapeTripleQuotes)
  unfold unindented
  rw [hindents, List.zipIdx_map, List.map_map, List.map_map]
  refine List.map_congr_left fun ⟨line, i⟩ hline ↦ ?_
  cases i with
  | zero => rfl
  | succ i =>
    have hbound : ∀ width ∈ indentOf? line, ((lines.drop 1).filterMap indentOf?).min?.getD 0 ≤ width := by
      intro width hwidth
      refine List.min?_getD_le_of_mem (List.mem_filterMap.mpr ⟨line, ?_, hwidth⟩)
      rw [List.mem_zipIdx_iff_getElem?] at hline
      exact List.mem_of_getElem? (List.getElem?_drop.trans (Nat.add_comm 1 i ▸ hline))
    have hunindent := unindent_escapeTripleQuotes hbound
    unfold unindent at hunindent
    simpa using hunindent

/-- The block string of an escaped text holds the block string of the text, escaped. -/
theorem blockValue_escapeTripleQuotes (text : List Char) :
    blockValue (escapeTripleQuotes text) = escapeTripleQuotes (blockValue text) := by
  have hvalue : ∀ raw, blockValue raw =
      let hasContent := fun (line : List Char × List Char) ↦ !line.1.all isIndent
      ['\n'].intercalate ((((unindented (linesFrom [] raw)).dropWhile
        (!hasContent ·)).reverse.dropWhile (!hasContent ·)).reverse.map (·.2)) := fun _ ↦ rfl
  rw [hvalue, hvalue, linesFrom_escapeTripleQuotes, unindented_escapeTripleQuotes]
  have hcontent : (fun line : List Char × List Char ↦ !!line.1.all isIndent) ∘
      Prod.map escapeTripleQuotes escapeTripleQuotes = fun line ↦ !!line.1.all isIndent := by
    funext line
    exact congrArg (!!·) (all_isIndent_escapeTripleQuotes line.1)
  simp only [List.dropWhile_map, hcontent, ← List.map_reverse, List.map_map]
  rw [← escapeTripleQuotes_intercalate, List.map_map]
  rfl

/-! ## Descriptions -/

theorem renderDescription_some (indent text : String) (rest : List Char) :
    (renderDescription indent (some text)).toList ++ rest =
      indent.toList ++ "\"\"\"".toList ++ quoted text.toList ('\n' :: rest) := by
  simp [renderDescription, quoted]

/-- What a description is read as: the value of its block string, in which a triple quote keeps its
backslash. -/
def readText (text : String) : String := String.ofList (escapeTripleQuotes (blockValue text.toList))

theorem unescapeTripleQuotes_readText (text : String) :
    unescapeTripleQuotes (readText text).toList = blockValue text.toList := by
  rw [readText, String.toList_ofList, unescapeTripleQuotes_escapeTripleQuotes]

theorem string_quoted {text : String} (closes : Closes text.toList) (rest : List Char) :
    string ("\"\"\"".toList ++ quoted text.toList rest) = some (readText text, skipFrom false rest) := by
  have hbody : (blockBody : Reader (List Char)) (quoted text.toList rest) =
      some (escapeTripleQuotes text.toList, rest) := (blockBody_quoted_iff _ rest).mpr closes
  have hblock : (do
      exactly "\"\"\""
      let raw ← (blockBody : Reader (List Char))
      return blockValue raw : Reader (List Char)) ("\"\"\"".toList ++ quoted text.toList rest) =
        some (blockValue (escapeTripleQuotes text.toList), rest) := by
    rw [bind_of_reads (exactly_append _ _), bind_of_reads hbody]
    rfl
  refine token_of_reads ?_
  rw [bind_of_reads (orElse_of_reads hblock _), blockValue_escapeTripleQuotes]
  rfl

end ResourceApi.TypeDocument

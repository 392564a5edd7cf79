import Mathlib.Data.List.TakeWhile
import ResourceApi.Text.Reader

/-!
# Running readers

A reader is run step by step: what its first part reads decides what is left for the rest.  Repetition
reads a row of items, each of which leaves the text of the next one, up to a text that is no item.
-/

namespace ResourceApi.Text.Reader

variable {α β : Type} {p : Reader α} {text rest : List Char} {value : α}

/-! ## Sequences and alternatives -/

theorem bind_of_reads (h : p text = some (value, rest)) (next : α → Reader β) :
    (p >>= next) text = next value rest := by
  change (p text).bind (fun read ↦ next read.1 read.2) = next value rest
  rw [h]
  rfl

theorem bind_of_none (h : p text = none) (next : α → Reader β) : (p >>= next) text = none := by
  change (p text).bind (fun read ↦ next read.1 read.2) = none
  rw [h]
  rfl

theorem map_of_reads (h : p text = some (value, rest)) (f : α → β) :
    (f <$> p) text = some (f value, rest) := by
  change (p text).bind (fun read ↦ some (f read.1, read.2)) = _
  rw [h]
  rfl

theorem map_of_none (h : p text = none) (f : α → β) : (f <$> p) text = none := by
  change (p text).bind (fun read ↦ some (f read.1, read.2)) = none
  rw [h]
  rfl

theorem seqRight_of_reads (h : p text = some (value, rest)) (q : Reader β) :
    (p *> q) text = q rest := by
  change (p text).bind (fun read ↦ q read.2) = _
  rw [h]
  rfl

theorem seqRight_of_none (h : p text = none) (q : Reader β) : (p *> q) text = none := by
  change (p text).bind (fun read ↦ q read.2) = _
  rw [h]
  rfl

theorem orElse_of_reads (h : p text = some (value, rest)) (q : Reader α) :
    (p <|> q) text = some (value, rest) := by
  change ((p text) <|> (q text)) = _
  rw [h]
  rfl

theorem orElse_of_none (h : p text = none) (q : Reader α) : (p <|> q) text = q text := by
  change ((p text) <|> (q text)) = _
  rw [h]
  rfl

theorem orElse_eq_none_iff {q : Reader α} :
    (p <|> q) text = none ↔ p text = none ∧ q text = none := by
  cases hp : p text with
  | none => simp [orElse_of_none hp]
  | some read => simp [orElse_of_reads hp]

theorem orElse_failure (p : Reader α) : (p <|> failure) = p := by
  funext text
  change ((p text) <|> none) = p text
  cases p text <;> rfl

/-- Of alternatives only one of which reads, that one is taken. -/
theorem foldr_orElse_of_reads {κ : Type} {readers : κ → Reader α} {keys : List κ} {key : κ}
    (mem : key ∈ keys) (reads : readers key text = some (value, rest))
    (others : ∀ other, other ≠ key → readers other text = none) :
    keys.foldr (fun key next ↦ readers key <|> next) failure text = some (value, rest) := by
  induction keys with
  | nil => cases mem
  | cons first more ih =>
    rw [List.foldr_cons]
    by_cases hfirst : first = key
    · subst hfirst
      exact orElse_of_reads reads _
    · rw [orElse_of_none (others first hfirst)]
      exact ih (List.mem_of_ne_of_mem (Ne.symm hfirst) mem)

theorem seqRight_pure_eq_none_iff (value : β) :
    (p *> pure value : Reader β) text = none ↔ p text = none := by
  cases hp : p text with
  | none => simp [seqRight_of_none hp]
  | some read =>
    rw [seqRight_of_reads hp]
    exact ⟨(fun h ↦ nomatch h), (fun h ↦ nomatch h)⟩

theorem absent_of_none (h : p text = none) : absent p text = some ((), text) := by
  unfold absent
  rw [show p.run text = p text from rfl, h]

theorem maybe_of_reads (h : p text = some (value, rest)) :
    maybe p text = some (some value, rest) := by
  unfold maybe
  rw [show p.run text = p text from rfl, h]

theorem maybe_of_none (h : p text = none) : maybe p text = some (none, text) := by
  unfold maybe
  rw [show p.run text = p text from rfl, h]

theorem seqLeft_of_reads (h : p text = some (value, rest)) (q : Reader β) :
    (p <* q) text = (q rest).map fun read ↦ (value, read.2) := by
  change (p text).bind (fun read ↦ (q read.2).bind fun after ↦ some (read.1, after.2)) = _
  rw [h]
  change (q rest).bind _ = _
  cases q rest <;> rfl

/-! ## What has been read -/

variable {read : β × List Char}

theorem exists_of_bind {next : α → Reader β} (h : (p >>= next) text = some read) :
    ∃ value rest, p text = some (value, rest) ∧ next value rest = some read := by
  obtain ⟨⟨value, rest⟩, hp, hnext⟩ := Option.bind_eq_some_iff.mp
    (show (p text).bind (fun read ↦ next read.1 read.2) = some read from h)
  exact ⟨value, rest, hp, hnext⟩

theorem exists_of_seqRight {q : Reader β} (h : (p *> q) text = some read) :
    ∃ value rest, p text = some (value, rest) ∧ q rest = some read :=
  exists_of_bind h

theorem exists_of_map {f : α → β} (h : (f <$> p) text = some read) :
    ∃ value rest, p text = some (value, rest) ∧ f value = read.1 := by
  obtain ⟨⟨value, rest⟩, hp, hread⟩ := Option.bind_eq_some_iff.mp
    (show (p text).bind (fun read ↦ some (f read.1, read.2)) = some read from h)
  exact ⟨value, rest, hp, congrArg Prod.fst (Option.some.inj hread)⟩

theorem or_of_orElse {q : Reader β} {p : Reader β} (h : (p <|> q) text = some read) :
    p text = some read ∨ q text = some read := by
  cases hp : p text with
  | none => exact .inr (orElse_of_none hp q ▸ h)
  | some found => exact .inl ((orElse_of_reads hp q).symm.trans h)

theorem exists_of_manyUpTo {rounds : Nat} {values : List α} {last : List Char}
    (h : manyUpTo p rounds text = some (values, last)) :
    ∀ value ∈ values, ∃ text rest, p text = some (value, rest) := by
  induction rounds generalizing text values last with
  | zero =>
    cases h
    exact fun _ h ↦ nomatch h
  | succ rounds ih =>
    unfold manyUpTo at h
    split at h
    · cases h
      exact fun _ h ↦ nomatch h
    · rename_i first rest hfirst
      split at h
      · rename_i more after hmore
        cases h
        exact List.forall_mem_cons.mpr ⟨⟨text, rest, hfirst⟩, ih hmore⟩
      · cases h

/-- Every item of a repetition has been read off some text. -/
theorem exists_of_many {values : List α} {last : List Char}
    (h : many p text = some (values, last)) :
    ∀ value ∈ values, ∃ text rest, p text = some (value, rest) :=
  exists_of_manyUpTo h

/-! ## Characters and words -/

theorem satisfy_of_accepts {accepts : Char → Bool} {c : Char} (h : accepts c = true)
    (rest : List Char) : satisfy accepts (c :: rest) = some (c, rest) := by
  unfold satisfy
  dsimp only
  rw [if_pos h]

theorem satisfy_eq_some {accepts : Char → Bool} {c : Char} (h : satisfy accepts text = some (c, rest)) :
    text = c :: rest ∧ accepts c = true := by
  unfold satisfy at h
  split at h
  · split at h
    · cases h
      exact ⟨rfl, ‹_›⟩
    · cases h
  · cases h

theorem char_cons (c : Char) (rest : List Char) : char c (c :: rest) = some ((), rest) := by
  simp [char]

theorem char_eq_none {c : Char} (h : text.head? ≠ some c) : char c text = none := by
  unfold char
  cases text with
  | nil => rfl
  | cons d rest =>
    have hne : d ≠ c := fun heq ↦ h (congrArg some heq)
    simp [hne]

theorem satisfy_eq_none {accepts : Char → Bool} (h : ∀ c ∈ text.head?, accepts c = false) :
    satisfy accepts text = none := by
  unfold satisfy
  cases text with
  | nil => rfl
  | cons c rest =>
    dsimp only
    rw [if_neg (by simp [h c rfl])]

theorem dropWord_append (word rest : List Char) : dropWord word (word ++ rest) = some rest := by
  induction word with
  | nil => rfl
  | cons c word ih => simp [dropWord, ih]

theorem exactly_append (word : String) (rest : List Char) :
    exactly word (word.toList ++ rest) = some ((), rest) := by
  unfold exactly
  rw [dropWord_append]
  rfl

/-- A word is not read off a text that starts with another character. -/
theorem exactly_eq_none {word : String} {first : Char} {more : List Char}
    (spelled : word.toList = first :: more) (h : text.head? ≠ some first) :
    exactly word text = none := by
  unfold exactly
  rw [spelled]
  cases text with
  | nil => rfl
  | cons c rest =>
    have hne : first ≠ c := fun heq ↦ h (congrArg some heq.symm)
    simp [dropWord, hne]

theorem dropWord_append_of_eq_some {word left : List Char} (h : dropWord word text = some left)
    (rest : List Char) : dropWord word (text ++ rest) = some (left ++ rest) := by
  induction word generalizing text with
  | nil =>
    cases h
    rfl
  | cons c word ih =>
    cases text with
    | nil => cases h
    | cons d more =>
      by_cases heq : c = d
      · subst heq
        simp only [dropWord, beq_self_eq_true, if_true, List.cons_append] at h ⊢
        exact ih h
      · simp [dropWord, heq] at h

/-- What does not start with a word does not do so before a text that cannot go on with it. -/
theorem dropWord_append_eq_none {word : List Char} (h : dropWord word text = none)
    (apart : ∀ c ∈ rest.head?, c ∉ word) : dropWord word (text ++ rest) = none := by
  induction word generalizing text with
  | nil => cases h
  | cons c word ih =>
    cases text with
    | nil =>
      cases rest with
      | nil => rfl
      | cons d more =>
        have hne : c ≠ d := fun heq ↦ apart d rfl (heq ▸ List.mem_cons_self)
        simp [dropWord, hne]
    | cons d more =>
      by_cases heq : c = d
      · subst heq
        simp only [dropWord, beq_self_eq_true, if_true, List.cons_append] at h ⊢
        exact ih h fun d hd hmem ↦ apart d hd (List.mem_cons_of_mem _ hmem)
      · simp [dropWord, heq]

/-- A run of characters is read up to one that does not belong to it. -/
theorem takeWhile_append {accepts : Char → Bool} {run : List Char}
    (h : ∀ c ∈ run, accepts c = true) (stop : ∀ c ∈ rest.head?, accepts c = false) :
    takeWhile accepts (run ++ rest) = some (run, rest) := by
  unfold takeWhile
  have hrest : rest.takeWhile accepts = [] ∧ rest.dropWhile accepts = rest := by
    cases rest with
    | nil => exact ⟨rfl, rfl⟩
    | cons c more => simp [stop c rfl]
  rw [List.takeWhile_append_of_pos h, List.dropWhile_append_of_pos h, hrest.1, hrest.2,
    List.append_nil]

/-! ## Repetition -/

/-- A row of items on a text, and what it leaves, which is no item. -/
inductive Row (p : Reader α) : List Char → List α → List Char → Prop
  | done {text : List Char} (h : p text = none) : Row p text [] text
  | item {text rest last : List Char} {value : α} {values : List α}
      (h : p text = some (value, rest)) (consumes : rest.length < text.length)
      (more : Row p rest values last) : Row p text (value :: values) last

theorem Row.manyUpTo {values : List α} {last : List Char} (row : Row p text values last)
    {rounds : Nat} (enough : text.length ≤ rounds) : manyUpTo p rounds text = some (values, last) := by
  induction row generalizing rounds with
  | @done text h =>
    cases rounds with
    | zero => rfl
    | succ rounds =>
      unfold Reader.manyUpTo
      rw [show p.run text = p text from rfl, h]
  | @item text rest last value values h consumes more ih =>
    cases rounds with
    | zero => omega
    | succ rounds =>
      unfold Reader.manyUpTo
      rw [show p.run text = p text from rfl, h]
      dsimp only
      rw [ih (by omega)]

theorem Row.many {values : List α} {last : List Char} (row : Row p text values last) :
    many p text = some (values, last) :=
  row.manyUpTo le_rfl

theorem Row.many1 {values : List α} {last : List Char} (row : Row p text (value :: values) last) :
    many1 p text = some (value :: values, last) := by
  cases row with
  | item h consumes more =>
    unfold Reader.many1
    rw [bind_of_reads h, bind_of_reads more.many]
    rfl

end ResourceApi.Text.Reader

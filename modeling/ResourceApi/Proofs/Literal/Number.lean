import ResourceApi.Proofs.Literal.Token

/-!
# Reading printed numbers

An integer of 64 bits, with a sign or without one, is read as it is printed.  A float may be read as
another one, since its digits are not rounded at once; but it does not matter what stands behind it.
-/

namespace ResourceApi

open Text Text.Reader
open Literal.Grammar (Delimited isDelimiter)

/-! ## What stands behind a number -/

namespace Text.Reader

variable {α β : Type} {p q : Reader α}

/-- The reader reads of a text what it reads of it before a delimiter. -/
def Local (p : Reader α) : Prop := ∀ text rest, Delimited rest →
  p (text ++ rest) = (p text).map fun read ↦ (read.1, read.2 ++ rest)

theorem local_pure (value : α) : Local (pure value : Reader α) := fun _ _ _ ↦ rfl

theorem Local.bind {next : α → Reader β} (h : Local p) (hnext : ∀ value, Local (next value)) :
    Local (p >>= next) := by
  intro text rest hrest
  have hp := h text rest hrest
  cases htext : p text with
  | none =>
    rw [htext] at hp
    rw [bind_of_none hp, bind_of_none htext]
    rfl
  | some read =>
    obtain ⟨value, after⟩ := read
    rw [htext] at hp
    rw [bind_of_reads hp, bind_of_reads htext, hnext value after rest hrest]

theorem Local.seqRight (h : Local p) {q : Reader β} (h' : Local q) : Local (p *> q) :=
  h.bind fun _ ↦ h'

theorem Local.orElse (h : Local p) (h' : Local q) : Local (p <|> q) := by
  intro text rest hrest
  have hp := h text rest hrest
  cases htext : p text with
  | none =>
    rw [htext] at hp
    rw [orElse_of_none hp, orElse_of_none htext, h' text rest hrest]
  | some read =>
    obtain ⟨value, after⟩ := read
    rw [htext] at hp
    rw [orElse_of_reads hp, orElse_of_reads htext]
    rfl

theorem Local.maybe (h : Local p) : Local (maybe p) := by
  intro text rest hrest
  have hp := h text rest hrest
  cases htext : p text with
  | none =>
    rw [htext] at hp
    rw [maybe_of_none hp, maybe_of_none htext]
    rfl
  | some read =>
    obtain ⟨value, after⟩ := read
    rw [htext] at hp
    rw [maybe_of_reads hp, maybe_of_reads htext]
    rfl

theorem Local.present (h : Local p) : Local (present p) :=
  h.maybe.bind fun _ ↦ local_pure _

theorem local_satisfy {accepts : Char → Bool}
    (apart : ∀ c, accepts c = true → isDelimiter c = false) : Local (satisfy accepts) := by
  intro text rest hrest
  cases text with
  | nil =>
    refine satisfy_eq_none fun c hc ↦ ?_
    cases haccepts : accepts c with
    | false => rfl
    | true => cases (apart c haccepts).symm.trans (hrest c hc)
  | cons c more =>
    cases haccepts : accepts c <;> simp [satisfy, haccepts]

theorem local_char {c : Char} (apart : isDelimiter c = false) : Local (char c) := by
  intro text rest hrest
  cases text with
  | nil => exact char_eq_none (hrest.ne apart)
  | cons d more =>
    by_cases heq : d = c <;> simp [char, heq]

theorem local_takeWhile1 {accepts : Char → Bool}
    (apart : ∀ c, accepts c = true → isDelimiter c = false) : Local (takeWhile1 accepts) := by
  intro text rest hrest
  have hstop : rest.takeWhile accepts = [] ∧ rest.dropWhile accepts = rest := by
    cases rest with
    | nil => exact ⟨rfl, rfl⟩
    | cons c more =>
      have hc : accepts c = false := by
        cases haccepts : accepts c with
        | false => rfl
        | true => cases (apart c haccepts).symm.trans (hrest c rfl)
      simp [hc]
  have hrun : (text ++ rest).takeWhile accepts = text.takeWhile accepts ∧
      (text ++ rest).dropWhile accepts = text.dropWhile accepts ++ rest := by
    induction text with
    | nil => exact hstop
    | cons c more ih => cases haccepts : accepts c <;> simp [haccepts, ih.1, ih.2]
  unfold takeWhile1
  rw [hrun.1, hrun.2]
  cases text.takeWhile accepts <;> rfl

end Text.Reader

namespace Json.Grammar

theorem isDelimiter_of_isDigit {c : Char} (h : c.isDigit = true) : isDelimiter c = false := by
  simp [isDelimiter, Name.isContinue, Char.isAlphanum, h]

theorem local_digits : Local digits := local_takeWhile1 fun _ ↦ isDelimiter_of_isDigit

theorem local_exponent : Local exponent := by
  refine (local_satisfy fun c hc ↦ ?_).bind fun _ ↦ (local_satisfy fun c hc ↦ ?_).maybe.bind fun _ ↦
    local_digits.bind fun _ ↦ local_pure _
  · rcases (Bool.or_eq_true _ _).mp hc with heq | heq <;> cases beq_iff_eq.mp heq <;> decide
  · rcases (Bool.or_eq_true _ _).mp hc with heq | heq <;> cases beq_iff_eq.mp heq <;> decide

theorem local_literal : Local literal := by
  have hwhole : Local ((char '0' *> pure ['0']) <|> digits) :=
    ((local_char (by decide)).seqRight (local_pure _)).orElse local_digits
  have hfraction : Local (maybe (char '.' *> digits)) :=
    ((local_char (by decide)).seqRight local_digits).maybe
  exact (local_char (by decide)).present.bind fun _ ↦ hwhole.bind fun _ ↦ hfraction.bind fun _ ↦
    local_exponent.maybe.bind fun _ ↦ local_pure _

end Json.Grammar

/-! ## Integers -/

namespace Json

theorem digits_toDigits (n : Nat) :
    Grammar.digits (Nat.toDigits 10 n) = some (Nat.toDigits 10 n, []) := by
  have hdigits : ∀ c ∈ Nat.toDigits 10 n, c.isDigit = true := fun c hc ↦
    Nat.isDigit_of_mem_toDigits (by decide) (by decide) hc
  unfold Grammar.digits takeWhile1
  rw [List.takeWhile_eq_self_iff.mpr hdigits, List.dropWhile_eq_nil_iff.mpr hdigits]
  split
  · rename_i hnil
    exact absurd hnil Nat.toDigits_ne_nil
  · rfl

/-- A natural is printed without leading zeros. -/
theorem head?_toDigits {n : Nat} (h : 0 < n) : (Nat.toDigits 10 n).head? ≠ some '0' := by
  induction n using Nat.strong_induction_on with
  | _ n ih =>
    by_cases hless : n < 10
    · rw [Nat.toDigits_of_lt_base hless]
      interval_cases n <;> decide
    · rw [Nat.toDigits_of_base_le (by decide) (by omega)]
      have hfirst := ih (n / 10) (by omega) (by omega)
      cases hdigits : Nat.toDigits 10 (n / 10) with
      | nil => exact absurd hdigits Nat.toDigits_ne_nil
      | cons first more =>
        rw [hdigits] at hfirst
        exact hfirst

theorem whole_toDigits (n : Nat) : ((char '0' *> pure ['0']) <|> Grammar.digits)
    (Nat.toDigits 10 n) = some (Nat.toDigits 10 n, []) := by
  rcases Nat.eq_zero_or_pos n with rfl | hpos
  · rfl
  · rw [orElse_of_none (seqRight_of_none (char_eq_none (head?_toDigits hpos)) _), digits_toDigits]

theorem literal_toDigits (negative : Bool) (n : Nat) :
    Grammar.literal ((if negative then ['-'] else []) ++ Nat.toDigits 10 n) =
      some (⟨negative, Nat.toDigits 10 n, none, none⟩, []) := by
  have hsign : present (char '-') ((if negative then ['-'] else []) ++ Nat.toDigits 10 n) =
      some (negative, Nat.toDigits 10 n) := by
    cases negative with
    | true => rfl
    | false =>
      have hnone : char '-' (Nat.toDigits 10 n) = none := by
        refine char_eq_none fun hfirst ↦ ?_
        have hdigit := Nat.isDigit_of_mem_toDigits (by decide) (by decide) (List.mem_of_head? hfirst)
        cases hdigit
      exact bind_of_reads (maybe_of_none hnone) _
  unfold Grammar.literal
  rw [bind_of_reads hsign, bind_of_reads (whole_toDigits n)]
  rfl

/-- Digits that fit are all gathered. -/
theorem gather_of_le {digits : List Char} {gathered : Nat}
    (fits : Nat.ofDigitChars 10 digits gathered ≤ Literal.maxGathered) :
    Literal.gather gathered digits = (Nat.ofDigitChars 10 digits gathered, []) := by
  induction digits generalizing gathered with
  | nil => rfl
  | cons c rest ih =>
    have hnext : gathered * 10 + Literal.digitValue c = 10 * gathered + (c.toNat - '0'.toNat) := by
      unfold Literal.digitValue
      omega
    rw [Nat.ofDigitChars_cons] at fits ⊢
    have hle : 10 * gathered + (c.toNat - '0'.toNat) ≤
        Nat.ofDigitChars 10 rest (10 * gathered + (c.toNat - '0'.toNat)) := by
      rw [Nat.ofDigitChars_eq_ofDigitChars_zero]
      have hpow : 1 ≤ 10 ^ rest.length := Nat.one_le_pow _ _ (by decide)
      exact (Nat.le_mul_of_pos_left _ hpow).trans (Nat.le_add_right _ _)
    unfold Literal.gather
    rw [hnext]
    dsimp only
    rw [if_pos (hle.trans fits), ih fits]

theorem toInt?_toDigits {negative : Bool} {n : Nat} (fits : n ≤ Literal.maxGathered)
    (signed : negative = true → 0 < n ∧ n ≤ signedBound) :
    Literal.toInt? ⟨negative, Nat.toDigits 10 n, none, none⟩ =
      some (if negative then -(n : Int) else n) := by
  have hvalue : Nat.ofDigitChars 10 (Nat.toDigits 10 n) 0 = n :=
    Nat.ofDigitChars_toDigits (by decide) (by decide)
  have hgather := gather_of_le (hvalue.symm ▸ fits)
  rw [hvalue] at hgather
  unfold Literal.toInt?
  rw [hgather]
  cases negative with
  | false => rfl
  | true =>
    obtain ⟨hpos, hbound⟩ := signed rfl
    have hne : (n == 0) = false := by simpa using hpos.ne'
    have hle : decide (n > signedBound) = false := by simpa using hbound
    simp [hne, hle]

theorem gather_le {digits : List Char} {gathered : Nat} (fits : gathered ≤ Literal.maxGathered) :
    (Literal.gather gathered digits).1 ≤ Literal.maxGathered := by
  induction digits generalizing gathered with
  | nil => exact fits
  | cons c rest ih =>
    unfold Literal.gather
    dsimp only
    split
    · exact ih ‹_›
    · exact fits

/-- The integers that are read have 64 bits. -/
theorem toInt?_bounds {literal : Literal} {value : Int} (h : literal.toInt? = some value) :
    -(signedBound : Int) ≤ value ∧ value < unsignedBound := by
  have hgather := @gather_le literal.whole 0 (Nat.zero_le _)
  unfold Literal.maxGathered unsignedBound at hgather
  unfold signedBound unsignedBound
  unfold Literal.toInt? at h
  split at h
  · cases h
  · dsimp only at h
    split at h
    · cases h
    · split at h
      · cases h
        omega
      · split at h
        · cases h
        · rename_i hbound
          simp only [Bool.or_eq_true, beq_iff_eq, decide_eq_true_eq, not_or, not_lt] at hbound
          cases h
          unfold signedBound at hbound
          omega

end Json

/-! ## Numbers -/

/-- The float is read as it is printed. -/
def Number.Binary64.readsBack (x : Number.Binary64) : Bool :=
  match (Json.Grammar.literal.readAll x.render.toList).bind Json.Literal.toJson? with
  | some (.float y) => y == x
  | _ => false

namespace Literal.Grammar

variable {text rest : List Char} {literal : Json.Literal}

theorem notFollowedBy_delimited (delimited : Delimited rest) :
    notFollowedBy Name.isStart rest = some ((), rest) := by
  unfold notFollowedBy
  cases rest with
  | nil => rfl
  | cons c more =>
    have hstart : Name.isStart c = false := by
      have hcontinue := delimited.not_continue c rfl
      unfold Name.isContinue Char.isAlphanum at hcontinue
      unfold Name.isStart
      simp only [Bool.or_eq_false_iff] at hcontinue ⊢
      exact ⟨hcontinue.1.1, hcontinue.2⟩
    dsimp only
    rw [hstart]
    rfl

theorem number_of_literal {value : Json} (h : Json.Grammar.literal text = some (literal, []))
    (hvalue : literal.toJson? = some value) (delimited : Delimited rest) :
    number (text ++ rest) = some (.ofJson value, skipFrom false rest) := by
  have hread : Json.Grammar.literal (text ++ rest) = some (literal, rest) := by
    rw [Json.Grammar.local_literal text rest delimited, h]
    rfl
  refine token_of_reads ?_
  rw [bind_of_reads hread, bind_of_reads (notFollowedBy_delimited delimited), hvalue]
  unfold Json.Literal.toJson? at hvalue
  split at hvalue
  · cases hvalue
    rfl
  · obtain ⟨x, -, rfl⟩ := Option.map_eq_some_iff.mp hvalue
    rfl

theorem toList_toString (value : Int) : (toString value).toList =
    (if decide (value < 0) then ['-'] else []) ++ Nat.toDigits 10 value.natAbs := by
  rw [Int.toString_eq_repr, Int.repr_eq_if]
  by_cases hsign : 0 ≤ value
  · have hnat : value.toNat = value.natAbs := by omega
    simp [hsign, hnat]
  · have hnat : (-value).toNat = value.natAbs := by omega
    simp [hsign, hnat, Int.not_le.mp hsign]

/-- A printed integer of 64 bits is read back. -/
theorem number_int {value : Int} (low : -(Json.signedBound : Int) ≤ value)
    (high : value < Json.unsignedBound) (delimited : Delimited rest) :
    number ((toString value).toList ++ rest) = some (.int value, skipFrom false rest) := by
  unfold Json.signedBound at low
  unfold Json.unsignedBound at high
  have hfits : value.natAbs ≤ Json.Literal.maxGathered := by
    unfold Json.Literal.maxGathered Json.unsignedBound
    omega
  have hsigned : decide (value < 0) = true → 0 < value.natAbs ∧ value.natAbs ≤ Json.signedBound := by
    intro hnegative
    have hless := of_decide_eq_true hnegative
    unfold Json.signedBound
    omega
  have hint := Json.toInt?_toDigits hfits hsigned
  have hsame : (if decide (value < 0) then -(value.natAbs : Int) else value.natAbs) = value := by
    by_cases hless : value < 0
    · rw [decide_eq_true hless, if_pos rfl]
      omega
    · rw [decide_eq_false hless, if_neg Bool.false_ne_true]
      omega
  rw [hsame] at hint
  have hjson : Json.Literal.toJson? ⟨decide (value < 0), Nat.toDigits 10 value.natAbs, none, none⟩ =
      some (.int value) := by
    unfold Json.Literal.toJson?
    rw [hint]
  rw [toList_toString]
  exact number_of_literal (Json.literal_toDigits _ _) hjson delimited

theorem number_float {x : Number.Binary64} (back : x.readsBack = true)
    (delimited : Delimited rest) :
    number (x.render.toList ++ rest) = some (.float x, skipFrom false rest) := by
  unfold Number.Binary64.readsBack at back
  split at back
  · rename_i y hread
    obtain ⟨literal, hliteral, hvalue⟩ := Option.bind_eq_some_iff.mp hread
    rw [beq_iff_eq.mp back] at hvalue
    unfold readAll at hliteral
    split at hliteral
    · rename_i found hfound
      cases hliteral
      exact number_of_literal hfound hvalue delimited
    · cases hliteral
  · cases back

theorem number_eq_none (h : ∀ c ∈ text.head?, c.isDigit = false ∧ c ≠ '-') : number text = none := by
  have hsign : present (char '-') text = some (false, text) := by
    refine bind_of_reads (maybe_of_none (char_eq_none fun hfirst ↦ ?_)) _
    exact (h '-' hfirst).2 rfl
  have hzero : char '0' text = none := char_eq_none fun hfirst ↦ by cases (h '0' hfirst).1
  have hdigits : Json.Grammar.digits text = none := by
    unfold Json.Grammar.digits takeWhile1
    cases text with
    | nil => rfl
    | cons c rest => simp [(h c rfl).1]
  refine token_of_none (bind_of_none ?_ _)
  unfold Json.Grammar.literal
  rw [bind_of_reads hsign, bind_of_none]
  rw [orElse_of_none (seqRight_of_none hzero _), hdigits]

end Literal.Grammar

end ResourceApi

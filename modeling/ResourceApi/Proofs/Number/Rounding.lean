import Mathlib.Algebra.Order.Ring.Nat
import ResourceApi.Json

/-!
# Rounding of integers

Integers compare as floats, which have 53 significant bits.  Rounding an integer to that many bits leaves
it as it is if it has no more, and so the order of such integers is that of the numbers.  Beyond that it
is off by at most half of the spacing of floats; it never turns two integers around, but it may make them
equal, in 64 bits only if they lie no further apart than `2 ^ 11`.
-/

namespace ResourceApi

namespace Number

theorem roundQuotient_mul (q : Nat) {den : Nat} (pos : 0 < den) : roundQuotient (q * den) den = q := by
  unfold roundQuotient
  rw [Nat.mul_div_cancel q pos, Nat.mul_mod_left]
  simp [pos]

/-- A number whose low bits are zero is not changed by rounding them off. -/
theorem roundNat_of_dvd {n : Nat} (h : 2 ^ (n.log2 + 1 - Binary64.precision) ∣ n) :
    roundNat n = n := by
  obtain ⟨q, hq⟩ := h
  have hround := roundQuotient_mul q (Nat.two_pow_pos (n.log2 + 1 - Binary64.precision))
  rw [Nat.mul_comm, ← hq] at hround
  unfold roundNat
  simp only [Nat.pow_eq]
  rw [hround, Nat.mul_comm, ← hq]

theorem roundNat_of_le {n : Nat} (h : n ≤ 2 ^ Binary64.precision) : roundNat n = n := by
  rcases Nat.lt_or_eq_of_le h with hlt | rfl
  · have hbits : n.log2 + 1 - Binary64.precision = 0 := by
      rcases Nat.eq_zero_or_pos n with rfl | hpos
      · decide
      · exact Nat.sub_eq_zero_of_le ((Nat.log2_lt (Nat.ne_of_gt hpos)).mpr hlt)
    exact roundNat_of_dvd (by rw [hbits]; exact Nat.one_dvd n)
  · exact roundNat_of_dvd (by decide)

theorem roundInt_of_natAbs_le {n : Int} (h : n.natAbs ≤ 2 ^ Binary64.precision) : roundInt n = n := by
  cases n with
  | ofNat n => exact congrArg Int.ofNat (roundNat_of_le h)
  | negSucc n =>
    have hround : roundNat (n + 1) = n + 1 := roundNat_of_le h
    rw [roundInt, hround]
    rfl

theorem Dyadic.order_integers (x y : Int) : Dyadic.order ⟨x, 0⟩ ⟨y, 0⟩ = compare x y := by
  simp [Dyadic.order, Dyadic.mantissaAt]

/-! ## Rounding keeps the order -/

theorem div_le_roundQuotient (num den : Nat) : num / den ≤ roundQuotient num den := by
  unfold roundQuotient
  dsimp only
  split
  · exact Nat.le_refl _
  · exact Nat.le_succ _

theorem roundQuotient_le_div_add_one (num den : Nat) : roundQuotient num den ≤ num / den + 1 := by
  unfold roundQuotient
  dsimp only
  split
  · exact Nat.le_succ _
  · exact Nat.le_refl _

theorem roundQuotient_mono (den : Nat) {num num' : Nat} (h : num ≤ num') :
    roundQuotient num den ≤ roundQuotient num' den := by
  rcases Nat.lt_or_eq_of_le (Nat.div_le_div_right h : num / den ≤ num' / den) with hlt | hsame
  · calc
      roundQuotient num den ≤ num / den + 1 := roundQuotient_le_div_add_one num den
      _ ≤ num' / den := hlt
      _ ≤ roundQuotient num' den := div_le_roundQuotient num' den
  · -- with one quotient, the larger number leaves the larger remainder
    have hrest : num % den ≤ num' % den := by
      have hnum := Nat.div_add_mod num den
      have hnum' := Nat.div_add_mod num' den
      rw [hsame] at hnum
      omega
    simp only [roundQuotient, hsame, Bool.or_eq_true, Bool.and_eq_true, decide_eq_true_eq, beq_iff_eq]
    split
    · split <;> omega
    · rw [if_neg]
      omega

/-- A rounded quotient is off by at most a half. -/
theorem roundQuotient_near (num : Nat) {den : Nat} (pos : 0 < den) :
    2 * (roundQuotient num den * den) ≤ 2 * num + den ∧
      2 * num ≤ 2 * (roundQuotient num den * den) + den := by
  have hsplit := Nat.div_add_mod' num den
  have hrest := Nat.mod_lt num pos
  simp only [roundQuotient, Bool.or_eq_true, Bool.and_eq_true, decide_eq_true_eq, beq_iff_eq]
  split
  · omega
  · rw [Nat.add_one_mul (num / den)]
    omega

/-- How far the numbers of 53 significant bits lie apart near a natural. -/
def spacing (n : Nat) : Nat := 2 ^ (n.log2 + 1 - Binary64.precision)

theorem roundNat_eq (n : Nat) : roundNat n = roundQuotient n (spacing n) * spacing n := rfl

theorem spacing_pos (n : Nat) : 0 < spacing n := Nat.two_pow_pos _

theorem spacing_of_log2 {n m : Nat} (h : n.log2 = m.log2) : spacing n = spacing m := by
  rw [spacing, h, spacing]

/-- Rounding is off by at most half of the spacing. -/
theorem roundNat_near (n : Nat) :
    2 * roundNat n ≤ 2 * n + spacing n ∧ 2 * n ≤ 2 * roundNat n + spacing n :=
  roundQuotient_near n (spacing_pos n)

theorem roundNat_two_pow (k : Nat) : roundNat (2 ^ k) = 2 ^ k := by
  apply roundNat_of_dvd
  rw [Nat.log2_two_pow]
  apply Nat.pow_dvd_pow
  unfold Binary64.precision
  omega

/-- Rounding does not take a natural below the power of two under it. -/
theorem two_pow_log2_le_roundNat {n : Nat} (h : n ≠ 0) : 2 ^ n.log2 ≤ roundNat n := by
  have hspacing : spacing (2 ^ n.log2) = spacing n := spacing_of_log2 Nat.log2_two_pow
  calc
    2 ^ n.log2 = roundNat (2 ^ n.log2) := (roundNat_two_pow _).symm
    _ = roundQuotient (2 ^ n.log2) (spacing n) * spacing n := by rw [roundNat_eq, hspacing]
    _ ≤ roundQuotient n (spacing n) * spacing n := by
      apply Nat.mul_le_mul_right
      exact roundQuotient_mono _ (Nat.log2_self_le h)
    _ = roundNat n := (roundNat_eq n).symm

/-- Rounding takes a natural at most to the power of two above it. -/
theorem roundNat_le_two_pow (n : Nat) : roundNat n ≤ 2 ^ (n.log2 + 1) := by
  obtain ⟨count, hcount⟩ : spacing n ∣ 2 ^ (n.log2 + 1) := Nat.pow_dvd_pow 2 (Nat.sub_le _ _)
  rw [Nat.mul_comm] at hcount
  calc
    roundNat n = roundQuotient n (spacing n) * spacing n := roundNat_eq n
    _ ≤ roundQuotient (count * spacing n) (spacing n) * spacing n := by
      apply Nat.mul_le_mul_right
      apply roundQuotient_mono
      exact hcount ▸ Nat.le_of_lt Nat.lt_log2_self
    _ = count * spacing n := by rw [roundQuotient_mul count (spacing_pos n)]
    _ = 2 ^ (n.log2 + 1) := hcount.symm

theorem roundNat_mono {n m : Nat} (h : n ≤ m) : roundNat n ≤ roundNat m := by
  rcases Nat.eq_zero_or_pos n with rfl | hpos
  · exact Nat.zero_le _
  · have hn : n ≠ 0 := Nat.ne_of_gt hpos
    have hm : m ≠ 0 := Nat.ne_of_gt (Nat.lt_of_lt_of_le hpos h)
    have hlog2 : n.log2 ≤ m.log2 := (Nat.le_log2 hm).mpr ((Nat.log2_self_le hn).trans h)
    rcases Nat.lt_or_eq_of_le hlog2 with hlt | hsame
    · -- a power of two lies between the two
      calc
        roundNat n ≤ 2 ^ (n.log2 + 1) := roundNat_le_two_pow n
        _ ≤ 2 ^ m.log2 := Nat.pow_le_pow_right Nat.two_pos hlt
        _ ≤ roundNat m := two_pow_log2_le_roundNat hm
    · rw [roundNat_eq, roundNat_eq, spacing_of_log2 hsame]
      exact Nat.mul_le_mul_right _ (roundQuotient_mono _ h)

theorem roundInt_mono {x y : Int} (h : x ≤ y) : roundInt x ≤ roundInt y := by
  cases x with
  | ofNat n =>
    cases y with
    | ofNat m => exact Int.ofNat_le.mpr (roundNat_mono (Int.ofNat_le.mp h))
    | negSucc m => exact absurd h (Int.not_le.mpr (Int.negSucc_lt_zero m |>.trans_le (Int.natCast_nonneg n)))
  | negSucc n =>
    cases y with
    | ofNat m => exact (Int.neg_nonpos_of_nonneg (Int.natCast_nonneg _)).trans (Int.natCast_nonneg _)
    | negSucc m =>
      have hle : m + 1 ≤ n + 1 := by omega
      exact Int.neg_le_neg (Int.ofNat_le.mpr (roundNat_mono hle))

theorem roundInt_near (x : Int) :
    2 * roundInt x ≤ 2 * x + spacing x.natAbs ∧ 2 * x ≤ 2 * roundInt x + spacing x.natAbs := by
  cases x with
  | ofNat n =>
    have hnear := roundNat_near n
    simp only [roundInt, Int.ofNat_eq_natCast, Int.natAbs_natCast]
    omega
  | negSucc n =>
    have hnear := roundNat_near (n + 1)
    simp only [roundInt, Int.natAbs_negSucc, Nat.succ_eq_add_one]
    omega

/-- Up to 64 bits, the spacing is at most `2 ^ 11`. -/
theorem spacing_le {n : Nat} (h : n < Json.unsignedBound) : spacing n ≤ 2 ^ 11 := by
  apply Nat.pow_le_pow_right Nat.two_pos
  rcases Nat.eq_zero_or_pos n with rfl | hpos
  · decide
  · have hbits : n.log2 < 64 := (Nat.log2_lt (Nat.ne_of_gt hpos)).mpr h
    unfold Binary64.precision
    omega

/-- Integers of 64 bits that lie further apart than the spacing stay apart. -/
theorem roundInt_lt_of_apart {x y : Int} (hx : x.natAbs < Json.unsignedBound)
    (hy : y.natAbs < Json.unsignedBound) (apart : x + 2 ^ 11 < y) : roundInt x < roundInt y := by
  have hbelow := (roundInt_near x).1
  have habove := (roundInt_near y).2
  have hspacingX := spacing_le hx
  have hspacingY := spacing_le hy
  omega

end Number

/-- Integers compare as what they are rounded to. -/
theorem Json.order?_roundInt (x y : Int) :
    (Json.int x).order? (.int y) = some (compare (Number.roundInt x) (Number.roundInt y)) := by
  simp only [order?, order?.number?, Option.bind_eq_bind, Option.bind_some, Option.pure_def]
  rw [Number.Dyadic.order_integers]

/-- Integers that need no rounding compare as numbers. -/
theorem Json.order?_int {x y : Int} (hx : x.natAbs ≤ 2 ^ Number.Binary64.precision)
    (hy : y.natAbs ≤ 2 ^ Number.Binary64.precision) :
    (Json.int x).order? (.int y) = some (compare x y) := by
  rw [order?_roundInt, Number.roundInt_of_natAbs_le hx, Number.roundInt_of_natAbs_le hy]

end ResourceApi

/-!
# Finite binary floating-point numbers

A finite number of the 64-bit binary format is a sign, a mantissa below `2 ^ 53` and an exponent
between `-1074` and `971`; the two zeros are told apart by the sign.  All arithmetic here is exact
arithmetic on naturals followed by one rounding to the nearest number, a tie going to the even
mantissa.
-/

namespace ResourceApi.Number

structure Binary64 where
  negative : Bool
  mantissa : Nat
  exponent : Int
deriving DecidableEq, Repr

/-- The quotient rounded to the nearest natural, a tie to the even one. -/
def roundQuotient (num den : Nat) : Nat :=
  let q := num / den
  let twice := 2 * (num % den)
  if twice < den || (twice == den && q % 2 == 0) then q else q + 1

namespace Binary64

def precision : Nat := 53
def minExponent : Int := -1074
def maxExponent : Int := 971

def zero (negative : Bool) : Binary64 := ⟨negative, 0, minExponent⟩

/-- Numerator and denominator of `num / den * 2 ^ shift`. -/
def scale (num den : Nat) (shift : Int) : Nat × Nat :=
  (num * Nat.pow 2 shift.toNat, den * Nat.pow 2 (-shift).toNat)

/-- The exponent at which `num / den` has a mantissa of full precision, bounded below by the least
exponent of the format. -/
def exponentFor (num den : Nat) : Int :=
  let guess : Int := (num.log2 : Int) - den.log2 - precision
  let (n, d) := scale num den (-guess)
  let exponent := if n < d * Nat.pow 2 precision then guess else guess + 1
  max exponent minExponent

/-- The number nearest to `num / den`, with no upper bound on the exponent. -/
def round (negative : Bool) (num den : Nat) : Binary64 :=
  if num == 0 then zero negative
  else
    let exponent := exponentFor num den
    let (n, d) := scale num den (-exponent)
    let mantissa := roundQuotient n d
    if mantissa == Nat.pow 2 precision then
      ⟨negative, Nat.pow 2 (precision - 1), exponent + 1⟩
    else ⟨negative, mantissa, exponent⟩

def isFinite (x : Binary64) : Bool := x.exponent ≤ maxExponent

/-- The magnitude as a numerator and a denominator. -/
def ratio (x : Binary64) : Nat × Nat := scale x.mantissa 1 x.exponent

def ofNat (n : Nat) : Binary64 := round false n 1

def mul (x y : Binary64) : Binary64 :=
  let (a, b) := x.ratio
  let (c, d) := y.ratio
  round (x.negative != y.negative) (a * c) (b * d)

/-- Division by a number other than zero. -/
def div (x y : Binary64) : Binary64 :=
  let (a, b) := x.ratio
  let (c, d) := y.ratio
  round (x.negative != y.negative) (a * d) (b * c)

/-- Equality of values: the two zeros are equal. -/
def equal (x y : Binary64) : Bool :=
  (x.mantissa == 0 && y.mantissa == 0) || x == y

end Binary64

/-! ## Exact comparison -/

/-- The number `mantissa * 2 ^ exponent`. -/
structure Dyadic where
  mantissa : Int
  exponent : Int
deriving DecidableEq, Repr

namespace Dyadic

/-- The mantissa at a given exponent that is not above the number's own. -/
def mantissaAt (x : Dyadic) (exponent : Int) : Int :=
  x.mantissa * Nat.pow 2 (x.exponent - exponent).toNat

/-- The order of the denoted numbers. -/
def order (x y : Dyadic) : Ordering :=
  let exponent := min x.exponent y.exponent
  compare (x.mantissaAt exponent) (y.mantissaAt exponent)

end Dyadic

def Binary64.toDyadic (x : Binary64) : Dyadic :=
  ⟨if x.negative then -(x.mantissa : Int) else x.mantissa, x.exponent⟩

/-- A natural rounded to 53 significant bits, a tie to the even mantissa. -/
def roundNat (n : Nat) : Nat :=
  let shift := n.log2 + 1 - Binary64.precision
  roundQuotient n (Nat.pow 2 shift) * Nat.pow 2 shift

/-- An integer rounded to the nearest number of the format. -/
def roundInt : Int → Int
  | .ofNat n => roundNat n
  | .negSucc n => -(roundNat (n + 1) : Int)

end ResourceApi.Number

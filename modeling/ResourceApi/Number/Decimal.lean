import ResourceApi.Number.Binary64

/-!
# Reading decimals

The floating-point number nearest to a decimal.  One rounding is made, so the result does not depend
on how the decimal is written.
-/

namespace ResourceApi.Number

/-- The number of decimal digits, with `fuel` to spare. -/
def digitCountWith : Nat → Nat → Nat
  | 0, _ => 0
  | fuel + 1, n => if n == 0 then 0 else digitCountWith fuel (n / 10) + 1

def digitCount (n : Nat) : Nat := digitCountWith (n.log2 + 1) n

/-- The number nearest to `mantissa * 10 ^ exponent`, if it is finite.  Numbers far below the least
one are zero, whatever their digits. -/
def Binary64.ofDecimal? (negative : Bool) (mantissa : Nat) (exponent : Int) : Option Binary64 :=
  let magnitude := exponent + digitCount mantissa
  if mantissa == 0 || magnitude < -330 then some (zero negative)
  else if magnitude > 310 then none
  else
    let x := round negative (mantissa * Nat.pow 10 exponent.toNat) (Nat.pow 10 (-exponent).toNat)
    if x.isFinite then some x else none

end ResourceApi.Number

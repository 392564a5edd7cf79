import ResourceApi.Json
import ResourceApi.Number.Shortest

/-!
# Numbers in JSON text

A literal without fraction and exponent that fits 64 bits, signed or unsigned, is an exact integer.
Every other literal is a float, read in two roundings: the digits are gathered into a 64-bit natural
(further digits only count as places), that natural is rounded, and the result is multiplied or
divided by the rounded power of ten.  A literal beyond the largest float is refused.
-/

namespace ResourceApi.Json

open Number (Binary64)

/-- A number as written: `-12.50e+3` has the parts `12`, `50` and `3`. -/
structure Literal where
  negative : Bool
  whole : List Char
  fraction : Option (List Char)
  exponent : Option Int
deriving DecidableEq, Repr

namespace Literal

def maxGathered : Nat := unsignedBound - 1

def digitValue (c : Char) : Nat := c.toNat - '0'.toNat

/-- Appends digits while the result fits; returns it with the digits left over. -/
def gather (gathered : Nat) : List Char → Nat × List Char
  | [] => (gathered, [])
  | c :: rest =>
    let next := gathered * 10 + digitValue c
    if next ≤ maxGathered then gather next rest else (gathered, c :: rest)

/-- The gathered digits and the power of ten they are to be scaled by. -/
def scaled (l : Literal) : Nat × Int :=
  let (whole, extra) := gather 0 l.whole
  let fraction := l.fraction.getD []
  let (gathered, unread) := gather whole fraction
  let places : Int := fraction.length - unread.length
  (gathered, extra.length - places + l.exponent.getD 0)

def powerOfTen (k : Nat) : Binary64 := Binary64.round false (Nat.pow 10 k) 1

/-- Scales by a power of ten; powers below `1e-308` are reached in steps, and a number that the
first such step takes to zero stays there.  `none` is overflow. -/
def scaleBy (fuel : Nat) (x : Binary64) (exponent : Int) : Option Binary64 :=
  match fuel with
  | 0 => none
  | fuel + 1 =>
    if exponent.natAbs ≤ 308 then
      if exponent ≥ 0 then
        let product := x.mul (powerOfTen exponent.toNat)
        if product.isFinite then some product else none
      else some (x.div (powerOfTen exponent.natAbs))
    else if x.mantissa == 0 then some x
    else if exponent ≥ 0 then none
    else scaleBy fuel (x.div (powerOfTen 308)) (exponent + 308)

def toFloat? (l : Literal) : Option Binary64 :=
  let (gathered, exponent) := l.scaled
  let magnitude :=
    if gathered == 0 then some (Binary64.zero false)
    else scaleBy 4 (Binary64.ofNat gathered) (max exponent (-1200))
  magnitude.map fun x ↦ { x with negative := l.negative }

/-- The integer that a literal without fraction and exponent denotes, if it fits 64 bits.  Minus
zero is no integer. -/
def toInt? (l : Literal) : Option Int :=
  if l.fraction.isSome || l.exponent.isSome then none
  else
    let (value, extra) := gather 0 l.whole
    if !extra.isEmpty then none
    else if !l.negative then some value
    else if value == 0 || value > signedBound then none
    else some (-(value : Int))

def toJson? (l : Literal) : Option Json :=
  match l.toInt? with
  | some value => some (.int value)
  | none => l.toFloat?.map .float

end Literal
end ResourceApi.Json

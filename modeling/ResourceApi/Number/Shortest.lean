import ResourceApi.Number.Binary64

/-!
# Shortest decimal text

A float is written with the fewest decimal digits that read back as the same float, and of those
digits with the ones nearest to it.  For each digit count the two neighbours of the number on that
decimal grid are tested against the interval of reals that round to it.
-/

namespace ResourceApi.Number

/-- A decimal number `digits * 10 ^ exponent`. -/
structure Decimal where
  digits : Nat
  exponent : Int
deriving DecidableEq, Repr

/-- The interval of reals that round to a positive float, and the float itself, all as numerators
over `den`; the end points belong to it iff `closed`. -/
structure RoundingInterval where
  low : Nat
  value : Nat
  high : Nat
  den : Nat
  closed : Bool

def RoundingInterval.ofFloat (x : Binary64) : RoundingInterval :=
  let gap := if x.mantissa == Nat.pow 2 (Binary64.precision - 1) && x.exponent > Binary64.minExponent
    then 1 else 2
  let (unit, den) := Binary64.scale 1 1 (x.exponent - 2)
  { low := (4 * x.mantissa - gap) * unit
    value := 4 * x.mantissa * unit
    high := (4 * x.mantissa + 2) * unit
    den := den
    closed := x.mantissa % 2 == 0 }

/-- `digits * 10 ^ exponent` lies in the interval. -/
def RoundingInterval.holds (i : RoundingInterval) (d : Decimal) : Bool :=
  let num := d.digits * Nat.pow 10 d.exponent.toNat * i.den
  let scale := Nat.pow 10 (-d.exponent).toNat
  if i.closed then i.low * scale ≤ num && num ≤ i.high * scale
  else i.low * scale < num && num < i.high * scale

/-- The point of the grid `10 ^ exponent` that lies in the interval and nearest to the value. -/
def RoundingInterval.onGrid? (i : RoundingInterval) (exponent : Int) : Option Decimal :=
  let num := i.value * Nat.pow 10 (-exponent).toNat
  let den := i.den * Nat.pow 10 exponent.toNat
  let below : Decimal := ⟨num / den, exponent⟩
  let above : Decimal := ⟨num / den + 1, exponent⟩
  let twice := 2 * (num % den)
  let nearer := if twice < den || (twice == den && below.digits % 2 == 0) then below else above
  let farther := if nearer == below then above else below
  if i.holds nearer then some nearer else if i.holds farther then some farther else none

/-- The number of decimal places before the point of the value, zero or less below one tenth. -/
def RoundingInterval.magnitude (i : RoundingInterval) : Int :=
  if i.value ≥ i.den then ((toString (i.value / i.den)).length : Int)
  else
    -- the value is below one: count the zeros that follow the point
    let zeros := ((List.range 330).find? fun k ↦ i.value * Nat.pow 10 (k + 1) ≥ i.den).getD 0
    Int.neg zeros

/-- The first grid, from coarse to fine, that has a point in the interval. -/
def shortest (x : Binary64) : Decimal :=
  let interval := RoundingInterval.ofFloat x
  let top := interval.magnitude
  ((List.range 18).findSome? fun (k : Nat) ↦ interval.onGrid? (top - k)).getD ⟨0, 0⟩

/-- The digits without trailing zeros; `fuel` bounds the number of zeros taken off. -/
def Decimal.strip (fuel : Nat) (d : Decimal) : Decimal :=
  match fuel with
  | 0 => d
  | fuel + 1 =>
    if d.digits % 10 == 0 && d.digits != 0 then Decimal.strip fuel ⟨d.digits / 10, d.exponent + 1⟩
    else d

/-! ## The written form -/

private def zeros (n : Int) : String := String.ofList (List.replicate n.toNat '0')

/-- Positional notation reaches from `1e-5` up to, but without, `1e16` and always has a digit on
both sides of the point; elsewhere one digit stands before the point and an exponent follows. -/
def Decimal.render (d : Decimal) : String :=
  let digits := toString d.digits
  let length : Int := digits.length
  let point := length + d.exponent
  if 0 ≤ d.exponent && point ≤ 16 then digits ++ zeros d.exponent ++ ".0"
  else if 0 < point && point ≤ 16 then
    (digits.take point.toNat).toString ++ "." ++ (digits.drop point.toNat).toString
  else if -5 < point && point ≤ 0 then "0." ++ zeros (-point) ++ digits
  else
    let head := (digits.take 1).toString
    let tail := (digits.drop 1).toString
    let mantissa := if tail.isEmpty then head else head ++ "." ++ tail
    mantissa ++ "e" ++ toString (point - 1)

def Binary64.render (x : Binary64) : String :=
  let magnitude :=
    if x.mantissa == 0 then "0.0" else ((shortest x).strip 20).render
  if x.negative then "-" ++ magnitude else magnitude

end ResourceApi.Number

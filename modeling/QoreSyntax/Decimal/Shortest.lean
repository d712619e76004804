import QoreSyntax.Decimal.Binary64

/-!
The shortest decimal that reads back as a given floating-point number.

All reals between the two midpoints with its neighbours are nearest to a number; the midpoints
themselves are so exactly when its mantissa is even. Of the decimals in that interval, those with
the fewest digits are the shortest, and of these the nearest to the number is taken. On the grid of
the decimals with a given number of digits it is enough to look at the two neighbours of the
number. Seventeen digits always suffice.
-/

namespace QoreSyntax.Decimal

/-- A number `centre * unit` and the interval of the reals that are nearest to it, from
`low * unit` to `high * unit`, where the unit is `2 ^ power`. -/
structure Neighbourhood where
  low : Nat
  centre : Nat
  high : Nat
  power : Int
  closed : Bool
  deriving DecidableEq, Repr

/-- The neighbourhood of `mantissa * 2 ^ exponent`. Below a power of two the numbers lie twice as
close together, if the exponent can still be lowered. -/
def Neighbourhood.of (mantissa : Nat) (exponent : Int) : Neighbourhood :=
  let below := if mantissa = Nat.pow 2 52 ∧ -1074 < exponent then 1 else 2
  ⟨4 * mantissa - below, 4 * mantissa, 4 * mantissa + 2, exponent - 2, mantissa % 2 = 0⟩

/-- The two natural numbers with the quotient `n * 2 ^ power / 10 ^ exponent`. -/
def quotient (n : Nat) (power exponent : Int) : Nat × Nat :=
  (n * Nat.pow 2 power.toNat * Nat.pow 10 (-exponent).toNat,
    Nat.pow 2 (-power).toNat * Nat.pow 10 exponent.toNat)

namespace Neighbourhood

def magnitude (v : Neighbourhood) : Int :=
  let (numerator, denominator) := quotient v.centre v.power 0
  if denominator ≤ numerator then decimalLength (numerator / denominator) - 1
  else
    let places := decimalLength (denominator / numerator)
    if denominator ≤ numerator * Nat.pow 10 (places - 1) then 1 - places else -places

def admits (v : Neighbourhood) (d : Decimal) : Bool :=
  let (low, unit) := quotient v.low v.power d.exponent
  let (high, _) := quotient v.high v.power d.exponent
  let point := d.digits * unit
  if v.closed then decide (low ≤ point) && decide (point ≤ high)
  else decide (low < point) && decide (point < high)

/-- The decimal with `count` digits that is nearest to the number, of those that read back as it.
Of two that are equally near, the greater one is taken if `tieUp` holds, else the even one. -/
def withDigits? (v : Neighbourhood) (tieUp : Bool) (count : Nat) : Option Decimal :=
  let exponent := v.magnitude - (count - 1 : Nat)
  let (centre, unit) := quotient v.centre v.power exponent
  let lower : Decimal := ⟨centre / unit, exponent⟩
  let upper : Decimal := ⟨centre / unit + 1, exponent⟩
  match v.admits lower, v.admits upper with
  | true, true =>
      let twice := 2 * (centre % unit)
      if twice < unit then some lower
      else if unit < twice then some upper
      else if tieUp ∨ lower.digits % 2 = 1 then some upper
      else some lower
  | true, false => some lower
  | false, true => some upper
  | false, false => none

end Neighbourhood

/-- Moves the zeros at the end of the digits into the exponent, at most `fuel` of them. -/
def trimZeros : (fuel : Nat) → Decimal → Decimal
  | 0, d => d
  | fuel + 1, d =>
      if d.digits ≠ 0 ∧ d.digits % 10 = 0 then trimZeros fuel ⟨d.digits / 10, d.exponent + 1⟩
      else d

/-- The shortest decimal that reads back as `mantissa * 2 ^ exponent`. -/
def shortest (tieUp : Bool) (mantissa : Nat) (exponent : Int) : Decimal :=
  if mantissa = 0 then ⟨0, 0⟩
  else
    let v := Neighbourhood.of mantissa exponent
    match (List.range' 1 17).findSome? (v.withDigits? tieUp) with
    | some d => trimZeros 17 d
    | none => ⟨0, 0⟩

end QoreSyntax.Decimal

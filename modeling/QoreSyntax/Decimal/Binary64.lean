/-!
Binary floating-point numbers of 64 bits, as bit patterns, and the nearest of them to a decimal.

A finite number is `mantissa * 2 ^ exponent` with a mantissa below `2 ^ 53` and an exponent of at
least `-1074`. All arithmetic is on natural numbers and exact; the one rounding is to the nearest
number, and to the one with the even mantissa when two are equally near.
-/

namespace QoreSyntax

structure Decimal where
  digits : Nat
  exponent : Int
  deriving DecidableEq, Repr

def decimalLength (n : Nat) : Nat :=
  (Nat.toDigits 10 n).length

/-- The integer nearest to `numerator / denominator`, the even one of two. -/
def roundToEven (numerator denominator : Nat) : Nat :=
  let quotient := numerator / denominator
  let twice := 2 * (numerator % denominator)
  if twice < denominator then quotient
  else if denominator < twice then quotient + 1
  else quotient + quotient % 2

/-- A floating-point number by its bits: a sign, eleven bits of exponent and 52 of fraction. -/
structure Binary64 where
  bits : UInt64
  deriving DecidableEq, Repr

namespace Binary64

/-- What the bits of a number stand for. -/
inductive Value where
  | nan
  | infinite (negative : Bool)
  | finite (negative : Bool) (mantissa : Nat) (exponent : Int)
  deriving DecidableEq, Repr

/-- Reads the bits of a number. -/
def value (x : Binary64) : Value :=
  let n := x.bits.toNat
  let negative := decide (Nat.pow 2 63 ≤ n)
  let scale : Nat := n / Nat.pow 2 52 % Nat.pow 2 11
  let fraction : Nat := n % Nat.pow 2 52
  if scale = Nat.pow 2 11 - 1 then
    if fraction = 0 then .infinite negative else .nan
  else if scale = 0 then .finite negative fraction (-1074)
  else .finite negative (Nat.pow 2 52 + fraction) ((scale : Int) - 1075)

def infinity : Binary64 :=
  ⟨0x7ff0000000000000⟩

/-- The number nearest to `numerator / denominator`, both positive. With the quotient between
`2 ^ magnitude` and its double, the last place has the weight `2 ^ (magnitude - 52)`, but no less
than `2 ^ (-1074)`. A mantissa that is rounded up to `2 ^ 53` carries into the exponent. -/
def ofQuotient (numerator denominator : Nat) : Binary64 :=
  let estimate : Int := (Nat.log2 numerator : Int) - (Nat.log2 denominator : Int)
  let reaches : Bool :=
    if 0 ≤ estimate then decide (denominator * Nat.pow 2 estimate.toNat ≤ numerator)
    else decide (denominator ≤ numerator * Nat.pow 2 (-estimate).toNat)
  let magnitude := if reaches then estimate else estimate - 1
  let place := max (magnitude - 52) (-1074)
  let mantissa :=
    if 0 ≤ place then roundToEven numerator (denominator * Nat.pow 2 place.toNat)
    else roundToEven (numerator * Nat.pow 2 (-place).toNat) denominator
  let bits := (place + 1074).toNat * Nat.pow 2 52 + mantissa
  if bits < infinity.bits.toNat then ⟨bits.toUInt64⟩ else infinity

/-- The number nearest to a decimal. A power of ten is at least the same power of eight: so with an
exponent that is not negative a decimal of size `n` is at least `2 ^ n`, and with another one it is
below `2 ^ (n + 1)`. Beyond the largest number, or nearer to zero than to any other, it is not
worked out. -/
def ofDecimal (d : Decimal) : Binary64 :=
  let size := (Nat.log2 d.digits : Int) + 3 * d.exponent
  if d.digits = 0 ∨ size < -1075 then ⟨0⟩
  else if 0 ≤ d.exponent then
    if 1024 ≤ size then infinity else ofQuotient (d.digits * Nat.pow 10 d.exponent.toNat) 1
  else ofQuotient d.digits (Nat.pow 10 (-d.exponent).toNat)

end Binary64

end QoreSyntax

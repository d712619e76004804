import QoreSyntax.Decimal.Shortest

namespace QoreSyntax.Decimal

structure Format where
  /-- Of two shortest decimals that are equally near, take the greater one, not the even one. -/
  tieUp : Bool
  /-- The decimal magnitudes that are written without an exponent; `none` for all of them. -/
  positional : Option (Int × Int)
  pointZero : Bool
  infinite : Bool → String
  nan : String

/-- The decimal written without an exponent. -/
def positionalText (pointZero : Bool) (d : Decimal) : String :=
  let digits := Nat.toDigits 10 d.digits
  let whole := (digits.length : Int) + d.exponent
  if 0 ≤ d.exponent then
    String.ofList (digits ++ List.replicate d.exponent.toNat '0')
      ++ (if pointZero then ".0" else "")
  else if 0 < whole then
    String.ofList (digits.take whole.toNat) ++ "." ++ String.ofList (digits.drop whole.toNat)
  else "0." ++ String.ofList (List.replicate (-whole).toNat '0' ++ digits)

def exponentText (d : Decimal) : String :=
  let digits := Nat.toDigits 10 d.digits
  let magnitude := (digits.length : Int) - 1 + d.exponent
  let fraction := digits.drop 1
  String.ofList (digits.take 1) ++ (if fraction.isEmpty then "" else "." ++ String.ofList fraction)
    ++ (if magnitude < 0 then "e-" else "e+") ++ toString magnitude.natAbs

def Format.decimal (format : Format) (d : Decimal) : String :=
  match format.positional with
  | none => positionalText format.pointZero d
  | some (low, high) =>
      let magnitude := (decimalLength d.digits : Int) - 1 + d.exponent
      if low ≤ magnitude ∧ magnitude ≤ high then positionalText format.pointZero d
      else exponentText d

def Format.number (format : Format) (x : Binary64) : String :=
  match x.value with
  | .nan => format.nan
  | .infinite negative => format.infinite negative
  | .finite negative mantissa exponent =>
      (if negative then "-" else "") ++ format.decimal (shortest format.tieUp mantissa exponent)

end QoreSyntax.Decimal

import QoreSyntax.Text.Alphabetic
import QoreSyntax.Text.Numeric
import QoreSyntax.Token.Lexeme.Enclosed

namespace QoreSyntax.Token

def isNameChar (c : Char) : Bool :=
  Text.isAlphabetic c || Text.isNumeric c || c == '_'

def nameGoesOn (text : List Char) : Bool :=
  text.head?.any isNameChar

def leadingDigits (text : List Char) : List Char :=
  text.takeWhile Char.isDigit

/-- The fraction with which the text begins: a point and at least one digit. -/
def fraction : List Char → List Char
  | '.' :: cs => if (leadingDigits cs).isEmpty then [] else '.' :: leadingDigits cs
  | _ => []

/-- The exponent with which the text begins: an `e` in either case, perhaps a sign, and at least one
digit. -/
def exponent : List Char → List Char
  | [] => []
  | e :: cs =>
      if e == 'e' || e == 'E' then
        let sign := (cs.take 1).filter fun c => c == '+' || c == '-'
        let digits := leadingDigits (cs.drop sign.length)
        if digits.isEmpty then [] else e :: (sign ++ digits)
      else []

def exponentBound : Nat := Nat.pow 2 16

/-- The size of the exponent with the given digits. They are read only as long as the value is below
the bound, so that the exponent of a number stays small however many digits it has. -/
def exponentSize (digits : List Char) : Nat :=
  digits.foldl (fun size c => if size < exponentBound then size * 10 + digitValue c else size) 0

def exponentValue : List Char → Int
  | _ :: '-' :: digits => -(exponentSize digits : Int)
  | _ :: '+' :: digits => exponentSize digits
  | _ :: digits => exponentSize digits
  | [] => 0

def pairBefore (mark : Char) : List Char → Bool
  | a :: b :: c :: _ => a.isDigit && b.isDigit && c == mark
  | _ => false

def monthAndDayFollow : List Char → Bool
  | '-' :: cs => pairBefore '-' cs && ((cs.drop 3).take 2).length == 2
      && ((cs.drop 3).take 2).all Char.isDigit
  | _ => false

def clock (text : List Char) : List Char :=
  text.takeWhile fun c => c.isDigit || c == ':'

def zoneLength : List Char → Nat
  | 'Z' :: _ => 1
  | sign :: cs =>
      if (sign == '+' || sign == '-') && pairBefore ':' cs then 1 + (clock cs).length else 0
  | [] => 0

/-- The length of the time of day with which the text begins: the letter `T` or a hyphen, the time
and perhaps a time zone. -/
def timeLength : List Char → Nat
  | [] => 0
  | mark :: cs =>
      if (mark == 'T' || mark == '-') && pairBefore ':' cs then
        let rest := cs.drop (clock cs).length
        let parts := fraction rest
        1 + (clock cs).length + parts.length + zoneLength (rest.drop parts.length)
      else 0

/-- The date with which the text begins: a year of four digits, month and day, and perhaps a time of
day. -/
def absoluteDate (text : List Char) : Lexeme :=
  let day := 8 + (leadingDigits (text.drop 8)).length
  let length := day + timeLength (text.drop day)
  ⟨.date (String.ofList (text.take length)), length⟩

def durationUnits : List (List Char) :=
  [['m', 's'], ['u', 's'], ['Y'], ['M'], ['D'], ['h'], ['m'], ['s']]

def durationUnit? (text : List Char) : Option (List Char) :=
  (durationUnits.find? (·.isPrefixOf text)).filter fun unit =>
    !nameGoesOn (text.drop unit.length)

/-- The integer of the given value, as long as it fits into 63 bits. -/
def integerKind (value : Nat) (spelling : List Char) : Kind :=
  if value < Nat.pow 2 63 then .integer value else .invalid (.integerRange (String.ofList spelling))

def hexadecimal (rest : List Char) : Lexeme :=
  let digits := rest.takeWhile isHexDigit
  if digits.isEmpty then ⟨.invalid .missingDigits, 2⟩
  else ⟨integerKind (numberOf 16 digits) ('0' :: 'x' :: digits), 2 + digits.length⟩

def decimal (text : List Char) : Lexeme :=
  let whole := leadingDigits text
  let places := fraction (text.drop whole.length)
  let power := exponent (text.drop (whole.length + places.length))
  let length := whole.length + places.length + power.length
  let rest := text.drop length
  let spelling := whole ++ places ++ (if power.isEmpty then [] else 'e' :: power.drop 1)
  if rest.head? == some 'n' && !nameGoesOn (rest.drop 1) then
    ⟨.number (String.ofList spelling), length + 1⟩
  else if places.isEmpty && power.isEmpty then
    match durationUnit? rest with
    | some unit => ⟨.date (String.ofList (whole ++ unit)), length + unit.length⟩
    | none => ⟨integerKind (numberOf 10 whole) whole, length⟩
  else
    let digits := numberOf 10 (whole ++ places.drop 1)
    let scale := exponentValue power - ((places.drop 1).length : Int)
    ⟨.float (Binary64.ofDecimal ⟨digits, scale⟩), length⟩

def numeral (text : List Char) : Lexeme :=
  let hex := text.head? == some '0' && (text.drop 1).head?.any (fun c => c == 'x' || c == 'X')
  if hex then hexadecimal (text.drop 2)
  else
    let year := leadingDigits text
    if year.length == 4 && monthAndDayFollow (text.drop 4) then absoluteDate text
    else decimal text

end QoreSyntax.Token

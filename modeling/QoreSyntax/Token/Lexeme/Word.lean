import QoreSyntax.Text.Whitespace
import QoreSyntax.Token.Lexeme.Numeral

namespace QoreSyntax.Token

def beginsName (c : Char) : Bool :=
  Text.isAlphabetic c || c == '_'

/-- The name with which the text begins, given that its first character may begin one. -/
def leadingName (text : List Char) : List Char :=
  text.takeWhile isNameChar

def word (text : List Char) : Lexeme :=
  let name := leadingName text
  let spelling := String.ofList name
  match Keyword.ofWord? spelling with
  | some keyword => ⟨.keyword keyword, name.length⟩
  | none => ⟨.identifier spelling, name.length⟩

/-- The greatest number of an implicit argument; greater ones are read as this. -/
def maxImplicitArg : Nat :=
  Nat.pow 2 32 - 1

/-- The number of the implicit argument with the given digits. Neither of the two steps for a digit
goes beyond the greatest number. -/
def implicitArgOf (digits : List Char) : Nat :=
  digits.foldl
    (fun index c => min (min (index * 10) maxImplicitArg + digitValue c) maxImplicitArg) 0

def dollarForm (rest : List Char) : Lexeme :=
  match rest with
  | [] => ⟨.invalid .missingVariable, 1⟩
  | c :: cs =>
      if c == '#' then ⟨.implicitIndex, 2⟩
      else if c.isDigit then
        let digits := leadingDigits rest
        ⟨.implicitArg (implicitArgOf digits), 1 + digits.length⟩
      else if c == '.' && cs.head?.any beginsName then
        let name := leadingName cs
        ⟨.selfMember (String.ofList name), 2 + name.length⟩
      else if beginsName c then
        let name := leadingName rest
        ⟨.variable (String.ofList name), 1 + name.length⟩
      else ⟨.invalid .missingVariable, 1⟩

def isDirectiveChar (c : Char) : Bool :=
  c.isAlphanum || c == '-' || c == '_'

/-- The directive whose percent sign is followed by `rest`. It takes the rest of its line but for
the white space at the end. -/
def directive (rest : List Char) : Lexeme :=
  let name := rest.takeWhile isDirectiveChar
  let line := (rest.drop name.length).takeWhile (!isLineEnd ·)
  ⟨.directive (String.ofList name) (String.ofList (Text.trim line)),
    1 + name.length + (Text.trimEnd line).length⟩

def tokenMarks : List Char :=
  ['"', '\'', '\x60', '$', '#', '%', '(', ')', '\x7b', '\x7d', '[', ']', ';', ',', ':', '.', '?',
   '+', '-', '*', '/', '=', '<', '>', '!', '&', '|', '^', '~', '\\']

def isUnexpected (c : Char) : Bool :=
  !(isNameChar c || Text.isWhitespace c || tokenMarks.contains c)

def unexpected (text : List Char) : Lexeme :=
  let run := text.takeWhile isUnexpected
  let taken := if run.isEmpty then text.take 1 else run
  ⟨.invalid (.unexpected (String.ofList taken)), taken.length⟩

end QoreSyntax.Token

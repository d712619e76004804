import QoreSyntax.Source.Cursor
import QoreSyntax.Token.Lexeme.Basic

/-!
Literals between an opening and a closing mark: strings in double and in single quotes, commands in
backquotes, and regular expressions.

Where a backslash has a meaning it protects the character after it, so that a protected mark closes
nothing. A literal that is never closed ends before the first line end that is not protected, so
that reading goes on with the next line; without such a line end it takes all that is left.
-/

namespace QoreSyntax.Token

/-- The number of characters before the first mark `close` that is not protected, and `count`
more. -/
def closing? (close : Char) (escapes : Bool) (count : Nat) : List Char → Option Nat
  | [] => none
  | c :: cs =>
      if c == close then some count
      else if escapes && c == '\\' then
        match cs with
        | [] => none
        | _ :: rest => closing? close escapes (count + 2) rest
      else closing? close escapes (count + 1) cs

/-- The number of characters before the first line end that is not protected, or of all
characters, and `count` more. -/
def lineLength (escapes : Bool) (count : Nat) : List Char → Nat
  | [] => count
  | c :: cs =>
      if isLineEnd c then count
      else if escapes && c == '\\' then
        match cs with
        | [] => count + 1
        | _ :: rest => lineLength escapes (count + 2) rest
      else lineLength escapes (count + 1) cs

/-- The literal that nothing closes. Its opening mark has `opening` characters, and `rest` comes
after it. -/
def unterminated (enclosure : Enclosure) (escapes : Bool) (opening : Nat) (rest : List Char) :
    Lexeme :=
  ⟨.invalid (.unterminated enclosure), opening + lineLength escapes 0 rest⟩

def isOctalDigit (c : Char) : Bool :=
  decide ('0' ≤ c) && decide (c ≤ '7')

def isHexDigit (c : Char) : Bool :=
  c.isDigit || (decide ('a' ≤ c) && decide (c ≤ 'f')) || (decide ('A' ≤ c) && decide (c ≤ 'F'))

def digitValue (c : Char) : Nat :=
  if c.isDigit then c.toNat - '0'.toNat
  else if 'a' ≤ c then c.toNat - 'a'.toNat + 10
  else c.toNat - 'A'.toNat + 10

def numberOf (base : Nat) (digits : List Char) : Nat :=
  digits.foldl (fun value c => value * base + digitValue c) 0

/-- The character that a letter or mark stands for after a backslash. -/
def mnemonic? : Char → Option Char
  | 'n' => some '\n'
  | 't' => some '\t'
  | 'r' => some '\r'
  | 'b' => some '\x08'
  | 'f' => some '\x0c'
  | 'v' => some '\x0b'
  | 'a' => some '\x07'
  | '\\' => some '\\'
  | '"' => some '"'
  | '$' => some '$'
  | _ => none

/-- What a backslash in double quotes stands for together with the text after it, and how many
characters of that text it takes: a mnemonic, up to three octal digits, or `x` with up to two
hexadecimal digits. Any other backslash stands for itself. -/
def escape : List Char → List Char × Nat
  | [] => (['\\'], 0)
  | c :: cs =>
      match mnemonic? c with
      | some d => ([d], 1)
      | none =>
          let octal := ((c :: cs).take 3).takeWhile isOctalDigit
          let hex := (cs.take 2).takeWhile isHexDigit
          if octal ≠ [] then ([Char.ofNat (numberOf 8 octal)], octal.length)
          else if c == 'x' && !hex.isEmpty then
            ([Char.ofNat (numberOf 16 hex)], hex.length + 1)
          else (['\\', c], 1)

/-- The string that is written as `body` in double quotes. The first `skip` characters belong to an
escape that has been read before. -/
def unescapeDouble : (skip : Nat) → (body : List Char) → List Char
  | _, [] => []
  | skip + 1, _ :: cs => unescapeDouble skip cs
  | 0, c :: cs =>
      if c == '\\' then
        let (value, length) := escape cs
        value ++ unescapeDouble length cs
      else c :: unescapeDouble 0 cs

/-- The string that is written as `body` in single quotes, where a backslash has a meaning only
before a single quote or a backslash. -/
def unescapeSingle : (body : List Char) → List Char
  | [] => []
  | c :: cs =>
      if c == '\\' then
        match cs with
        | [] => [c]
        | d :: rest =>
            if d == '\'' || d == '\\' then d :: unescapeSingle rest
            else c :: d :: unescapeSingle rest
      else c :: unescapeSingle cs

def doubleQuoted (rest : List Char) : Lexeme :=
  match closing? '"' true 0 rest with
  | none => unterminated .string true 1 rest
  | some n => ⟨.string (String.ofList (unescapeDouble 0 (rest.take n))), n + 2⟩

def singleQuoted (rest : List Char) : Lexeme :=
  match closing? '\'' true 0 rest with
  | none => unterminated .string false 1 rest
  | some n => ⟨.string (String.ofList (unescapeSingle (rest.take n))), n + 2⟩

def backquoted (rest : List Char) : Lexeme :=
  match closing? '\x60' false 0 rest with
  | none => unterminated .backquote false 1 rest
  | some n => ⟨.backquote (String.ofList (rest.take n)), n + 2⟩

/-- The purpose of the regular expression with which the text begins, and the number of characters
of its opening mark. -/
def regexOpening? : List Char → Option (Regex.Purpose × Nat)
  | '/' :: _ => some (.match, 1)
  | 'm' :: '/' :: _ => some (.match, 2)
  | 's' :: '/' :: _ => some (.substitute, 2)
  | 'x' :: '/' :: _ => some (.extract, 2)
  | 't' :: 'r' :: '/' :: _ => some (.transliterate, 3)
  | _ => none

/-- The regular expression whose opening mark has `opening` characters and is followed by `rest`.
Its flags are the letters after the last mark. -/
def regexLiteral (purpose : Regex.Purpose) (opening : Nat) (rest : List Char) : Lexeme :=
  let finish (pattern : List Char) (replacement : Option (List Char)) (length : Nat) : Lexeme :=
    let flags := (rest.drop length).takeWhile Char.isAlpha
    ⟨.regex ⟨purpose, String.ofList pattern, replacement.map String.ofList, String.ofList flags⟩,
      opening + length + flags.length⟩
  match closing? '/' true 0 rest with
  | none => unterminated .regex true opening rest
  | some n =>
      if purpose.hasReplacement then
        let second := rest.drop (n + 1)
        match closing? '/' true 0 second with
        | none => unterminated .regex true opening rest
        | some k => finish (rest.take n) (some (second.take k)) (n + k + 2)
      else finish (rest.take n) none (n + 1)

end QoreSyntax.Token

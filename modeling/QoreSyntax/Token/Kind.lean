import QoreSyntax.Decimal.Binary64
import QoreSyntax.Token.Fault
import QoreSyntax.Token.Keyword
import QoreSyntax.Token.Symbol

namespace QoreSyntax

inductive Regex.Purpose where
  | match | substitute | extract | transliterate
  deriving DecidableEq, Repr

def Regex.Purpose.hasReplacement : Regex.Purpose → Bool
  | .substitute | .transliterate => true
  | .match | .extract => false

structure Regex where
  purpose : Regex.Purpose
  pattern : String
  replacement : Option String
  flags : String
  deriving DecidableEq, Repr

namespace Token

inductive Kind where
  | identifier (name : String)
  | variable (name : String)
  | selfMember (name : String)
  | implicitArg (index : Nat)
  | implicitIndex
  | keyword (word : Keyword)
  | integer (value : Nat)
  | float (value : Binary64)
  /-- A number of any precision, as written but for the letter `n` at its end. -/
  | number (text : String)
  | string (value : String)
  | date (text : String)
  | backquote (text : String)
  | regex (value : Regex)
  | directive (name argument : String)
  | symbol (symbol : Symbol)
  | invalid (fault : Fault)
  | eof
  deriving DecidableEq, Repr

inductive Category where
  | identifier | keyword | literal | operator | punctuation | directive | invalid | endOfInput
  deriving DecidableEq, Repr

namespace Kind

def category : Kind → Category
  | .identifier _ | .variable _ | .selfMember _ | .implicitArg _ | .implicitIndex => .identifier
  | .keyword _ => .keyword
  | .integer _ | .float _ | .number _ | .string _ | .date _ | .backquote _ | .regex _ => .literal
  | .directive _ _ => .directive
  | .symbol s => if s.isPunctuation then .punctuation else .operator
  | .invalid _ => .invalid
  | .eof => .endOfInput

def symbol? : Kind → Option String
  | .symbol s => some s.spelling
  | _ => none

def describe : Kind → String
  | .identifier name => "identifier '" ++ name ++ "'"
  | .variable name => "variable '$" ++ name ++ "'"
  | .selfMember name => "member reference '$." ++ name ++ "'"
  | .implicitArg index => "implicit argument '$" ++ toString index ++ "'"
  | .implicitIndex => "'$#'"
  | .keyword word => "keyword '" ++ word.spelling ++ "'"
  | .integer _ | .float _ | .number _ => "number literal"
  | .string _ => "string literal"
  | .date _ => "date literal"
  | .backquote _ => "backquote expression"
  | .regex _ => "regular expression"
  | .directive name _ => "directive '%" ++ name ++ "'"
  | .symbol s => "'" ++ s.spelling ++ "'"
  | .invalid _ => "invalid token"
  | .eof => "end of input"

end Kind

end Token

end QoreSyntax

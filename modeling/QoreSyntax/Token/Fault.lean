namespace QoreSyntax

inductive Enclosure where
  | string | backquote | regex | comment
  deriving DecidableEq, Repr

def Enclosure.name : Enclosure → String
  | .string => "string literal"
  | .backquote => "backquote expression"
  | .regex => "regular expression"
  | .comment => "block comment"

inductive Fault where
  | unterminated (enclosure : Enclosure)
  | missingVariable
  | missingDigits
  /-- The integer with this spelling does not fit into 63 bits. -/
  | integerRange (spelling : String)
  | unexpected (text : String)
  deriving DecidableEq, Repr

def Fault.message : Fault → String
  | .unterminated enclosure => "Unterminated " ++ enclosure.name
  | .missingVariable => "Expected a variable name after '$'"
  | .missingDigits => "Hexadecimal literal has no digits"
  | .integerRange spelling => "Integer literal out of range: " ++ spelling
  | .unexpected text =>
      (if text.length = 1 then "Unexpected character: '" else "Unexpected characters: '") ++ text
        ++ "'"

end QoreSyntax

import QoreSyntax.Token.Gap
import QoreSyntax.Token.Lexeme.Word

/-!
The first token of a text. Two facts about the tokens before it matter: whether it is the first one
of its line, for only there a directive may begin, and whether it comes directly after a match
operator, for only there a regular expression may begin.
-/

namespace QoreSyntax.Token

def opensDirective : List Char → Bool
  | '%' :: c :: _ => c.isAlpha
  | _ => false

def plainLexeme (lineStart : Bool) (text : List Char) : Lexeme :=
  match text with
  | [] => ⟨.eof, 0⟩
  | c :: rest =>
      if c == '"' then doubleQuoted rest
      else if c == '\'' then singleQuoted rest
      else if c == '\x60' then backquoted rest
      else if c == '$' then dollarForm rest
      else if lineStart && opensDirective text then directive rest
      else if c.isDigit then numeral text
      else if beginsName c then word text
      else
        match Symbol.leading? text with
        | some symbol => ⟨.symbol symbol, symbol.characters.length⟩
        | none => unexpected text

/-- The token with which a text begins that does not begin with a gap. At the end of the text it is
the end marker, which takes no character. -/
def leadingLexeme (lineStart afterMatch : Bool) (text : List Char) : Lexeme :=
  if opensComment text then unterminated .comment false 2 (text.drop 2)
  else
    match if afterMatch then regexOpening? text else none with
    | some (purpose, opening) => regexLiteral purpose opening (text.drop opening)
    | none => plainLexeme lineStart text

end QoreSyntax.Token

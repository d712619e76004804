import QoreSyntax.Token.Kind

namespace QoreSyntax.Token

structure Lexeme where
  kind : Kind
  length : Nat
  deriving DecidableEq, Repr

end QoreSyntax.Token

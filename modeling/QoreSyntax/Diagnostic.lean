import QoreSyntax.Token.Reader

namespace QoreSyntax

inductive Wanted where
  | symbol (symbol : Symbol)
  | keyword (word : Keyword)
  | commaOr (closing : Symbol)
  | bodyOrSemicolon
  | caseOrDefault
  | expression
  | typeName
  | variableName
  | memberName
  | parameterName
  | namespaceName
  | className
  | superclassName
  | baseClassName
  | hashdeclName
  | constantName
  | functionName
  | methodName
  | classMember
  | declaration
  deriving DecidableEq, Repr

def Wanted.describe : Wanted → String
  | .symbol mark => "'" ++ mark.spelling ++ "'"
  | .keyword word => "'" ++ word.spelling ++ "'"
  | .commaOr closing => "',' or '" ++ closing.spelling ++ "'"
  | .bodyOrSemicolon => "'\x7b' or ';'"
  | .caseOrDefault => "'case' or 'default'"
  | .expression => "expression"
  | .typeName => "type name"
  | .variableName => "variable name"
  | .memberName => "member name"
  | .parameterName => "parameter name"
  | .namespaceName => "namespace name"
  | .className => "class name"
  | .superclassName => "superclass name"
  | .baseClassName => "base class name"
  | .hashdeclName => "hashdecl name"
  | .constantName => "constant name"
  | .functionName => "function name"
  | .methodName => "method name"
  | .classMember => "class member"
  | .declaration => "declaration after modifiers"

inductive Problem where
  | expected (wanted : Wanted) (found : Token.Kind)
  | unexpected (found : Token.Kind)
  | unmatchedBrace
  | tooDeep (limit : Nat)
  deriving DecidableEq, Repr

def Problem.message : Problem → String
  | .expected wanted found => "Expected " ++ wanted.describe ++ ", found " ++ found.describe
  | .unexpected found => "Unexpected " ++ found.describe
  | .unmatchedBrace => "Unmatched '\x7d'"
  | .tooDeep limit => "Nesting is too deep (maximum " ++ toString limit ++ " levels)"

inductive Cause where
  | lexical (fault : Fault)
  | syntactic (problem : Problem)
  deriving DecidableEq, Repr

def Cause.message : Cause → String
  | .lexical fault => fault.message
  | .syntactic problem => problem.message

structure Diagnostic where
  cause : Cause
  range : Range
  deriving DecidableEq, Repr

namespace Diagnostic

def message (d : Diagnostic) : String :=
  d.cause.message

def ofLexicalError (e : LexicalError) : Diagnostic :=
  ⟨.lexical e.fault, e.range⟩

def text (d : Diagnostic) : String :=
  "Parse error at line " ++ toString d.range.start.line ++ ", column "
    ++ toString d.range.start.column ++ ": " ++ d.message

end Diagnostic

end QoreSyntax

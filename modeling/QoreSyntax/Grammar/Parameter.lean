import QoreSyntax.Grammar.Name

namespace QoreSyntax.Grammar

/-- The node that a parser reads, as the only one of a list. -/
def single (item : Parser Node) : Parser (List Node) := do
  let node ← item
  return [node]

def optionally (condition : Bool) (parser : Parser (List Node)) : Parser (List Node) :=
  if condition then parser else return []

def initialiser : Parser (List Node) := do
  optionally (← eat .assign) (single expression)

def State.isUntypedParameter (s : State) : Bool :=
  isVariableName s.kind &&
    match s.kindAt 1 with
    | .symbol .comma | .symbol .rParen | .symbol .assign => true
    | _ => false

def parameter : Parser Node := do
  let m ← mark
  if ← eat .ellipsis then close m .param (.name "...") []
  else
    let types ← optionally (!(← state).isUntypedParameter) (single type)
    let name ← variableName? .parameterName
    let value ← initialiser
    close m .param (namePayload name) (types ++ value)

def parameters : Parser Node := do
  let m ← mark
  if ← expect .lParen then
    let items ← optionally (!(← state).isAt .rParen) (commaList parameter)
    expectClosing .rParen
    close m .paramList .none items
  else close m .paramList .none []

/-- The arguments of a call, in parentheses. The last one may be followed by a comma. -/
def arguments : Parser Node := do
  let m ← mark
  if ← expect .lParen then
    let items ← separated (fun s => s.isAt .rParen || s.isAtEnd) expression
    expectClosing .rParen
    close m .argList .none items
  else close m .argList .none []

def resultType : Parser (List Node) := do
  optionally (← eatKeyword .returns) (single type)

end QoreSyntax.Grammar

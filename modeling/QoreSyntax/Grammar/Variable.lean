import QoreSyntax.Grammar.Parameter

namespace QoreSyntax.Grammar

def variableType : Parser (List Node) := do
  optionally (← state).isTypedVariable (single type)

def variableModifier : Parser (List Node) := do
  match (← state).kind with
  | .keyword word =>
      if word == .my || word == .our then
        let m ← mark
        let _ ← advance
        single (close m .modifier (.name word.spelling) [])
      else return []
  | _ => return []

def declarator : Parser Node := do
  let m ← mark
  let types ← variableType
  let name ← variableName? .variableName
  close m .varDecl (namePayload name) types

def declaratorList : Parser (List Node) := do
  let _ ← advance
  let items ← commaList declarator
  expectClosing .rParen
  return items

/-- What is declared: the name, if there is only one variable, and the types or variables. -/
def declared : Parser (Option String × List Node) := do
  if (← state).isAt .lParen then
    let items ← declaratorList
    return (none, items)
  else
    let types ← variableType
    let name ← variableName? .variableName
    return (name, types)

def endOfDeclaration (isStatement : Bool) : Parser Unit := do
  if isStatement then
    let _ ← expect .semicolon

/-- A declaration of variables, perhaps with a value. Where it is a statement, a semicolon
follows. -/
def variableDeclaration (isStatement : Bool) : Parser Node := do
  let m ← mark
  let modifier ← variableModifier
  let (name, parts) ← declared
  let value ← initialiser
  endOfDeclaration isStatement
  close m .varDecl (namePayload name) (modifier ++ parts ++ value)

end QoreSyntax.Grammar

import QoreSyntax.Grammar.Declaration
import QoreSyntax.Grammar.Expression

namespace QoreSyntax.Grammar

def condition : Parser Node := do
  let _ ← expect .lParen
  let node ← expression
  let _ ← expect .rParen
  return node

/-- A branch, which may have an alternative. -/
def ifStatement : Parser Node := do
  let m ← mark
  let _ ← advance
  let test ← condition
  let branch ← statement
  let alternative ← optionally (← eatKeyword .else) (single statement)
  close m .if .none (test :: branch :: alternative)

def whileStatement : Parser Node := do
  let m ← mark
  let _ ← advance
  let test ← condition
  let code ← statement
  close m .while .none [test, code]

def doStatement : Parser Node := do
  let m ← mark
  let _ ← advance
  let code ← statement
  expectKeyword .while
  let test ← condition
  let _ ← expect .semicolon
  close m .doWhile .none [code, test]

def optionalClause (closing : Symbol) (clause : Parser Node) : Parser Node := do
  if (← state).isAt closing then placeholder .empty else clause

def forClause (closing : Symbol) (clause : Parser Node) : Parser Node := do
  let node ← optionalClause closing clause
  let _ ← expect closing
  return node

def variableOrExpression : Parser Node := do
  if (← state).isVariable then variableDeclaration false else expression

def forStatement : Parser Node := do
  let m ← mark
  let _ ← advance
  let _ ← expect .lParen
  let start ← forClause .semicolon variableOrExpression
  let test ← forClause .semicolon expression
  let step ← forClause .rParen expression
  let code ← statement
  close m .for .none [start, test, step, code]

def foreachStatement : Parser Node := do
  let m ← mark
  let _ ← advance
  let item ← variableOrExpression
  expectKeyword .in
  let items ← condition
  let code ← statement
  close m .foreach .none [item, items, code]

def isCaseOperator : Symbol → Bool
  | .lt | .gt | .lte | .gte | .eqEq | .notEq | .match | .noMatch => true
  | _ => false

def caseOperator : Parser Payload := do
  match (← state).kind with
  | .symbol symbol =>
      if isCaseOperator symbol then
        let _ ← advance
        return .operator symbol.spelling
      else return .none
  | _ => return .none

def caseArm : Parser Node := do
  let m ← mark
  let _ ← advance
  let payload ← caseOperator
  let value ← expression
  let _ ← expect .colon
  let code ← sequence .caseArm statement
  close m .case payload (value :: code)

def defaultArm : Parser Node := do
  let m ← mark
  let _ ← advance
  let _ ← expect .colon
  let code ← sequence .caseArm statement
  close m .default .none code

def skipToArm : Parser Unit := do
  let before ← state
  reportExpected .caseOrDefault
  synchronize
  if (← state).consumed == before.consumed then
    let _ ← advance

def armStep (arms : List Node) : Parser (Step (List Node)) := do
  let s ← state
  if s.isAtEnd || s.isAt .rBrace then return .done arms
  else if s.isAtKeyword .case then
    let arm ← caseArm
    return .again (arm :: arms)
  else if s.isAtKeyword .default then
    let arm ← defaultArm
    return .again (arm :: arms)
  else
    skipToArm
    return .again arms

def switchArms : Parser (List Node) := do
  if ← expect .lBrace then
    let arms ← loop armStep []
    let _ ← expect .rBrace
    return arms.reverse
  else return []

def switchStatement : Parser Node := do
  let m ← mark
  let _ ← advance
  let value ← condition
  let arms ← switchArms
  close m .switch .none (value :: arms)

def catchClause : Parser Node := do
  if (← state).isAtKeyword .catch then
    let m ← mark
    let _ ← advance
    let _ ← expect .lParen
    let params ← optionally (!(← state).isAt .rParen) (single parameter)
    let _ ← expect .rParen
    let code ← block
    close m .catch .none (params ++ [code])
  else
    reportExpected (.keyword .catch)
    missing

def tryStatement : Parser Node := do
  let m ← mark
  let _ ← advance
  let code ← block
  let handler ← catchClause
  close m .try .none [code, handler]

/-- A statement of a reserved word and a list of expressions, which may be left out unless
`isRequired` holds. -/
def jumpStatement (kind : Node.Kind) (isRequired : Bool) : Parser Node := do
  let m ← mark
  let _ ← advance
  let values ← optionally (isRequired || !(← state).isAt .semicolon) (single expressionList)
  let _ ← expect .semicolon
  close m kind .none values

def bareStatement (kind : Node.Kind) : Parser Node := do
  let m ← mark
  let _ ← advance
  let _ ← expect .semicolon
  close m kind .none []

def guardStatement (kind : Node.Kind) : Parser Node := do
  let m ← mark
  let _ ← advance
  let code ← statement
  close m kind .none [code]

def emptyStatement : Parser Node := do
  let m ← mark
  let _ ← advance
  close m .empty .none []

def directiveLine (name argument : String) : Parser Node := do
  let m ← mark
  let _ ← advance
  close m .directive (.directive name argument) []

def expressionStatement : Parser Node := do
  let m ← mark
  let node ← expression
  let _ ← expect .semicolon
  close m .exprStatement .none [node]

def openStatement : Parser Node := do
  let s ← state
  if s.isDeclaration then declaration
  else if s.isTypedVariable then variableDeclaration true
  else expressionStatement

def wordStatement : Keyword → Parser Node
  | .if => ifStatement
  | .while => whileStatement
  | .do => doStatement
  | .for => forStatement
  | .foreach => foreachStatement
  | .switch => switchStatement
  | .try => tryStatement
  | .throw => jumpStatement .throw true
  | .return => jumpStatement .return false
  | .rethrow => jumpStatement .rethrow false
  | .break => bareStatement .break
  | .continue => bareStatement .continue
  | .threadExit => bareStatement .threadExit
  | .onExit => guardStatement .onExit
  | .onSuccess => guardStatement .onSuccess
  | .onError => guardStatement .onError
  | .my | .our => variableDeclaration true
  | _ => openStatement

def statementRule : Parser Node := do
  match (← state).kind with
  | .symbol .lBrace => block
  | .symbol .semicolon => emptyStatement
  | .directive name argument => directiveLine name argument
  | .keyword word => wordStatement word
  | _ => openStatement

end QoreSyntax.Grammar

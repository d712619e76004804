import QoreSyntax.Grammar.Sequence
import QoreSyntax.Grammar.Variable

namespace QoreSyntax.Grammar

def modifierScope (word : Keyword) : Parser String := do
  let s ← state
  match word, s.kind, s.kindAt 1 with
  | .private, .symbol .colon, .identifier scope =>
      let _ ← advance
      let _ ← advance
      return ":" ++ scope
  | _, _, _ => return ""

def modifierStep (modifiers : List Node) : Parser (Step (List Node)) := do
  match (← state).kind with
  | .keyword word =>
      if word.isModifier then
        let m ← mark
        let _ ← advance
        let scope ← modifierScope word
        let node ← close m .modifier (.name (word.spelling ++ scope)) []
        return .again (node :: modifiers)
      else return .done modifiers
  | _ => return .done modifiers

def modifiers : Parser (List Node) := do
  let nodes ← loop modifierStep []
  return nodes.reverse

/-- The body of a function or method; a semicolon stands for none. -/
def body : Parser (List Node) := do
  if (← state).isAt .lBrace then single block
  else if ← eat .semicolon then return []
  else
    reportExpected .bodyOrSemicolon
    single missing

def function (m : Mark) (modifiers : List Node) : Parser Node := do
  let types ← optionally (!(← state).isAtKeyword .sub) (single type)
  expectKeyword .sub
  let name ← identifier? .functionName
  let params ← parameters
  let result ← resultType
  let code ← body
  close m .function (namePayload name) (modifiers ++ types ++ params :: result ++ code)

def constantValue : Parser Node := do
  if ← expect .assign then expression else missing

def constant (m : Mark) (modifiers : List Node) : Parser Node := do
  let _ ← advance
  let name ← scopedName? .constantName
  let value ← constantValue
  let _ ← expect .semicolon
  close m .constant (namePayload name) (modifiers ++ [value])

def field (m : Mark) (modifiers : List Node) : Parser Node := do
  let types ← variableType
  let name ← variableName? .memberName
  let value ← initialiser
  let _ ← expect .semicolon
  close m .field (namePayload name) (modifiers ++ types ++ value)

def baseCall : Parser Node := do
  let m ← mark
  let name ← scopedName? .baseClassName
  let values ← arguments
  close m .baseConstructorCall (namePayload name) [values]

def baseCalls : Parser (List Node) := do
  optionally (← eat .colon) (commaList baseCall)

def method (m : Mark) (modifiers : List Node) : Parser Node := do
  let types ← optionally ((← state).kindAt 1 != .symbol .lParen) (single type)
  let name ← identifier? .methodName
  let params ← parameters
  let result ← resultType
  let bases ← baseCalls
  let code ← body
  close m .method (namePayload name) (modifiers ++ types ++ params :: result ++ bases ++ code)

def blockMember : Parser Node := do
  let m ← mark
  let nodes ← modifiers
  if (← state).isAtKeyword .const then constant m nodes else field m nodes

def memberBlock : Parser Node := do
  let m ← mark
  let access ← modifiers
  let _ ← expect .lBrace
  let members ← braced blockMember
  close m .memberBlock (namePayload (access.getLast?.bind Node.name?)) members

def singleMember (m : Mark) (modifiers : List Node) : Parser Node := do
  let s ← state
  if s.isAtKeyword .const then constant m modifiers
  else if isIdentifier s.kind && s.kindAt 1 == .symbol .lParen then method m modifiers
  else if s.isTypedMethod then method m modifiers
  else if s.isTypedVariable then field m modifiers
  else
    reportExpected .classMember
    close m .error .none modifiers

def classMember : Parser Node := do
  if (← state).isMemberBlock then memberBlock
  else
    let m ← mark
    let nodes ← modifiers
    singleMember m nodes

def superclass : Parser Node := do
  let m ← mark
  let access ← modifiers
  let name ← scopedName? .superclassName
  close m .superclass (namePayload name) access

def inheritance : Parser (List Node) := do
  if (← state).isAtKeyword .inherits then
    let m ← mark
    let _ ← advance
    let classes ← commaList superclass
    single (close m .inheritanceList .none classes)
  else return []

/-- The items of a declaration in braces; a semicolon stands for none. -/
def itemsOrSemicolon (item : Parser Node) : Parser (List Node) := do
  if ← eat .semicolon then return []
  else optionally (← expect .lBrace) (braced item)

def classDeclaration (m : Mark) (modifiers : List Node) : Parser Node := do
  let _ ← advance
  let name ← scopedName? .className
  let bases ← inheritance
  let members ← itemsOrSemicolon classMember
  close m .class (namePayload name) (modifiers ++ bases ++ members)

def namespaceDeclaration (m : Mark) (modifiers : List Node) : Parser Node := do
  let _ ← advance
  let name ← scopedName? .namespaceName
  let items ← itemsOrSemicolon statement
  close m .namespace (namePayload name) (modifiers ++ items)

def hashField : Parser Node := do
  let m ← mark
  field m []

def hashDeclaration (m : Mark) (modifiers : List Node) : Parser Node := do
  let _ ← advance
  let name ← scopedName? .hashdeclName
  let fields ← optionally (← expect .lBrace) (braced hashField)
  close m .hashdecl (namePayload name) (modifiers ++ fields)

def declarationAfter (m : Mark) (modifiers : List Node) : Parser Node := do
  let s ← state
  match s.keyword? with
  | some .namespace => namespaceDeclaration m modifiers
  | some .class => classDeclaration m modifiers
  | some .hashdecl => hashDeclaration m modifiers
  | some .const => constant m modifiers
  | some .sub => function m modifiers
  | _ =>
      if s.isTypedFunction then function m modifiers
      else
        reportExpected .declaration
        close m .error .none modifiers

def declaration : Parser Node := do
  let m ← mark
  let nodes ← modifiers
  declarationAfter m nodes

end QoreSyntax.Grammar

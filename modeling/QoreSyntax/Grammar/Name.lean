import QoreSyntax.Grammar.Lookahead

namespace QoreSyntax.Grammar

def namePayload : Option String → Payload
  | some name => .name name
  | none => .none

def variableName? (wanted : Wanted) : Parser (Option String) := do
  match (← state).kind with
  | .identifier name | .variable name =>
      let _ ← advance
      return some name
  | _ =>
      reportExpected wanted
      return none

def identifier? (wanted : Wanted) : Parser (Option String) := do
  match (← state).kind with
  | .identifier name =>
      let _ ← advance
      return some name
  | _ =>
      reportExpected wanted
      return none

def optionalIdentifier : Parser String := do
  match (← state).kind with
  | .identifier name =>
      let _ ← advance
      return name
  | _ => return ""

def scopeStep (text : String) : Parser (Step String) := do
  let s ← state
  match s.kind, s.kindAt 1 with
  | .symbol .doubleColon, .identifier part =>
      let _ ← advance
      let _ ← advance
      return .again (text ++ "::" ++ part)
  | _, _ => return .done text

def scopedName : Parser String := do
  let root ← eat .doubleColon
  let first ← optionalIdentifier
  loop scopeStep ((if root then "::" else "") ++ first)

def scopedName? (wanted : Wanted) : Parser (Option String) := do
  match (← state).kind with
  | .identifier _ | .symbol .doubleColon =>
      let name ← scopedName
      return some name
  | _ =>
      reportExpected wanted
      return none

def typeName? : Parser (Option String) := do
  match (← state).kind with
  | .identifier _ | .symbol .doubleColon =>
      let name ← scopedName
      return some name
  | .keyword word =>
      if word.isBuiltinType then
        let _ ← advance
        return some word.spelling
      else
        reportExpected .typeName
        return none
  | _ =>
      reportExpected .typeName
      return none

def argumentsText (arguments : List Node) (closed : Bool) : String :=
  let names := arguments.map fun node => node.name?.getD ""
  "<" ++ ", ".intercalate names ++ (if closed then ">" else "")

def typeRule : Parser Node := do
  let m ← mark
  let star := if ← eat .star then "*" else ""
  match ← typeName? with
  | none => close m (if star.isEmpty then .missing else .type) (.name star) []
  | some name =>
      if ← eat .lt then
        let arguments ← commaList type
        let closed ← expectAngle
        close m .type (.name (star ++ name ++ argumentsText arguments closed)) arguments
      else close m .type (.name (star ++ name)) []

end QoreSyntax.Grammar

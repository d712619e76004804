import QoreSyntax.Grammar.Recovery

namespace QoreSyntax.Grammar

inductive Terminator where
  | endOfInput
  | brace
  | caseArm
  deriving DecidableEq, Repr

def Terminator.holds (terminator : Terminator) (s : State) : Bool :=
  s.isAtEnd ||
    match terminator with
    | .endOfInput => false
    | .brace => s.isAt .rBrace
    | .caseArm => s.isAt .rBrace || s.isAtKeyword .case || s.isAtKeyword .default

/-- Makes sure that a token has been taken since the state `before`. A token with which nothing
begins is passed over, and reported unless a report was made since. -/
def ensureProgress (before : State) : Parser Unit := do
  let s ← state
  if s.consumed == before.consumed then
    if s.reported.length == before.reported.length then report (.unexpected s.kind)
    let _ ← advance
    resume

def settle : Parser Unit := do
  if (← state).recovering then synchronize

def sequenceStep (terminator : Terminator) (item : Parser Node) (items : List Node) :
    Parser (Step (List Node)) := do
  let before ← state
  if terminator.holds before then return .done items
  else if before.isAt .rBrace then
    report .unmatchedBrace
    let _ ← advance
    resume
    return .again items
  else
    let node ← item
    let after ← state
    settle
    ensureProgress before
    return .again (if before.consumed < after.consumed then node :: items else items)

def sequence (terminator : Terminator) (item : Parser Node) : Parser (List Node) := do
  let items ← loop (sequenceStep terminator item) []
  return items.reverse

def braced (item : Parser Node) : Parser (List Node) := do
  let items ← sequence .brace item
  let _ ← expect .rBrace
  return items

def block : Parser Node := do
  let m ← mark
  if ← expect .lBrace then
    let items ← braced statement
    close m .block .none items
  else missing

end QoreSyntax.Grammar

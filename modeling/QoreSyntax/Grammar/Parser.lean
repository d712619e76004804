import QoreSyntax.Grammar.State

/-!
Parsers as programs. A parser is built from a few instructions that look at the tokens, take them
and report problems; one more instruction calls for a nested construct. What that construct is
follows from the rules of the grammar, and how deeply constructs may nest is no concern of a
parser: both are given when it is run.
-/

namespace QoreSyntax.Grammar

inductive Goal where
  | statement
  /-- An expression whose operators bind at least as tightly as `power`. -/
  | expression (power : Nat)
  | type
  deriving DecidableEq, Repr

inductive Parser (α : Type) where
  | done (result : α)
  | look (next : State → Parser α)
  | advance (next : Token → Parser α)
  /-- Takes the first half of the symbol `>>`. -/
  | splitShift (next : Parser α)
  | report (problem : Problem) (next : Parser α)
  | resume (next : Parser α)
  | call (goal : Goal) (next : Node → Parser α)

namespace Parser

def bind {α β : Type} : Parser α → (α → Parser β) → Parser β
  | .done result, f => f result
  | .look next, f => .look fun s => (next s).bind f
  | .advance next, f => .advance fun token => (next token).bind f
  | .splitShift next, f => .splitShift (next.bind f)
  | .report problem next, f => .report problem (next.bind f)
  | .resume next, f => .resume (next.bind f)
  | .call goal next, f => .call goal fun node => (next node).bind f

instance : Monad Parser where
  pure := .done
  bind := bind

def run {α : Type} (nested : Goal → State → Node × State) : Parser α → State → α × State
  | .done result, s => (result, s)
  | .look next, s => (next s).run nested s
  | .advance next, s => (next s.current).run nested s.advance
  | .splitShift next, s => next.run nested s.splitShift
  | .report problem next, s => next.run nested (s.report problem)
  | .resume next, s => next.run nested s.resume
  | .call goal next, s =>
      let (node, after) := nested goal s
      (next node).run nested after

theorem run_pure {α : Type} (nested : Goal → State → Node × State) (result : α) (s : State) :
    (pure result : Parser α).run nested s = (result, s) :=
  rfl

theorem run_bind {α β : Type} (nested : Goal → State → Node × State) (parser : Parser α)
    (f : α → Parser β) (s : State) :
    (parser >>= f).run nested s
      = (f (parser.run nested s).1).run nested (parser.run nested s).2 := by
  change (parser.bind f).run nested s = _
  induction parser generalizing s with
  | done result => rfl
  | look next ih => exact ih s s
  | advance next ih => exact ih s.current s.advance
  | splitShift next ih => exact ih s.splitShift
  | report problem next ih => exact ih (s.report problem)
  | resume next ih => exact ih s.resume
  | call goal next ih => exact ih (nested goal s).1 (nested goal s).2

end Parser

def state : Parser State :=
  .look .done

def advance : Parser Token :=
  .advance .done

def report (problem : Problem) : Parser Unit :=
  .report problem (.done ())

def resume : Parser Unit :=
  .resume (.done ())

def statement : Parser Node :=
  .call .statement .done

/-- Reads an expression whose operators bind at least as tightly as `power`. -/
def expressionFrom (power : Nat) : Parser Node :=
  .call (.expression power) .done

def expression : Parser Node :=
  expressionFrom 0

def type : Parser Node :=
  .call .type .done

def mark : Parser Mark := do
  return (← state).mark

def close (mark : Mark) (kind : Node.Kind) (payload : Payload) (children : List Node) :
    Parser Node := do
  return (← state).close mark kind payload children

def placeholder (kind : Node.Kind) : Parser Node := do
  return (← state).placeholder kind

def missing : Parser Node :=
  placeholder .missing

/-- Reports that something else is required in place of the next token. -/
def reportExpected (wanted : Wanted) : Parser Unit := do
  report (.expected wanted (← state).kind)

def eat (symbol : Symbol) : Parser Bool := do
  if (← state).isAt symbol then
    let _ ← advance
    return true
  else return false

def eatKeyword (word : Keyword) : Parser Bool := do
  if (← state).isAtKeyword word then
    let _ ← advance
    return true
  else return false

def endsRecovery (symbol : Symbol) : Bool :=
  symbol == .semicolon || symbol == .lBrace || symbol == .rBrace

def expect (symbol : Symbol) : Parser Bool := do
  if ← eat symbol then
    if endsRecovery symbol then resume
    return true
  else
    reportExpected (.symbol symbol)
    return false

def expectKeyword (word : Keyword) : Parser Unit := do
  if ← eatKeyword word then return ()
  else reportExpected (.keyword word)

def expectClosing (closing : Symbol) : Parser Unit := do
  if ← eat closing then return ()
  else reportExpected (.commaOr closing)

/-- Takes the symbol `>` or the first half of `>>`, or reports that it is missing. -/
def expectAngle : Parser Bool := do
  match (← state).kind with
  | .symbol .gt =>
      let _ ← advance
      return true
  | .symbol .shr => .splitShift (.done true)
  | _ =>
      reportExpected (.symbol .gt)
      return false

inductive Step (α : Type) where
  | again (value : α)
  | done (value : α)

/-- Repeats a step on a value as long as it says so, at most twice for each of the tokens in
`bound`: the two halves of the symbol `>>` can be taken one by one. -/
def repeated {α : Type} (step : α → Parser (Step α)) : (bound : List Token) → α → Parser α
  | [], value => return value
  | _ :: bound, value => do
      match ← step value with
      | .done last => return last
      | .again next =>
          match ← step next with
          | .done last => return last
          | .again next => repeated step bound next

/-- Repeats a step on a value as long as it says so. A step that says so takes a token or half of
one, so that the tokens that are still to be taken bound the repetitions. -/
def loop {α : Type} (step : α → Parser (Step α)) (value : α) : Parser α := do
  let s ← state
  repeated step (s.final :: s.pending) value

/-- One item more, unless `stop` holds in place of it. The list goes on after a comma. -/
def separatedStep (stop : State → Bool) (item : Parser Node) (items : List Node) :
    Parser (Step (List Node)) := do
  if stop (← state) then return .done items
  else
    let node ← item
    if ← eat .comma then return .again (node :: items)
    else return .done (node :: items)

/-- The items of a list, each after the first one behind a comma. Where `stop` holds in place of an
item the list ends. -/
def separated (stop : State → Bool) (item : Parser Node) : Parser (List Node) := do
  let items ← loop (separatedStep stop item) []
  return items.reverse

def commaList (item : Parser Node) : Parser (List Node) :=
  separated (fun _ => false) item

end QoreSyntax.Grammar

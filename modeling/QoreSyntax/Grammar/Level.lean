import QoreSyntax.Grammar.Script

/-!
A parse that counts its levels. Each construct is read by a routine that enters a level of nesting,
unless it has come to the limit, and has to leave the level again on each of its ways out. A run
goes on one step at a time; where a routine calls for a construct, the routine of that construct
takes its place, with what is to be done afterwards behind it.
-/

namespace QoreSyntax.Grammar

/-- Parsers that enter levels and leave them. -/
inductive Routine (α : Type) where
  | done (result : α)
  | look (next : State → Routine α)
  | advance (next : Token → Routine α)
  | splitShift (next : Routine α)
  | report (problem : Problem) (next : Routine α)
  | resume (next : Routine α)
  | enter (next : Routine α)
  | leave (next : Routine α)
  | call (goal : Goal) (next : Node → Routine α)

namespace Routine

def bind {α β : Type} : Routine α → (α → Routine β) → Routine β
  | .done result, f => f result
  | .look next, f => .look fun s => (next s).bind f
  | .advance next, f => .advance fun token => (next token).bind f
  | .splitShift next, f => .splitShift (next.bind f)
  | .report problem next, f => .report problem (next.bind f)
  | .resume next, f => .resume (next.bind f)
  | .enter next, f => .enter (next.bind f)
  | .leave next, f => .leave (next.bind f)
  | .call goal next, f => .call goal fun node => (next node).bind f

instance : Monad Routine where
  pure := .done
  bind := bind

end Routine

/-- The parser as a routine, which stays on its level. -/
def Parser.routine {α : Type} : Parser α → Routine α
  | .done result => .done result
  | .look next => .look fun s => (next s).routine
  | .advance next => .advance fun token => (next token).routine
  | .splitShift next => .splitShift next.routine
  | .report problem next => .report problem next.routine
  | .resume next => .resume next.routine
  | .call goal next => .call goal fun node => (next node).routine

namespace Routine

/-- Reports that the limit has been reached, and passes over a construct. -/
def refusal (limit : Nat) : Parser Unit := do
  Grammar.report (.tooDeep limit)
  advanceMany (constructLength 0 0 (← state).pending)

/-- Enters a level, unless the limit has been reached: then a construct is passed over. -/
def enterLevel (limit : Nat) : Routine Bool := do
  if limit ≤ (← state.routine).depth then
    (refusal limit).routine
    return false
  else .enter (.done true)

def leaveLevel : Routine Unit :=
  .leave (.done ())

/-- Reads a construct on a level of its own, which `body` has to leave. -/
def onLevel (limit : Nat) (body : Mark → Routine Node) : Routine Node := do
  let m ← mark.routine
  if ← enterLevel limit then body m
  else (close m .error .none []).routine

end Routine

open Routine in
/-- What is done on the level of a construct that begins at the mark. The level of a type is left in
three places: where the name is missing, behind the arguments, and behind a name without
arguments. -/
def Goal.body : Goal → Mark → Routine Node
  | .statement, _ => do
      let node ← statementRule.routine
      leaveLevel
      return node
  | .expression power, m => do
      let first ← prefixed.routine
      let node ← (loop (expressionStep m power) first).routine
      leaveLevel
      return node
  | .type, m => do
      let star := if ← (eat .star).routine then "*" else ""
      match ← typeName?.routine with
      | none =>
          leaveLevel
          (close m (if star.isEmpty then .missing else .type) (.name star) []).routine
      | some name =>
          if ← (eat .lt).routine then
            let arguments ← (commaList Grammar.type).routine
            let closed ← expectAngle.routine
            leaveLevel
            (close m .type (.name (star ++ name ++ argumentsText arguments closed))
              arguments).routine
          else
            leaveLevel
            (close m .type (.name (star ++ name)) []).routine

def Goal.routine (limit : Nat) (goal : Goal) : Routine Node :=
  Routine.onLevel limit goal.body

def State.enter (s : State) : State :=
  { s with depth := s.depth + 1 }

/-- One level less; there are never less than none. -/
def State.leave (s : State) : State :=
  { s with depth := s.depth - 1 }

/-- A moment of a run: what is still to be done, and the state. -/
structure Moment (α : Type) where
  rest : Routine α
  state : State

def Moment.next? {α : Type} (limit : Nat) : Moment α → Option (Moment α)
  | ⟨.done _, _⟩ => none
  | ⟨.look next, s⟩ => some ⟨next s, s⟩
  | ⟨.advance next, s⟩ => some ⟨next s.current, s.advance⟩
  | ⟨.splitShift next, s⟩ => some ⟨next, s.splitShift⟩
  | ⟨.report problem next, s⟩ => some ⟨next, s.report problem⟩
  | ⟨.resume next, s⟩ => some ⟨next, s.resume⟩
  | ⟨.enter next, s⟩ => some ⟨next, s.enter⟩
  | ⟨.leave next, s⟩ => some ⟨next, s.leave⟩
  | ⟨.call goal next, s⟩ => some ⟨goal.routine limit >>= next, s⟩

end QoreSyntax.Grammar

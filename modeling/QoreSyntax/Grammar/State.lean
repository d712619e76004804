import QoreSyntax.Diagnostic
import QoreSyntax.Node.Basic

/-!
The state of a parse: the tokens that are still to be taken, and what has been reported.

After a report the parse is recovering, and further reports are dropped until a place is reached
where it can go on, so that one mistake is reported once. A token that is no well-formed text is
reported when it is taken, whether the parse is recovering or not, and is the reason for no other
report.
-/

namespace QoreSyntax.Grammar

structure State where
  pending : List Token
  final : Token
  previousEnd : Position
  /-- The number of tokens taken; a token that is taken in two parts counts twice. -/
  consumed : Nat
  /-- The reports, the last one first. -/
  reported : List Diagnostic
  /-- Reports about what follows are dropped. -/
  recovering : Bool
  depth : Nat
  deriving Repr

structure Mark where
  start : Position
  consumed : Nat
  deriving DecidableEq, Repr

namespace State

def ofStream (stream : Token.Stream) (line : Nat) : State :=
  { pending := stream.tokens
    final := stream.final
    previousEnd := ⟨line, 1⟩
    consumed := 0
    reported := []
    recovering := false
    depth := 0 }

def current (s : State) : Token :=
  s.pending.head?.getD s.final

def kind (s : State) : Token.Kind :=
  s.current.kind

/-- The kind of the token that `n` others precede. -/
def kindAt (s : State) (n : Nat) : Token.Kind :=
  (s.pending[n]?.getD s.final).kind

def isAtEnd (s : State) : Bool :=
  s.pending.isEmpty

def isAt (s : State) (symbol : Symbol) : Bool :=
  s.kind == .symbol symbol

def isAtKeyword (s : State) (word : Keyword) : Bool :=
  s.kind == .keyword word

def keyword? (s : State) : Option Keyword :=
  match s.kind with
  | .keyword word => some word
  | _ => none

/-- Takes the next token, and reports it if it is at fault. The end marker is never taken. -/
def advance (s : State) : State :=
  match s.pending with
  | [] => s
  | token :: rest =>
      let error := LexicalError.ofToken? token
      { s with
        pending := rest
        previousEnd := token.range.stop
        consumed := s.consumed + 1
        reported := (error.map Diagnostic.ofLexicalError).toList ++ s.reported
        recovering := s.recovering || error.isSome }

def advanceMany : Nat → State → State
  | 0, s => s
  | n + 1, s => advanceMany n s.advance

/-- Takes the first half of the symbol `>>` and leaves the second. No other token is split. -/
def splitShift (s : State) : State :=
  match s.pending with
  | [] => s
  | token :: rest =>
      if token.kind == .symbol .shr then
        { s with
          pending := token.secondHalf :: rest
          previousEnd := token.middle
          consumed := s.consumed + 1 }
      else s

/-- Reports a problem with the next token, unless the parse is recovering or the token is itself at
fault. -/
def report (problem : Problem) (s : State) : State :=
  { s with
    reported :=
      if s.recovering || (LexicalError.ofToken? s.current).isSome then s.reported
      else ⟨.syntactic problem, s.current.range⟩ :: s.reported
    recovering := true }

def resume (s : State) : State :=
  { s with recovering := false }

def mark (s : State) : Mark :=
  ⟨s.current.range.start, s.consumed⟩

/-- The node that begins at a mark and ends with the last token taken. Without any token it is empty
and stands at the end of the token before. Its range is widened to cover its children. -/
def close (s : State) (mark : Mark) (kind : Node.Kind) (payload : Payload)
    (children : List Node) : Node :=
  let own : Range :=
    if mark.consumed < s.consumed then ⟨mark.start, s.previousEnd⟩ else Range.empty s.previousEnd
  let range :=
    match children.head?, children.getLast? with
    | some first, some last => (own.cover first.range).cover last.range
    | _, _ => own
  ⟨kind, range, payload, children⟩

def placeholder (s : State) (kind : Node.Kind) : Node :=
  ⟨kind, Range.empty s.previousEnd, .none, []⟩

/-- All reports in the order of the text. -/
def diagnostics (s : State) : List Diagnostic :=
  s.reported.reverse

end State

end QoreSyntax.Grammar

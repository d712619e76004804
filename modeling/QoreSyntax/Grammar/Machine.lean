import QoreSyntax.Grammar.Script

/-!
A parse that reads the tokens of its text as it needs them. Between the text and the parse stands a
buffer with the next token and those that have been looked at beyond it; how far the parse looks
ahead, and when, is left open. Each token that is taken is written down.
-/

namespace QoreSyntax

/-- The tokens up to the first end marker, and those of the stream after them. -/
def Token.Stream.prepend (stream : Stream) : List Token → Stream
  | [] => stream
  | token :: rest =>
      if token.isEof then ⟨[], token⟩
      else ⟨token :: (stream.prepend rest).tokens, (stream.prepend rest).final⟩

namespace Grammar

structure Buffer where
  current : Token
  ahead : List Token
  reader : Token.Reader
  deriving Repr

namespace Buffer

def ofReader (reader : Token.Reader) : Buffer :=
  ⟨reader.next.1, [], reader.next.2⟩

def extend (b : Buffer) : Buffer :=
  { b with ahead := b.ahead ++ [b.reader.next.1], reader := b.reader.next.2 }

def extendMany : Nat → Buffer → Buffer
  | 0, b => b
  | n + 1, b => extendMany n b.extend

/-- Reads on until there are `n` tokens beyond the next one. -/
def fill (n : Nat) (b : Buffer) : Buffer :=
  b.extendMany (n - b.ahead.length)

/-- The token that `n` others precede, which is read if it has not been. -/
def nth? (n : Nat) (b : Buffer) : Option Token :=
  ((b.fill n).current :: (b.fill n).ahead)[n]?

def advance (b : Buffer) : Buffer :=
  match b.ahead with
  | [] => ofReader b.reader
  | token :: rest => { b with current := token, ahead := rest }

def stream (b : Buffer) : Token.Stream :=
  b.reader.stream.prepend (b.current :: b.ahead)

end Buffer

inductive Taking where
  | whole (token : Token)
  /-- The first half of the symbol `>>`. -/
  | firstHalf (token : Token)
  deriving DecidableEq, Repr

structure Machine where
  buffer : Buffer
  /-- What has been taken, the last one first. -/
  taken : List Taking
  previousEnd : Position
  consumed : Nat
  /-- The reports, the last one first. -/
  reported : List Diagnostic
  recovering : Bool
  depth : Nat
  deriving Repr

namespace Machine

def ofText (text : List Char) (options : Options) : Machine :=
  { buffer := Buffer.ofReader (Token.Reader.ofText text options.firstLine)
    taken := []
    previousEnd := ⟨options.firstLine, 1⟩
    consumed := 0
    reported := []
    recovering := false
    depth := 0 }

/-- The state of the parse, with all tokens that are still to be taken. -/
def view (m : Machine) : State :=
  { pending := m.buffer.stream.tokens
    final := m.buffer.stream.final
    previousEnd := m.previousEnd
    consumed := m.consumed
    reported := m.reported
    recovering := m.recovering
    depth := m.depth }

def fill (n : Nat) (m : Machine) : Machine :=
  { m with buffer := m.buffer.fill n }

/-- Takes the next token, and reports it if it is at fault. The end marker is never taken. -/
def advance (m : Machine) : Machine :=
  let token := m.buffer.current
  let error := LexicalError.ofToken? token
  if token.isEof then m
  else
    { m with
      buffer := m.buffer.advance
      taken := .whole token :: m.taken
      previousEnd := token.range.stop
      consumed := m.consumed + 1
      reported := (error.map Diagnostic.ofLexicalError).toList ++ m.reported
      recovering := m.recovering || error.isSome }

def advanceMany : Nat → Machine → Machine
  | 0, m => m
  | n + 1, m => advanceMany n m.advance

/-- Takes the first half of the symbol `>>` and leaves the second as the next token. -/
def splitShift (m : Machine) : Machine :=
  let token := m.buffer.current
  if token.kind == .symbol .shr then
    { m with
      buffer := { m.buffer with current := token.secondHalf }
      taken := .firstHalf token :: m.taken
      previousEnd := token.middle
      consumed := m.consumed + 1 }
  else m

/-- Reports a problem with the next token, unless the parse is recovering or the token is itself at
fault. -/
def report (problem : Problem) (m : Machine) : Machine :=
  { m with
    reported :=
      if m.recovering || (LexicalError.ofToken? m.buffer.current).isSome then m.reported
      else ⟨.syntactic problem, m.buffer.current.range⟩ :: m.reported
    recovering := true }

def resume (m : Machine) : Machine :=
  { m with recovering := false }

def refuse (limit : Nat) (m : Machine) : Node × Machine :=
  let reported := m.report (.tooDeep limit)
  let after := reported.advanceMany (constructLength 0 0 reported.view.pending)
  (after.view.close m.view.mark .error .none [], after)

end Machine

/-- Runs a parser on a machine that looks `peek` tokens ahead whenever the parser looks at the
tokens. -/
def Parser.runOn {α : Type} (peek : Machine → Nat) (nested : Goal → Machine → Node × Machine) :
    Parser α → Machine → α × Machine
  | .done result, m => (result, m)
  | .look next, m =>
      let seen := m.fill (peek m)
      (next seen.view).runOn peek nested seen
  | .advance next, m => (next m.buffer.current).runOn peek nested m.advance
  | .splitShift next, m => next.runOn peek nested m.splitShift
  | .report problem next, m => next.runOn peek nested (m.report problem)
  | .resume next, m => next.runOn peek nested m.resume
  | .call goal next, m =>
      let (node, after) := nested goal m
      (next node).runOn peek nested after

def parseOn (peek : Machine → Nat) (limit : Nat) :
    (room : Nat) → Goal → Machine → Node × Machine
  | 0, _, m => m.refuse limit
  | room + 1, goal, m =>
      if limit ≤ m.depth then m.refuse limit
      else
        let (node, after) :=
          goal.rule.runOn peek (parseOn peek limit room) { m with depth := m.depth + 1 }
        (node, { after with depth := after.depth - 1 })

def scriptOn (peek : Machine → Nat) (text : List Char) (options : Options) :
    (Tree × List Diagnostic) × Machine :=
  let m := Machine.ofText text options
  if m.buffer.current.isEof then ((Tree.empty, m.view.diagnostics), m)
  else
    let (items, after) :=
      (sequence .endOfInput statement).runOn peek (parseOn peek options.limit options.limit) m
    let range : Range := ⟨⟨options.firstLine, 1⟩, after.buffer.current.range.start⟩
    ((⟨some ⟨.script, range, .none, items⟩⟩, after.view.diagnostics), after)

end Grammar

end QoreSyntax

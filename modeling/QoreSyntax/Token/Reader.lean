import QoreSyntax.Token.Lexeme.Leading

namespace QoreSyntax

structure Token where
  kind : Token.Kind
  /-- Its place in bytes. -/
  span : Span
  range : Range
  /-- A line ends in the gap before the token. -/
  newlineBefore : Bool
  deriving DecidableEq, Repr

namespace Token

def isEof (t : Token) : Bool :=
  t.kind == .eof

/-- The place between the two characters of the symbol `>>`. -/
def middle (t : Token) : Position :=
  ⟨t.range.start.line, t.range.start.column + 1⟩

/-- The second half of the symbol `>>`, as a token of its own. -/
def secondHalf (t : Token) : Token :=
  { kind := .symbol .gt
    span := ⟨t.span.start + 1, t.span.stop⟩
    range := ⟨t.middle, t.range.stop⟩
    newlineBefore := false }

structure Reader where
  cursor : Cursor
  fresh : Bool
  afterMatch : Bool
  finished : Bool
  deriving DecidableEq, Repr

namespace Reader

/-- The reader of a text whose first line has the number `line`, but at least one. -/
def ofText (text : List Char) (line : Nat) : Reader :=
  ⟨Cursor.ofText text (max line 1), true, false, false⟩

def position (r : Reader) : Position :=
  r.cursor.position

def next (r : Reader) : Token × Reader :=
  let start := r.cursor.skip (gapLength r.cursor.rest)
  let newline := decide (r.cursor.position.line < start.position.line)
  let lexeme := leadingLexeme (r.fresh || newline) r.afterMatch start.rest
  let stop := start.skip lexeme.length
  (⟨lexeme.kind, ⟨start.offset, stop.offset⟩, ⟨start.position, stop.position⟩, newline⟩,
    { cursor := stop
      fresh := false
      afterMatch := lexeme.kind == .symbol .match || lexeme.kind == .symbol .noMatch
      finished := r.finished || lexeme.kind == .eof })

def next? (r : Reader) : Option Token × Reader :=
  if r.finished then (none, r)
  else
    let (token, rest) := r.next
    (some token, rest)

/-- Reads all tokens up to the end marker, which is given apart; `read` holds the tokens before
them, the last one first. Each step takes one unit of `fuel`. -/
def collect : (fuel : Nat) → (read : List Token) → Reader → List Token × Token
  | 0, read, r => (read.reverse, r.next.1)
  | fuel + 1, read, r =>
      let (token, rest) := r.next
      if token.isEof then (read.reverse, token) else collect fuel (token :: read) rest

end Reader

structure Stream where
  tokens : List Token
  final : Token
  deriving DecidableEq, Repr

/-- The tokens that are still to be read. No token but the end marker is empty, so that there are no
more tokens than characters. -/
def Reader.stream (r : Reader) : Stream :=
  let (tokens, final) := r.collect r.cursor.rest.length []
  ⟨tokens, final⟩

namespace Stream

def ofText (text : List Char) (line : Nat) : Stream :=
  (Reader.ofText text line).stream

/-- All tokens, and the end marker as the last one. -/
def toList (s : Stream) : List Token :=
  s.tokens ++ [s.final]

end Stream

end Token

structure LexicalError where
  fault : Fault
  range : Range
  deriving DecidableEq, Repr

namespace LexicalError

def ofToken? (t : Token) : Option LexicalError :=
  match t.kind with
  | .invalid fault => some ⟨fault, t.range⟩
  | _ => none

def ofText (text : List Char) (line : Nat) : List LexicalError :=
  (Token.Stream.ofText text line).tokens.filterMap ofToken?

def text (e : LexicalError) : String :=
  "Lexer error at line " ++ toString e.range.start.line ++ ", column "
    ++ toString e.range.start.column ++ ": " ++ e.fault.message

end LexicalError

end QoreSyntax

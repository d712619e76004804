import QoreSyntax.Grammar.Statement
import QoreSyntax.Tree.Basic

/-!
Parsing a text. The rules of the grammar are run with a limit to the nesting of constructs; a
construct beyond it is passed over, reported, and stands in the tree as an error.
-/

namespace QoreSyntax

structure Options where
  startLine : Nat
  sourceName : String
  /-- How deeply constructs may nest. -/
  maxNestingDepth : Nat
  deriving DecidableEq, Repr

namespace Options

def standard : Options :=
  { startLine := 1
    sourceName := "<string>"
    maxNestingDepth := 128 }

/-- Numbers the first line `line`, but at least one. -/
def withStartLine (options : Options) (line : Nat) : Options :=
  { options with startLine := max line 1 }

def withSourceName (options : Options) (name : String) : Options :=
  { options with sourceName := name }

/-- Lets constructs nest `depth` deep, but at least one. -/
def withMaxNestingDepth (options : Options) (depth : Nat) : Options :=
  { options with maxNestingDepth := max depth 1 }

/-- The number of the first line that is used; lines are counted from one. -/
def firstLine (options : Options) : Nat :=
  max options.startLine 1

/-- The limit to nesting that is used; at least one construct is read. -/
def limit (options : Options) : Nat :=
  max options.maxNestingDepth 1

end Options

namespace Grammar

def Goal.rule : Goal → Parser Node
  | .statement => statementRule
  | .expression power => expressionRule power
  | .type => typeRule

def State.refuse (limit : Nat) (s : State) : Node × State :=
  let after := (s.report (.tooDeep limit)).skipConstruct
  (after.close s.mark .error .none [], after)

/-- Reads a construct, unless as many as `limit` are being read. There must be `room` for all that
may still nest in it. -/
def parse (limit : Nat) : (room : Nat) → Goal → State → Node × State
  | 0, _, s => s.refuse limit
  | room + 1, goal, s =>
      if limit ≤ s.depth then s.refuse limit
      else
        let (node, after) := goal.rule.run (parse limit room) { s with depth := s.depth + 1 }
        (node, { after with depth := after.depth - 1 })

def Parser.runWithin {α : Type} (limit : Nat) (parser : Parser α) (s : State) : α × State :=
  parser.run (parse limit limit) s

/-- Reads `count` expressions, one after the other. -/
def expressions (limit : Nat) : (count : Nat) → State → List Node × State
  | 0, s => ([], s)
  | count + 1, s =>
      let (node, after) := expression.runWithin limit s
      let (nodes, last) := expressions limit count after
      (node :: nodes, last)

def start (text : List Char) (options : Options) : State :=
  State.ofStream (Token.Stream.ofText text options.firstLine) options.firstLine

def script (options : Options) (s : State) : Tree × List Diagnostic :=
  if s.isAtEnd then (Tree.empty, s.diagnostics)
  else
    let (items, after) := (sequence .endOfInput statement).runWithin options.limit s
    let range : Range := ⟨⟨options.firstLine, 1⟩, after.current.range.start⟩
    (⟨some ⟨.script, range, .none, items⟩⟩, after.diagnostics)

end Grammar

def parse (text : List Char) (options : Options) : Tree × List Diagnostic :=
  Grammar.script options (Grammar.start text options)

end QoreSyntax

/-!
Places in a source text. A `Position` is a line and a column, both counted from one; a `Range` is
the half-open stretch of text between two positions; a `Span` is the same stretch in bytes.

Positions are ordered first by line and then by column, so that one position is before another
exactly when it is met first on reading the text.
-/

namespace QoreSyntax

/-- A point in a source text. Columns count characters, not bytes. -/
structure Position where
  line : Nat
  column : Nat
  deriving DecidableEq, Repr

namespace Position

def before (p q : Position) : Bool :=
  p.line < q.line || (p.line == q.line && p.column < q.column)

instance : LT Position := ⟨fun p q => p.before q = true⟩

instance : LE Position := ⟨fun p q => q.before p = false⟩

instance (p q : Position) : Decidable (p < q) :=
  inferInstanceAs (Decidable (p.before q = true))

instance (p q : Position) : Decidable (p ≤ q) :=
  inferInstanceAs (Decidable (q.before p = false))

def earlier (p q : Position) : Position :=
  if p ≤ q then p else q

def later (p q : Position) : Position :=
  if p ≤ q then q else p

def text (p : Position) : String :=
  toString p.line ++ ":" ++ toString p.column

theorem lt_iff {p q : Position} :
    p < q ↔ p.line < q.line ∨ (p.line = q.line ∧ p.column < q.column) := by
  change p.before q = true ↔ _
  simp [before]

theorem le_iff {p q : Position} :
    p ≤ q ↔ p.line < q.line ∨ (p.line = q.line ∧ p.column ≤ q.column) := by
  change q.before p = false ↔ _
  simp only [before, Bool.or_eq_false_iff, Bool.and_eq_false_iff, decide_eq_false_iff_not,
    beq_eq_false_iff_ne]
  omega

end Position

/-- The stretch of text from `start` up to but not including `stop`. -/
structure Range where
  start : Position
  stop : Position
  deriving DecidableEq, Repr

namespace Range

def empty (p : Position) : Range :=
  ⟨p, p⟩

def isEmpty (r : Range) : Bool :=
  decide (r.stop ≤ r.start)

def contains (r : Range) (p : Position) : Bool :=
  decide (r.start ≤ p) && decide (p < r.stop)

def encloses (r inner : Range) : Bool :=
  decide (r.start ≤ inner.start) && decide (inner.stop ≤ r.stop)

/-- The smallest range around both. -/
def cover (r s : Range) : Range :=
  ⟨r.start.earlier s.start, r.stop.later s.stop⟩

def text (r : Range) : String :=
  r.start.text ++ "-" ++ r.stop.text

end Range

/-- A stretch of a source text in bytes of its UTF-8 form. -/
structure Span where
  start : Nat
  stop : Nat
  deriving DecidableEq, Repr

namespace Span

/-- The number of bytes in the span. -/
def size (s : Span) : Nat :=
  s.stop - s.start

def isEmpty (s : Span) : Bool :=
  s.start == s.stop

end Span

end QoreSyntax

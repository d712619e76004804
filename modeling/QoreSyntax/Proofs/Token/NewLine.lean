import QoreSyntax.Proofs.Grammar.Simulation.Lookahead
import QoreSyntax.Proofs.Token.Concatenation
import QoreSyntax.Proofs.Token.Shift

namespace QoreSyntax.Token

def behindLineEnd (t : Token) : Token :=
  { t with newlineBefore := true }

/-- The tokens when a line ends before the first one. -/
def onNewLine : List Token → List Token
  | [] => []
  | t :: rest => t.behindLineEnd :: rest

theorem map_onNewLine {f : Token → Token} (hf : ∀ t, f t.behindLineEnd = (f t).behindLineEnd)
    (tokens : List Token) : (onNewLine tokens).map f = onNewLine (tokens.map f) := by
  cases tokens with
  | nil => rfl
  | cons t rest => rw [onNewLine, List.map_cons, hf, List.map_cons, onNewLine]

namespace Reader

/-- Behind a line end the first token is read as on the next line of a text. -/
theorem next_lineEnd (text : List Char) (line : Nat) :
    (ofText ('\n' :: text) line).next =
      let first := ((ofText text (max line 1 + 1)).behind 1).next
      (first.1.behindLineEnd, first.2) := by
  have hline : max (max line 1 + 1) 1 = max line 1 + 1 := Nat.max_eq_left (by omega)
  have hgapEnd : (ofText ('\n' :: text) line).gapEnd
      = ((ofText text (max line 1 + 1)).behind 1).gapEnd := by
    rw [gapEnd_lineEnd, gapEnd, ofText, hline]
    rfl
  have hlexeme : (ofText ('\n' :: text) line).lexeme
      = ((ofText text (max line 1 + 1)).behind 1).lexeme := by
    rw [lexeme, lexeme, hgapEnd]
    rfl
  have hnewline := newlineBefore_lineEnd text line
  rw [next_eq, next_eq, hlexeme, hnewline, hgapEnd]
  rfl

end Reader

/-- The tokens of a text behind a line end. -/
theorem Stream.tokens_ofText_lineEnd (text : List Char) (line : Nat) :
    (ofText ('\n' :: text) line).tokens
      = onNewLine ((ofText text (max line 1 + 1)).behind 1).tokens := by
  have hnext := Reader.next_lineEnd text line
  have hstream : (ofText text (max line 1 + 1)).behind 1
      = ((Reader.ofText text (max line 1 + 1)).behind 1).stream := (Reader.stream_behind _ _).symm
  have heof : (Reader.ofText ('\n' :: text) line).next.1.isEof
      = ((Reader.ofText text (max line 1 + 1)).behind 1).next.1.isEof := by
    rw [hnext]
    rfl
  rw [hstream, ofText]
  cases hend : ((Reader.ofText text (max line 1 + 1)).behind 1).next.1.isEof with
  | true =>
      rw [Reader.stream_of_isEof hend, Reader.stream_of_isEof (heof.trans hend)]
      rfl
  | false =>
      rw [Reader.stream_of_not_isEof hend, Reader.stream_of_not_isEof (heof.trans hend), hnext]
      rfl

theorem tokens_ofText_eq_map (text : List Char) (line : Nat) :
    (Stream.ofText text line).tokens
      = (Stream.ofText text 1).tokens.map (Token.down (max line 1 - 1)) := by
  have hline : Stream.ofText text line = Stream.ofText text (max line 1) := by
    rw [Stream.ofText, Stream.ofText, Reader.ofText, Reader.ofText,
      Nat.max_eq_left (Nat.le_max_right line 1)]
  rw [hline, Stream.ofText_down text (Nat.le_max_right line 1)]
  rfl

/-- The tokens of a text behind a line end and `n` bytes of another text are those of the text by
itself to a parser, but for the line end before the first one. -/
theorem alike_tokens_behind (text : List Char) (line line' n : Nat) :
    ∃ tokens, ((Stream.ofText ('\n' :: text) line).behind n).tokens = onNewLine tokens ∧
      List.Forall₂ Alike (Stream.ofText text line').tokens tokens := by
  refine ⟨((Stream.ofText text (max line 1 + 1)).behind 1).tokens.map (behind n), ?_, ?_⟩
  · have hmap : ∀ t : Token, t.behindLineEnd.behind n = (t.behind n).behindLineEnd := fun _ => rfl
    rw [← map_onNewLine hmap, ← Stream.tokens_ofText_lineEnd]
    rfl
  · rw [Stream.behind, tokens_ofText_eq_map text line', tokens_ofText_eq_map text (max line 1 + 1)]
    simp only [List.map_map, List.forall₂_map_left_iff, List.forall₂_map_right_iff]
    exact List.forall₂_same.mpr fun t _ => ⟨rfl, rfl⟩

end QoreSyntax.Token

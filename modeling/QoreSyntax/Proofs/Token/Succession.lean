import QoreSyntax.Proofs.Token.Ending.Gap
import QoreSyntax.Proofs.Token.Tiling
import QoreSyntax.Proofs.Token.Written

namespace QoreSyntax.Token

namespace Reader

/-- A regular expression may begin where a match operator has been read. -/
theorem afterMatch_next (r : Reader) : r.next.2.afterMatch = r.next.1.kind.isMatch :=
  rfl

theorem next_of_toList_eq_cons {r : Reader} {t : Token} {rest : List Token}
    (h : r.stream.toList = t :: rest) :
    r.next.1 = t ∧ (rest ≠ [] → r.next.2.stream.toList = rest) := by
  cases hend : r.next.1.isEof with
  | true =>
      rw [toList_of_isEof hend] at h
      obtain ⟨hfirst, hrest⟩ := List.cons.inj h
      exact ⟨hfirst, fun hne => absurd hrest.symm hne⟩
  | false =>
      rw [toList_of_not_isEof hend] at h
      obtain ⟨hfirst, hrest⟩ := List.cons.inj h
      exact ⟨hfirst, fun _ => hrest⟩

/-- A token of the text is read in the state in which the token before it leaves the reader, and the
first one in the state of the reader at the beginning. -/
theorem exists_of_toList_eq_append {I : Reader → Prop} (hI : ∀ r, I r → I r.next.2) {r : Reader}
    (hr : I r) {front back : List Token} {t : Token} (h : r.stream.toList = front ++ t :: back) :
    ∃ r', I r' ∧ r'.next.1 = t ∧
      r'.afterMatch = (front.getLast?.map (·.kind.isMatch)).getD r.afterMatch := by
  induction front generalizing r with
  | nil => exact ⟨r, hr, (next_of_toList_eq_cons h).1, rfl⟩
  | cons u front ih =>
      obtain ⟨hfirst, hrest⟩ := next_of_toList_eq_cons h
      obtain ⟨r', hr', ht, hmatch⟩ := ih (hI r hr) (hrest (by simp))
      refine ⟨r', hr', ht, hmatch.trans ?_⟩
      -- If `u` is the last one before `t`, then it is what leaves the state.
      rw [afterMatch_next, hfirst, List.getLast?_cons]
      cases front.getLast? <;> rfl

theorem kinds_of_ne_eof {r : Reader} (h : r.next.1.kind ≠ .eof) :
    r.stream.toList.map Token.kind = r.next.1.kind :: r.next.2.stream.toList.map Token.kind := by
  have hnot : r.next.1.isEof = false := by
    rw [isEof, beq_eq_false_iff_ne]
    exact h
  rw [toList_of_not_isEof hnot, List.map_cons]

theorem kinds_of_rest_eq_nil {r : Reader} (h : r.cursor.rest = []) :
    r.stream.toList.map Token.kind = [.eof] := by
  have hend : r.next.1.isEof = true := by
    rw [isEof_next_iff, gapEnd, Cursor.rest_skip, h, List.drop_nil]
  rw [toList_of_isEof hend, List.map_singleton, beq_iff_eq.mp hend]

section Gap

variable {r : Reader} {gap chars rest : List Char} {kind : Kind} (hgap : IsGap gap (chars ++ rest))
  (htext : r.cursor.rest = gap ++ (chars ++ rest)) (hkind : kind ≠ .eof)
include hgap htext hkind

theorem kinds_of_gap (hpiece : pieceLength (chars ++ rest) = 0)
    (hlexeme : ∀ newline, leadingLexeme (r.fresh || newline) r.afterMatch (chars ++ rest)
      = ⟨kind, chars.length⟩) :
    r.stream.toList.map Token.kind = kind :: r.next.2.stream.toList.map Token.kind ∧
      r.next.2.cursor.rest = rest ∧ r.next.2.afterMatch = kind.isMatch := by
  obtain ⟨hnext, hbehind⟩ := next_of_gap hgap htext hpiece hlexeme
  refine ⟨?_, hbehind⟩
  rw [kinds_of_ne_eof (hnext ▸ hkind), hnext]

/-- Where no match operator comes before it a token is read from its characters. -/
theorem kinds_of_lexesBefore (h : LexesBefore rest chars kind) (hmatch : r.afterMatch = false) :
    r.stream.toList.map Token.kind = kind :: r.next.2.stream.toList.map Token.kind ∧
      r.next.2.cursor.rest = rest ∧ r.next.2.afterMatch = kind.isMatch := by
  refine kinds_of_gap hgap htext hkind h.pieceLength_eq fun newline => ?_
  exact h.leadingLexeme_eq _ fun htrue => Bool.noConfusion (hmatch.symm.trans htrue)

end Gap

end Reader

section FirstToken

variable {text : List Char} {kind : Kind} {length : Nat} (hpiece : pieceLength text = 0)
include hpiece

/-- The first token of a text that does not begin with a gap stands at its beginning. -/
theorem Reader.gapEnd_ofText (line : Nat) : (Reader.ofText text line).gapEnd.rest = text := by
  rw [Reader.gapEnd, Cursor.rest_skip]
  change text.drop (gapLength text) = text
  rw [← List.nil_append text, (IsGap.nil text).gapLength_eq hpiece, List.length_nil,
    List.drop_zero]

theorem Reader.lexeme_ofText (hlexeme : leadingLexeme true false text = ⟨kind, length⟩)
    (line : Nat) : (Reader.ofText text line).lexeme = ⟨kind, length⟩ := by
  rw [Reader.lexeme, gapEnd_ofText hpiece]
  exact hlexeme

/-- A text that is no more than its first token, which takes all its characters. -/
theorem Stream.kinds_ofText_of_lexeme (hkind : kind ≠ .eof)
    (hlexeme : leadingLexeme true false text = ⟨kind, length⟩) (hlength : text.length ≤ length)
    (line : Nat) : (ofText text line).toList.map Token.kind = [kind, .eof] := by
  have hend := Reader.gapEnd_ofText hpiece line
  have hread := Reader.lexeme_ofText hpiece hlexeme line
  have hnext : (Reader.ofText text line).next.1.kind = kind := by rw [Reader.next_kind, hread]
  have hrest : (Reader.ofText text line).next.2.cursor.rest = [] := by
    rw [Reader.next_cursor, Cursor.rest_skip, hend, hread, List.drop_of_length_le hlength]
  rw [ofText_eq_stream, Reader.kinds_of_ne_eof (hnext ▸ hkind), hnext,
    Reader.kinds_of_rest_eq_nil hrest]

end FirstToken

end QoreSyntax.Token

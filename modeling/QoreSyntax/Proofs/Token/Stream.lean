import QoreSyntax.Proofs.Source.Order
import QoreSyntax.Proofs.Token.Lexeme
import QoreSyntax.Token.Reader

namespace QoreSyntax.Token

/-- The token takes text. The symbol `>>` goes on behind its middle. -/
structure IsSolid (t : Token) : Prop where
  start_lt_stop : t.range.start < t.range.stop
  middle_lt_stop : t.kind = .symbol .shr → t.middle < t.range.stop

/-- The tokens stand one after the other between the positions. -/
def Placed : List Token → Position → Position → Prop
  | [], p, q => p ≤ q
  | t :: rest, p, q => p ≤ t.range.start ∧ t.IsSolid ∧ Placed rest t.range.stop q

namespace Reader

/-- The place where the next token begins. -/
def gapEnd (r : Reader) : Cursor :=
  r.cursor.skip (gapLength r.cursor.rest)

/-- The next token as a stretch of the text. -/
def lexeme (r : Reader) : Lexeme :=
  leadingLexeme (r.fresh || decide (r.cursor.position.line < r.gapEnd.position.line)) r.afterMatch
    r.gapEnd.rest

theorem next_eq (r : Reader) :
    r.next =
      (⟨r.lexeme.kind, ⟨r.gapEnd.offset, (r.gapEnd.skip r.lexeme.length).offset⟩,
        ⟨r.gapEnd.position, (r.gapEnd.skip r.lexeme.length).position⟩,
        decide (r.cursor.position.line < r.gapEnd.position.line)⟩,
      ⟨r.gapEnd.skip r.lexeme.length, false,
        r.lexeme.kind == .symbol .match || r.lexeme.kind == .symbol .noMatch,
        r.finished || r.lexeme.kind == .eof⟩) :=
  rfl

theorem next_kind (r : Reader) : r.next.1.kind = r.lexeme.kind :=
  rfl

theorem next_range (r : Reader) :
    r.next.1.range = ⟨r.gapEnd.position, (r.gapEnd.skip r.lexeme.length).position⟩ :=
  rfl

theorem next_cursor (r : Reader) : r.next.2.cursor = r.gapEnd.skip r.lexeme.length :=
  rfl

theorem position_le_gapEnd (r : Reader) : r.position ≤ r.gapEnd.position :=
  Cursor.position_le_skip _ _

theorem isEof_next_iff (r : Reader) : r.next.1.isEof = true ↔ r.gapEnd.rest = [] := by
  rw [isEof, beq_iff_eq, next_kind, lexeme, leadingLexeme_kind_eq_eof_iff]

/-- A token that is not the end marker leaves less of the text. -/
theorem rest_length_next_lt {r : Reader} (h : r.next.1.isEof = false) :
    r.next.2.cursor.rest.length < r.cursor.rest.length := by
  have hrest : r.gapEnd.rest ≠ [] := fun hnil =>
    Bool.noConfusion (h.symm.trans ((isEof_next_iff r).mpr hnil))
  have hlength : 0 < r.lexeme.length := leadingLexeme_length_pos _ _ hrest
  have hpos : 0 < r.gapEnd.rest.length := List.length_pos_iff.mpr hrest
  have hgap : r.gapEnd.rest.length ≤ r.cursor.rest.length := by
    rw [gapEnd, Cursor.rest_length_skip]
    omega
  rw [next_cursor, Cursor.rest_length_skip]
  omega

theorem isSolid_next {r : Reader} (h : r.next.1.isEof = false) : r.next.1.IsSolid := by
  have hrest : r.gapEnd.rest ≠ [] := fun hnil =>
    Bool.noConfusion (h.symm.trans ((isEof_next_iff r).mpr hnil))
  refine ⟨?_, fun hkind => ?_⟩
  · rw [next_range]
    exact Cursor.position_lt_skip (leadingLexeme_length_pos _ _ hrest) hrest
  · rw [next_kind, lexeme] at hkind
    obtain ⟨⟨tail, htail⟩, hlength⟩ := leadingLexeme_of_symbol hkind
    have hshr : r.lexeme.length = 2 := hlength
    rw [middle, next_range, hshr]
    rcases hcursor : r.gapEnd with ⟨rest, offset, position⟩
    rw [hcursor] at htail
    obtain rfl : '>' :: '>' :: tail = rest := htail
    refine Position.lt_iff.mpr (Or.inr ?_)
    simp [Cursor.skip, Position.next_of_not_endsLine, endsLine]

theorem collect_eq_append (fuel : Nat) (read : List Token) (r : Reader) :
    r.collect fuel read = (read.reverse ++ (r.collect fuel []).1, (r.collect fuel []).2) := by
  induction fuel generalizing read r with
  | zero => simp [collect]
  | succ fuel ih =>
      cases h : r.next.1.isEof with
      | true => simp [collect, h]
      | false =>
          simp only [collect, h, Bool.false_eq_true, if_false]
          rw [ih (r.next.1 :: read), ih [r.next.1]]
          simp

/-- Enough fuel is as good as more of it. -/
theorem collect_eq_collect {fuel fuel' : Nat} {r : Reader} (h : r.cursor.rest.length ≤ fuel)
    (h' : r.cursor.rest.length ≤ fuel') : r.collect fuel [] = r.collect fuel' [] := by
  induction fuel generalizing fuel' r with
  | zero =>
      have hend : r.next.1.isEof = true := by
        rw [← Bool.not_eq_false]
        intro hnot
        have := rest_length_next_lt hnot
        omega
      cases fuel' with
      | zero => rfl
      | succ fuel' => simp [collect, hend]
  | succ fuel ih =>
      cases hend : r.next.1.isEof with
      | true =>
          cases fuel' with
          | zero => simp [collect, hend]
          | succ fuel' => simp [collect, hend]
      | false =>
          have hlt := rest_length_next_lt hend
          obtain ⟨fuel', rfl⟩ : ∃ n, fuel' = n + 1 := Nat.exists_eq_succ_of_ne_zero (by omega)
          have hrest : r.next.2.collect fuel [] = r.next.2.collect fuel' [] :=
            ih (by omega) (by omega)
          simp only [collect, hend, Bool.false_eq_true, if_false]
          rw [collect_eq_append fuel, collect_eq_append fuel', hrest]

theorem stream_of_isEof {r : Reader} (h : r.next.1.isEof = true) :
    r.stream = ⟨[], r.next.1⟩ := by
  rw [stream]
  cases r.cursor.rest.length <;> simp [collect, h]

theorem stream_of_not_isEof {r : Reader} (h : r.next.1.isEof = false) :
    r.stream = ⟨r.next.1 :: r.next.2.stream.tokens, r.next.2.stream.final⟩ := by
  have hlt := rest_length_next_lt h
  obtain ⟨fuel, hfuel⟩ : ∃ fuel, r.cursor.rest.length = fuel + 1 :=
    Nat.exists_eq_succ_of_ne_zero (by omega)
  have hrest : r.next.2.collect fuel [] = r.next.2.collect r.next.2.cursor.rest.length [] :=
    collect_eq_collect (by omega) (Nat.le_refl _)
  rw [stream, stream, hfuel]
  simp only [collect, h, Bool.false_eq_true, if_false]
  rw [collect_eq_append, hrest]
  rfl

/-- What holds of a reader at the end of its text, and of one before a token when it holds after the
token, holds of every reader. -/
theorem stream_induction {motive : Reader → Prop}
    (atEnd : ∀ r, r.next.1.isEof = true → motive r)
    (before : ∀ r, r.next.1.isEof = false → motive r.next.2 → motive r) (r : Reader) :
    motive r := by
  induction hlength : r.cursor.rest.length using Nat.strongRecOn generalizing r with
  | ind length ih =>
      cases hend : r.next.1.isEof with
      | true => exact atEnd r hend
      | false => exact before r hend (ih _ (hlength ▸ rest_length_next_lt hend) _ rfl)

theorem isEof_stream_final (r : Reader) : r.stream.final.isEof = true := by
  induction r using stream_induction with
  | atEnd r h => rwa [stream_of_isEof h]
  | before r h ih => rwa [stream_of_not_isEof h]

theorem isEof_of_mem_stream {r : Reader} {t : Token} (hmem : t ∈ r.stream.tokens) :
    t.isEof = false := by
  induction r using stream_induction with
  | atEnd r h => simp [stream_of_isEof h] at hmem
  | before r h ih =>
      rw [stream_of_not_isEof h] at hmem
      rcases List.mem_cons.mp hmem with rfl | hmem
      · exact h
      · exact ih hmem

theorem placed_stream (r : Reader) :
    Placed r.stream.tokens r.position r.stream.final.range.start := by
  induction r using stream_induction with
  | atEnd r h =>
      rw [stream_of_isEof h]
      exact position_le_gapEnd r
  | before r h ih =>
      rw [stream_of_not_isEof h]
      exact ⟨position_le_gapEnd r, isSolid_next h, ih⟩

end Reader

namespace Stream

theorem ofText_eq_stream (text : List Char) (line : Nat) :
    ofText text line = (Reader.ofText text line).stream :=
  rfl

/-- The end marker is the only one among the tokens of a text. -/
theorem isEof_ofText_final (text : List Char) (line : Nat) :
    (ofText text line).final.isEof = true :=
  Reader.isEof_stream_final (Reader.ofText text line)

theorem isEof_of_mem_ofText {text : List Char} {line : Nat} {t : Token}
    (hmem : t ∈ (ofText text line).tokens) : t.isEof = false :=
  Reader.isEof_of_mem_stream (ofText_eq_stream text line ▸ hmem)

/-- The tokens of a text stand one after the other from its beginning up to the end marker. -/
theorem placed_ofText (text : List Char) (line : Nat) :
    Placed (ofText text line).tokens ⟨max line 1, 1⟩ (ofText text line).final.range.start :=
  Reader.placed_stream (Reader.ofText text line)

end Stream

end QoreSyntax.Token

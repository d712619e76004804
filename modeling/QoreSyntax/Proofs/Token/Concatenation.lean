import QoreSyntax.Proofs.Source.Offset
import QoreSyntax.Proofs.Token.Ending

namespace QoreSyntax

open String (utf8Len)

namespace Cursor

/-- The same place in a text that goes on. -/
def followedBy (more : List Char) (cursor : Cursor) : Cursor :=
  { cursor with rest := cursor.rest ++ more }

/-- The same place in a text with `n` bytes more before it. -/
def behind (n : Nat) (cursor : Cursor) : Cursor :=
  { cursor with offset := cursor.offset + n }

/-- The place behind all characters. -/
def last (cursor : Cursor) : Cursor :=
  cursor.skip cursor.rest.length

theorem last_skip (n : Nat) (cursor : Cursor) : (cursor.skip n).last = cursor.last := by
  rw [last, skip_skip, rest_length_skip, ← skip_min, last]
  congr 1
  omega

theorem line_le_last (cursor : Cursor) : cursor.position.line ≤ cursor.last.position.line := by
  have hle := Position.le_iff.mp (position_le_skip cursor.rest.length cursor)
  rw [last]
  omega

theorem rest_last (cursor : Cursor) : cursor.last.rest = [] := by
  rw [last, rest_skip, List.drop_length]

theorem skip_behind (n m : Nat) (cursor : Cursor) :
    (cursor.behind n).skip m = (cursor.skip m).behind n := by
  induction m generalizing cursor with
  | zero => rfl
  | succ m ih =>
      rcases cursor with ⟨_ | ⟨c, rest⟩, offset, position⟩
      · rfl
      · rw [behind, skip, skip, Nat.add_right_comm]
        exact ih ⟨rest, offset + c.utf8Size, position.next c rest⟩

/-- Only behind a carriage return it matters for the lines whether a line feed follows. -/
theorem next_append_lineEnd {c : Char} {rest : List Char} (h : (c :: rest).getLast? ≠ some '\r')
    (p : Position) (more : List Char) : p.next c (rest ++ '\n' :: more) = p.next c rest := by
  have hends : endsLine c (rest ++ '\n' :: more) = endsLine c rest := by
    rcases rest with - | ⟨d, rest⟩
    · have hc : (c == '\r') = false := beq_eq_false_iff_ne.mpr fun hc => h (by rw [hc]; rfl)
      rw [endsLine, endsLine, hc, Bool.false_and, Bool.false_and]
    · rfl
  rw [Position.next, Position.next, hends]

theorem getLast?_drop_ne {text : List Char} (h : text.getLast? ≠ some '\r') (n : Nat) :
    (text.drop n).getLast? ≠ some '\r' := by
  rw [List.getLast?_drop]
  split_ifs
  · exact (Option.some_ne_none '\r').symm
  · exact h

/-- Behind a line end the lines are counted as in a text that begins with it. -/
theorem skip_lineEnd (n : Nat) (more : List Char) {offset : Nat} {p : Position} (hp : 1 ≤ p.line) :
    skip (n + 1) ⟨'\n' :: more, offset, p⟩
      = (skip (n + 1) (ofText ('\n' :: more) (max p.line 1))).behind offset := by
  rw [← skip_behind, Nat.max_eq_left hp]
  change skip n ⟨more, offset + 1, _⟩ = skip n ⟨more, 0 + offset + 1, _⟩
  rw [Nat.zero_add]
  rfl

theorem skip_followedBy {n : Nat} {cursor : Cursor} (hn : n ≤ cursor.rest.length)
    (hreturn : cursor.rest.getLast? ≠ some '\r') (more : List Char) :
    (cursor.followedBy ('\n' :: more)).skip n = (cursor.skip n).followedBy ('\n' :: more) := by
  induction n generalizing cursor with
  | zero => rfl
  | succ n ih =>
      rcases cursor with ⟨_ | ⟨c, rest⟩, offset, position⟩
      · exact absurd hn (Nat.not_succ_le_zero n)
      · have hrest := getLast?_drop_ne hreturn 1
        rw [followedBy, List.cons_append, skip, skip, next_append_lineEnd hreturn]
        exact @ih ⟨rest, _, _⟩ (Nat.le_of_succ_le_succ hn) hrest

theorem skip_last {cursor : Cursor} (hreturn : cursor.rest.getLast? ≠ some '\r')
    (more : List Char) : (cursor.followedBy ('\n' :: more)).skip cursor.rest.length
      = ⟨'\n' :: more, cursor.last.offset, cursor.last.position⟩ := by
  rw [skip_followedBy le_rfl hreturn, ← last, followedBy, rest_last, List.nil_append]

theorem line_lt_skip (n : Nat) (more : List Char) (offset : Nat) (p : Position) :
    p.line < (skip (n + 1) ⟨'\n' :: more, offset, p⟩).position.line := by
  have hle := Position.le_iff.mp
    (position_le_skip n ⟨more, offset + ('\n').utf8Size, ⟨p.line + 1, 1⟩⟩)
  change p.line < (skip n ⟨more, offset + ('\n').utf8Size, ⟨p.line + 1, 1⟩⟩).position.line
  dsimp only at hle
  omega

end Cursor

namespace Token

def behind (n : Nat) (t : Token) : Token :=
  { t with span := ⟨t.span.start + n, t.span.stop + n⟩ }

def Stream.behind (n : Nat) (s : Stream) : Stream :=
  ⟨s.tokens.map (Token.behind n), s.final.behind n⟩

namespace Reader

def followedBy (more : List Char) (r : Reader) : Reader :=
  { r with cursor := r.cursor.followedBy more }

def behind (n : Nat) (r : Reader) : Reader :=
  { r with cursor := r.cursor.behind n }

theorem next_behind (n : Nat) (r : Reader) :
    (r.behind n).next = (r.next.1.behind n, r.next.2.behind n) := by
  have hgap : (r.behind n).gapEnd = r.gapEnd.behind n := Cursor.skip_behind n _ r.cursor
  have hlexeme : (r.behind n).lexeme = r.lexeme := by
    rw [lexeme, lexeme, hgap]
    rfl
  rw [next_eq, next_eq, hlexeme, hgap, Cursor.skip_behind]
  rfl

theorem stream_behind (n : Nat) (r : Reader) : (r.behind n).stream = r.stream.behind n := by
  induction r using stream_induction with
  | atEnd r h =>
      have hbehind : (r.behind n).next.1.isEof = true := by
        rw [next_behind]
        exact h
      rw [stream_of_isEof h, stream_of_isEof hbehind, next_behind]
      rfl
  | before r h ih =>
      have hbehind : (r.behind n).next.1.isEof = false := by
        rw [next_behind]
        exact h
      rw [stream_of_not_isEof h, stream_of_not_isEof hbehind, next_behind, ih]
      rfl

theorem stream_eq_of_next_eq {r r' : Reader} (h : r.next = r'.next) : r.stream = r'.stream := by
  cases hend : r.next.1.isEof with
  | true => rw [stream_of_isEof hend, stream_of_isEof (h ▸ hend), h]
  | false =>
      have hend' : r'.next.1.isEof = false := h ▸ hend
      rw [stream_of_not_isEof hend, stream_of_not_isEof hend', h]

theorem gapLength_lineEnd (more : List Char) : gapLength ('\n' :: more) = gapLength more + 1 := by
  have hgap := IsGap.blank (c := '\n') (by decide) (isGap_gapLength more)
  have hlength := hgap.gapLength_eq (pieceLength_drop_gapLength more)
  rwa [List.cons_append, List.take_append_drop, List.length_cons, length_take_gapLength] at hlength

theorem gapEnd_lineEnd (more : List Char) (line : Nat) :
    (ofText ('\n' :: more) line).gapEnd
      = Cursor.skip (gapLength more + 1) (Cursor.ofText ('\n' :: more) (max line 1)) := by
  rw [gapEnd, ← gapLength_lineEnd]
  rfl

theorem newlineBefore_lineEnd (more : List Char) (line : Nat) :
    decide ((ofText ('\n' :: more) line).cursor.position.line
      < (ofText ('\n' :: more) line).gapEnd.position.line) = true := by
  rw [gapEnd_lineEnd, decide_eq_true_eq]
  exact Cursor.line_lt_skip (gapLength more) more 0 ⟨max line 1, 1⟩

/-- The first token of a text is the same behind a line end. -/
theorem next_kind_lineEnd (text : List Char) (line line' : Nat) :
    (ofText ('\n' :: text) line).next.1.kind = (ofText text line').next.1.kind := by
  have hgapEnd : (ofText ('\n' :: text) line).gapEnd.rest = (ofText text line').gapEnd.rest := by
    rw [gapEnd_lineEnd, gapEnd, Cursor.rest_skip, Cursor.rest_skip]
    rfl
  rw [next_kind, next_kind, lexeme, lexeme, hgapEnd]
  rfl

/-- Whatever follows behind a line end cannot belong to the tokens that are still to be read, nor
make a regular expression of what comes behind them. -/
structure IsComplete (r : Reader) : Prop where
  getLast?_ne : r.cursor.rest.getLast? ≠ some '\r'
  ofToken?_eq : ∀ t ∈ r.stream.tokens, LexicalError.ofToken? t = none
  isMatch_eq : (r.stream.tokens.getLast?.map (·.kind.isMatch)).getD r.afterMatch = false
  finished_eq : r.finished = false
  line_pos : 1 ≤ r.cursor.position.line

namespace IsComplete

variable {r : Reader} (h : r.IsComplete)
include h

theorem next (hnot : r.next.1.isEof = false) : r.next.2.IsComplete where
  getLast?_ne := by
    rw [next_cursor, Cursor.rest_skip, gapEnd, Cursor.rest_skip]
    exact Cursor.getLast?_drop_ne (Cursor.getLast?_drop_ne h.getLast?_ne _) _
  ofToken?_eq t ht := by
    refine h.ofToken?_eq t ?_
    rw [stream_of_not_isEof hnot]
    exact List.mem_cons_of_mem _ ht
  isMatch_eq := by
    have hmatch := h.isMatch_eq
    rw [stream_of_not_isEof hnot, List.getLast?_cons] at hmatch
    change Kind.isMatch _ = false at hmatch
    cases hlast : r.next.2.stream.tokens.getLast? with
    | none =>
        rw [hlast] at hmatch
        exact hmatch
    | some t =>
        rw [hlast] at hmatch
        exact hmatch
  finished_eq := by
    rw [next_eq, h.finished_eq]
    exact hnot
  line_pos := by
    have hgap := Position.le_iff.mp (position_le_gapEnd r)
    have hstop := Position.le_iff.mp (Cursor.position_le_skip r.lexeme.length r.gapEnd)
    have hline := h.line_pos
    rw [next_cursor]
    rw [position] at hgap
    omega

variable (more : List Char)

/-- A token is read as if nothing followed behind the line end. -/
theorem next_followedBy (hnot : r.next.1.isEof = false) :
    (r.followedBy ('\n' :: more)).next = (r.next.1, r.next.2.followedBy ('\n' :: more)) := by
  have hrest : r.gapEnd.rest ≠ [] := fun hnil =>
    Bool.noConfusion (hnot.symm.trans ((isEof_next_iff r).mpr hnil))
  have hfault : ∀ fault, r.lexeme.kind ≠ .invalid fault := by
    intro fault hkind
    have hvalid := h.ofToken?_eq r.next.1
      (by rw [stream_of_not_isEof hnot]; exact List.mem_cons_self)
    rw [LexicalError.ofToken?, next_kind, hkind] at hvalid
    cases hvalid
  have hopen : opensComment r.gapEnd.rest = false := by
    refine Bool.eq_false_iff.mpr fun hopens => ?_
    rw [lexeme, leadingLexeme, if_pos hopens] at hfault
    exact hfault _ rfl
  have hgapEnd : (r.followedBy ('\n' :: more)).gapEnd = r.gapEnd.followedBy ('\n' :: more) := by
    rw [gapEnd, Cursor.rest_skip] at hrest hopen
    have hlength := gapLength_append hrest hopen more
    have hle : gapLength r.cursor.rest ≤ r.cursor.rest.length :=
      Nat.le_of_lt (List.length_lt_of_drop_ne_nil hrest)
    rw [gapEnd, gapEnd, followedBy, ← Cursor.skip_followedBy hle h.getLast?_ne]
    exact congrArg (Cursor.skip · _) hlength
  have hends := endsIn_leadingLexeme _ _ hrest hfault
  have hlexeme : (r.followedBy ('\n' :: more)).lexeme = r.lexeme := by
    rw [lexeme, hgapEnd]
    exact hends.append_eq more
  have hstop : (r.gapEnd.followedBy ('\n' :: more)).skip r.lexeme.length
      = (r.gapEnd.skip r.lexeme.length).followedBy ('\n' :: more) := by
    refine Cursor.skip_followedBy ?_ ?_ more
    · exact hends.length_le.trans_eq (Nat.zero_add _)
    · rw [gapEnd, Cursor.rest_skip]
      exact Cursor.getLast?_drop_ne h.getLast?_ne _
  rw [next_eq, next_eq, hlexeme, hgapEnd, hstop]
  rfl

theorem gapEnd_followedBy (hend : r.next.1.isEof = true) :
    (r.followedBy ('\n' :: more)).gapEnd
      = (ofText ('\n' :: more) r.cursor.last.position.line).gapEnd.behind r.cursor.last.offset := by
  have hdrop : r.cursor.rest.drop (gapLength r.cursor.rest) = [] := by
    rw [isEof_next_iff, gapEnd, Cursor.rest_skip] at hend
    exact hend
  rw [gapEnd_lineEnd, ← Cursor.skip_lineEnd _ _ (h.line_pos.trans r.cursor.line_le_last), gapEnd]
  change Cursor.skip (gapLength (r.cursor.rest ++ '\n' :: more)) (Cursor.followedBy _ _) = _
  rw [gapLength_append_of_drop_eq_nil hdrop, gapLength_lineEnd, ← Cursor.skip_skip,
    Cursor.skip_last h.getLast?_ne]

/-- Behind the last token of the text and a line end the next token is read as at the beginning of a
text. -/
theorem next_followedBy_of_isEof (hend : r.next.1.isEof = true) :
    (r.followedBy ('\n' :: more)).next
      = ((ofText ('\n' :: more) r.cursor.last.position.line).behind r.cursor.last.offset).next := by
  have hmatch : r.afterMatch = false := by
    have hmatch := h.isMatch_eq
    rw [stream_of_isEof hend] at hmatch
    exact hmatch
  have hgapEnd := h.gapEnd_followedBy more hend
  have hnewline' := newlineBefore_lineEnd more r.cursor.last.position.line
  have hnewline : decide ((r.followedBy ('\n' :: more)).cursor.position.line
      < (r.followedBy ('\n' :: more)).gapEnd.position.line) = true := by
    rw [hgapEnd, decide_eq_true_eq]
    exact (r.cursor.line_le_last.trans (Nat.le_max_left _ 1)).trans_lt (of_decide_eq_true hnewline')
  have hlexeme : (r.followedBy ('\n' :: more)).lexeme
      = (ofText ('\n' :: more) r.cursor.last.position.line).lexeme := by
    rw [lexeme, lexeme, hnewline, hnewline', hgapEnd, Bool.or_true, Bool.or_true, followedBy,
      hmatch]
    rfl
  rw [next_behind, next_eq, next_eq, hlexeme, hnewline, hnewline', hgapEnd, Cursor.skip_behind,
    followedBy, h.finished_eq]
  rfl

/-- The tokens of a text that goes on behind a line end. -/
theorem stream_followedBy :
    let behind := (Stream.ofText ('\n' :: more) r.cursor.last.position.line).behind
      r.cursor.last.offset
    (r.followedBy ('\n' :: more)).stream = ⟨r.stream.tokens ++ behind.tokens, behind.final⟩ := by
  induction r using stream_induction with
  | atEnd r hend =>
      rw [stream_eq_of_next_eq (h.next_followedBy_of_isEof more hend), stream_behind,
        stream_of_isEof hend]
      rfl
  | before r hnot ih =>
      have hnext := h.next_followedBy more hnot
      have hnot' : (r.followedBy ('\n' :: more)).next.1.isEof = false := by
        rw [hnext]
        exact hnot
      have hlast : r.next.2.cursor.last = r.cursor.last := by
        rw [next_cursor, Cursor.last_skip, gapEnd, Cursor.last_skip]
      have hrest := ih (h.next hnot)
      rw [hlast] at hrest
      rw [stream_of_not_isEof hnot', hnext, stream_of_not_isEof hnot]
      dsimp only
      rw [hrest]
      rfl

end IsComplete

end Reader

/-- The tokens of two texts with a line end between them. -/
theorem Stream.ofText_append {text : List Char} {line : Nat}
    (hreturn : text.getLast? ≠ some '\r')
    (hvalid : ∀ t ∈ (ofText text line).tokens, LexicalError.ofToken? t = none)
    (hmatch : ∀ t ∈ (ofText text line).tokens.getLast?, t.kind.isMatch = false)
    (more : List Char) :
    let behind := (ofText ('\n' :: more) (max line 1 + (lineEnds text text.length).length)).behind
      (utf8Len text)
    ofText (text ++ '\n' :: more) line
      = ⟨(ofText text line).tokens ++ behind.tokens, behind.final⟩ := by
  have hcomplete : (Reader.ofText text line).IsComplete := by
    refine ⟨hreturn, hvalid, ?_, rfl, Nat.le_max_right line 1⟩
    cases hlast : (Reader.ofText text line).stream.tokens.getLast? with
    | none => rfl
    | some t => exact hmatch t hlast
  have hlast : (Reader.ofText text line).cursor.last
      = (Cursor.ofText text (max line 1)).skip text.length := rfl
  have hstream := hcomplete.stream_followedBy more
  rw [hlast, Cursor.offset_skip_ofText, Cursor.position_skip_ofText text _ le_rfl,
    List.take_length] at hstream
  exact hstream

theorem Reader.head?_stream (r : Reader) :
    r.stream.tokens.head?.getD r.stream.final = r.next.1 := by
  cases h : r.next.1.isEof with
  | true =>
      rw [stream_of_isEof h]
      rfl
  | false =>
      rw [stream_of_not_isEof h]
      rfl

theorem Stream.head?_behind (n : Nat) (s : Stream) :
    (s.behind n).tokens.head?.getD (s.behind n).final = (s.tokens.head?.getD s.final).behind n := by
  rw [behind, List.head?_map]
  cases s.tokens.head? <;> rfl

end Token

end QoreSyntax

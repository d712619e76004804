import QoreSyntax.Proofs.Token.Ending.Gap
import QoreSyntax.Proofs.Token.Tiling

/-!
Literals and comments that nothing closes. Their token begins with an opening mark and ends before a
line end or at the end of the text, so that reading goes on with the next line. A line end that a
backslash protects does not count: it lies inside the token.
-/

namespace QoreSyntax

open Token

/-- The marks that open a literal or comment of this kind. -/
def Enclosure.openings : Enclosure → List (List Char)
  | .string => [['"'], ['\'']]
  | .backquote => [['\x60']]
  | .regex => [['/'], ['m', '/'], ['s', '/'], ['x', '/'], ['t', 'r', '/']]
  | .comment => [['/', '*']]

namespace Token

/-- Behind this mark a backslash protects the character after it from ending a literal that nothing
closes. -/
def protects (opening : List Char) : Bool :=
  opening == ['"'] || Enclosure.regex.openings.contains opening

/-- The characters `body`, behind which `after` is the rest of the text, end before a line end or
at the end of the text. Each line end among them is protected by the backslash before it, if
backslashes protect characters at all. -/
structure EndsAtLine (escapes : Bool) (body after : List Char) : Prop where
  ending : ∀ c ∈ after.head?, isLineEnd c = true
  protected_lineEnd : ∀ front c back, body = front ++ c :: back → isLineEnd c = true →
    escapes = true ∧ front.getLast? = some '\\'

namespace EndsAtLine

variable {escapes : Bool} {body after : List Char}

theorem nil (h : ∀ c ∈ after.head?, isLineEnd c = true) : EndsAtLine escapes [] after where
  ending := h
  protected_lineEnd front c back hsplit := by simp at hsplit

theorem cons (h : EndsAtLine escapes body after) {c : Char} (hc : isLineEnd c = false) :
    EndsAtLine escapes (c :: body) after where
  ending := h.ending
  protected_lineEnd front d back hsplit hd := by
    rcases List.cons_eq_append_iff.mp hsplit with ⟨rfl, hbody⟩ | ⟨front, rfl, hbody⟩
    · obtain rfl : d = c := (List.cons.inj hbody).1
      exact Bool.noConfusion (hc.symm.trans hd)
    · obtain ⟨hescapes, hlast⟩ := h.protected_lineEnd front d back hbody hd
      refine ⟨hescapes, ?_⟩
      rw [List.getLast?_cons, hlast, Option.getD_some]

theorem escape (h : EndsAtLine true body after) (c : Char) :
    EndsAtLine true ('\\' :: c :: body) after where
  ending := h.ending
  protected_lineEnd front d back hsplit hd := by
    rcases List.cons_eq_append_iff.mp hsplit with ⟨rfl, hbody⟩ | ⟨front, rfl, hbody⟩
    · obtain rfl : d = '\\' := (List.cons.inj hbody).1
      exact Bool.noConfusion hd
    · rcases List.cons_eq_append_iff.mp hbody with ⟨rfl, -⟩ | ⟨front, rfl, hrest⟩
      · exact ⟨rfl, rfl⟩
      · obtain ⟨-, hlast⟩ := h.protected_lineEnd front d back hrest hd
        refine ⟨rfl, ?_⟩
        rw [List.getLast?_cons, List.getLast?_cons, hlast]
        rfl

end EndsAtLine

/-- What a literal that nothing closes takes behind its opening mark. -/
theorem exists_of_lineLength (escapes : Bool) (count : Nat) (text : List Char) :
    ∃ body after, text = body ++ after ∧ lineLength escapes count text = count + body.length ∧
      EndsAtLine escapes body after := by
  fun_induction lineLength escapes count text with
  | case1 count => exact ⟨[], [], rfl, rfl, EndsAtLine.nil (by simp)⟩
  | case2 count c cs hend => exact ⟨[], c :: cs, rfl, rfl, EndsAtLine.nil (by simpa using hend)⟩
  | case3 count c hend hescape =>
      refine ⟨[c], [], rfl, rfl, (EndsAtLine.nil (by simp)).cons ?_⟩
      exact Bool.eq_false_iff.mpr hend
  | case4 count c hend hescape d cs ih =>
      rw [Bool.and_eq_true, beq_iff_eq] at hescape
      obtain ⟨rfl, rfl⟩ := hescape
      obtain ⟨body, after, rfl, hlength, hbody⟩ := ih
      refine ⟨'\\' :: d :: body, after, rfl, ?_, hbody.escape d⟩
      rw [hlength, List.length_cons, List.length_cons]
      omega
  | case5 count c cs hend hescape ih =>
      obtain ⟨body, after, rfl, hlength, hbody⟩ := ih
      refine ⟨c :: body, after, rfl, ?_, hbody.cons (Bool.eq_false_iff.mpr hend)⟩
      rw [hlength, List.length_cons]
      omega

/-- If the lexeme at the beginning of the text is a literal or comment that nothing closes, it
begins with an opening mark and ends at a line end. -/
def Lexeme.EndsAtLine (lexeme : Lexeme) (text : List Char) : Prop :=
  ∀ enclosure, lexeme.kind = .invalid (.unterminated enclosure) →
    ∃ opening ∈ enclosure.openings, ∃ body after, text = opening ++ body ++ after ∧
      lexeme.length = (opening ++ body).length ∧ Token.EndsAtLine (protects opening) body after

theorem unterminated_endsAtLine {enclosure : Enclosure} (opening : List Char)
    (hopening : opening ∈ enclosure.openings) (rest : List Char) :
    (unterminated enclosure (protects opening) opening.length rest).EndsAtLine
      (opening ++ rest) := by
  intro other hkind
  obtain rfl : enclosure = other := by simpa [unterminated] using hkind
  obtain ⟨body, after, rfl, hlength, hbody⟩ := exists_of_lineLength (protects opening) 0 rest
  refine ⟨opening, hopening, body, after, (List.append_assoc _ _ _).symm, ?_, hbody⟩
  rw [unterminated, hlength, Nat.zero_add, List.length_append]

/-- A lexeme that is closed, or that is no literal, is of another kind. -/
theorem endsAtLine_of_ne {lexeme : Lexeme}
    (h : ∀ enclosure, lexeme.kind ≠ .invalid (.unterminated enclosure)) (text : List Char) :
    lexeme.EndsAtLine text :=
  fun enclosure hkind => absurd hkind (h enclosure)

theorem doubleQuoted_endsAtLine (rest : List Char) :
    (doubleQuoted rest).EndsAtLine ('"' :: rest) := by
  rw [doubleQuoted]
  split
  · exact unterminated_endsAtLine ['"'] (by decide) rest
  · exact endsAtLine_of_ne (by simp) _

theorem singleQuoted_endsAtLine (rest : List Char) :
    (singleQuoted rest).EndsAtLine ('\'' :: rest) := by
  rw [singleQuoted]
  split
  · exact unterminated_endsAtLine ['\''] (by decide) rest
  · exact endsAtLine_of_ne (by simp) _

theorem backquoted_endsAtLine (rest : List Char) :
    (backquoted rest).EndsAtLine ('\x60' :: rest) := by
  rw [backquoted]
  split
  · exact unterminated_endsAtLine ['\x60'] (by decide) rest
  · exact endsAtLine_of_ne (by simp) _

theorem exists_of_regexOpening? {text : List Char} {purpose : Regex.Purpose} {length : Nat}
    (h : regexOpening? text = some (purpose, length)) :
    ∃ opening ∈ Enclosure.regex.openings, text = opening ++ text.drop length ∧
      opening.length = length := by
  rw [regexOpening?.eq_def] at h
  split at h
  · obtain ⟨-, rfl⟩ := Prod.mk.inj (Option.some.inj h)
    exact ⟨['/'], by decide, rfl, rfl⟩
  · obtain ⟨-, rfl⟩ := Prod.mk.inj (Option.some.inj h)
    exact ⟨['m', '/'], by decide, rfl, rfl⟩
  · obtain ⟨-, rfl⟩ := Prod.mk.inj (Option.some.inj h)
    exact ⟨['s', '/'], by decide, rfl, rfl⟩
  · obtain ⟨-, rfl⟩ := Prod.mk.inj (Option.some.inj h)
    exact ⟨['x', '/'], by decide, rfl, rfl⟩
  · obtain ⟨-, rfl⟩ := Prod.mk.inj (Option.some.inj h)
    exact ⟨['t', 'r', '/'], by decide, rfl, rfl⟩
  · cases h

theorem regexLiteral_endsAtLine (purpose : Regex.Purpose) {opening : List Char}
    (hopening : opening ∈ Enclosure.regex.openings) (rest : List Char) :
    (regexLiteral purpose opening.length rest).EndsAtLine (opening ++ rest) := by
  have hprotects : protects opening = true := by
    rw [protects, List.contains_iff_mem.mpr hopening, Bool.or_true]
  have hopen := unterminated_endsAtLine opening hopening rest
  rw [hprotects] at hopen
  simp only [regexLiteral]
  split
  · exact hopen
  · split_ifs
    · split
      · exact hopen
      · exact endsAtLine_of_ne (by simp) _
    · exact endsAtLine_of_ne (by simp) _

theorem numeral_ne_unterminated (text : List Char) (enclosure : Enclosure) :
    (numeral text).kind ≠ .invalid (.unterminated enclosure) := by
  intro hkind
  have hnumeral := numeral_isNumeral text
  rw [hkind] at hnumeral
  cases hnumeral

theorem dollarForm_ne_unterminated (rest : List Char) (enclosure : Enclosure) :
    (dollarForm rest).kind ≠ .invalid (.unterminated enclosure) := by
  intro hkind
  have hform := dollarForm_isDollarForm rest
  rw [hkind] at hform
  cases hform

theorem word_ne_unterminated (text : List Char) (enclosure : Enclosure) :
    (word text).kind ≠ .invalid (.unterminated enclosure) := by
  rw [word]
  split <;> simp

theorem plainLexeme_endsAtLine (lineStart : Bool) (text : List Char) :
    (plainLexeme lineStart text).EndsAtLine text := by
  rcases text with - | ⟨c, cs⟩
  · exact endsAtLine_of_ne (by simp [plainLexeme]) _
  obtain ⟨read, hread, htext⟩ := exists_readBy c
  rw [htext]
  cases hread with
  | doubleQuoted => exact doubleQuoted_endsAtLine cs
  | singleQuoted => exact singleQuoted_endsAtLine cs
  | backquoted => exact backquoted_endsAtLine cs
  | dollarForm => exact endsAtLine_of_ne (dollarForm_ne_unterminated cs) _
  | numeral => exact endsAtLine_of_ne (numeral_ne_unterminated _) _
  | word => exact endsAtLine_of_ne (word_ne_unterminated _) _
  | mark =>
      rw [markLexeme]
      split_ifs
      · exact endsAtLine_of_ne (by simp [directive]) _
      · split
        · exact endsAtLine_of_ne (by simp) _
        · exact endsAtLine_of_ne (by simp [unexpected]) _

theorem leadingLexeme_endsAtLine (lineStart afterMatch : Bool) (text : List Char) :
    (leadingLexeme lineStart afterMatch text).EndsAtLine text := by
  rw [leadingLexeme]
  split_ifs with hcomment hafter
  · obtain ⟨rest, rfl⟩ := List.isPrefixOf_iff_prefix.mp hcomment
    exact unterminated_endsAtLine ['/', '*'] (by decide) rest
  · split
    · rename_i purpose length hopening
      obtain ⟨opening, hmem, htext, rfl⟩ := exists_of_regexOpening? hopening
      have hregex := regexLiteral_endsAtLine purpose hmem (text.drop opening.length)
      rwa [← htext] at hregex
    · exact plainLexeme_endsAtLine lineStart text
  · exact plainLexeme_endsAtLine lineStart text

/-- A line end with which the text begins is part of the gap before the next token, together with
the line feed that may follow a carriage return. -/
theorem exists_line_lt_skip {c : Char} (hc : isLineEnd c = true) (cs : List Char) :
    ∃ n, n ≤ gapLength (c :: cs) ∧ ∀ offset position,
      position.line < (Cursor.skip n ⟨c :: cs, offset, position⟩).position.line := by
  have hblank : pieceLength (c :: cs) = 1 := by
    rw [pieceLength, isBlank, hc, Bool.or_true, if_pos rfl]
  have hgap : gapLength (c :: cs) = gapFrom 0 1 cs :=
    gapFrom_piece 0 (List.cons_ne_nil c []) hblank
  cases hends : endsLine c cs with
  | true =>
      obtain ⟨gap, rest, -, hlength, -⟩ := exists_gap_of_gapFrom 0 1 cs (Nat.zero_le _)
      refine ⟨1, by omega, fun offset position => ?_⟩
      rw [Cursor.skip, Cursor.skip, Position.next, if_pos hends]
      exact Nat.lt_succ_self _
  | false =>
      -- The line ends with the line feed behind a carriage return.
      obtain ⟨rest, rfl⟩ : ∃ rest, cs = '\n' :: rest := by
        rw [isLineEnd, Bool.or_eq_true, beq_iff_eq, beq_iff_eq] at hc
        rcases hc with rfl | rfl
        · exact Bool.noConfusion hends
        · have hhead : cs.head? = some '\n' := by simpa [endsLine] using hends
          exact List.head?_eq_some_iff.mp hhead
      have hfeed : gapFrom 0 1 ('\n' :: rest) = gapFrom 0 2 rest :=
        gapFrom_piece 1 (List.cons_ne_nil '\n' []) rfl
      obtain ⟨gap, rest, -, hlength, -⟩ := exists_gap_of_gapFrom 0 2 rest (Nat.zero_le _)
      refine ⟨2, by omega, fun offset position => ?_⟩
      rw [Cursor.skip, Position.next_of_not_endsLine hends]
      exact Nat.lt_succ_self _

namespace Reader

/-- A reader that is at a line end reads the next token from another line. -/
theorem newlineBefore_next {r : Reader} (h : ∀ c ∈ r.cursor.rest.head?, isLineEnd c = true) :
    r.next.1.isEof = true ∨ r.next.1.newlineBefore = true := by
  rcases hcursor : r.cursor with ⟨_ | ⟨c, cs⟩, offset, position⟩
  · refine Or.inl ((isEof_next_iff r).mpr ?_)
    rw [gapEnd, Cursor.rest_skip, hcursor, List.drop_nil]
  · rw [hcursor] at h
    obtain ⟨n, hn, hline⟩ := exists_line_lt_skip (h c rfl) cs
    obtain ⟨k, hk⟩ := Nat.exists_eq_add_of_le hn
    refine Or.inr (decide_eq_true ?_)
    have hle := Cursor.position_le_skip k (Cursor.skip n ⟨c :: cs, offset, position⟩)
    have hlt := hline offset position
    rw [Cursor.skip_skip, ← hk] at hle
    rw [hcursor]
    rcases Position.le_iff.mp hle with hline | ⟨hline, -⟩
    · exact hlt.trans hline
    · exact hline ▸ hlt

theorem endsAtLine_next (r : Reader) : r.lexeme.EndsAtLine r.gapEnd.rest :=
  leadingLexeme_endsAtLine _ _ _

theorem newlineBefore_of_unterminated {r : Reader} {enclosure : Enclosure}
    (h : r.next.1.kind = .invalid (.unterminated enclosure)) :
    r.next.2.next.1.isEof = true ∨ r.next.2.next.1.newlineBefore = true := by
  obtain ⟨opening, -, body, after, htext, hlength, hends⟩ := r.endsAtLine_next enclosure h
  apply newlineBefore_next
  rw [next_cursor, Cursor.rest_skip, htext, hlength, List.drop_left]
  exact hends.ending

/-- The token is a stretch of the text that begins with an opening mark. -/
theorem ReadsIn.cuts_of_unterminated {text : List Char} {line : Nat} {r : Reader}
    (hr : r.ReadsIn text line) {enclosure : Enclosure}
    (h : r.next.1.kind = .invalid (.unterminated enclosure)) :
    ∃ opening ∈ enclosure.openings, ∃ body after,
      r.next.1.span.Cuts text (opening ++ body) after ∧
        EndsAtLine (protects opening) body after := by
  obtain ⟨opening, hopening, body, after, htext, hlength, hends⟩ := r.endsAtLine_next enclosure h
  obtain ⟨n, hgapEnd⟩ := hr.gapEnd
  have hcuts := Cursor.cuts_skip text line n r.lexeme.length
  rw [← hgapEnd, htext, hlength, List.take_left, List.drop_left] at hcuts
  refine ⟨opening, hopening, body, after, ?_, hends⟩
  rw [next_span, hlength]
  exact hcuts

end Reader

/-- In any text a literal or comment that nothing closes begins with its opening mark and ends
before a line end or at the end of the text, and the next token stands on another line. It holds a
line end only where a backslash protects it. -/
theorem unterminated_ends_at_line (text : List Char) (line : Nat) :
    let stream := Stream.ofText text line
    (∀ t ∈ stream.tokens, ∀ enclosure, t.kind = .invalid (.unterminated enclosure) →
      ∃ opening ∈ enclosure.openings, ∃ body after,
        t.span.Cuts text (opening ++ body) after ∧
          (∀ c ∈ after.head?, isLineEnd c = true) ∧
          ∀ front c back, body = front ++ c :: back → isLineEnd c = true →
            protects opening = true ∧ front.getLast? = some '\\') ∧
      stream.toList.IsChain fun t u =>
        ∀ enclosure, t.kind = .invalid (.unterminated enclosure) →
          u.isEof = true ∨ u.newlineBefore = true := by
  have hI : ∀ r, Reader.ReadsIn text (max line 1) r → r.next.2.ReadsIn text (max line 1) :=
    fun _ h => h.next
  have hstart := Reader.readsIn_ofText text line
  refine ⟨fun t hmem enclosure hkind => ?_, ?_⟩
  · obtain ⟨r, hr, rfl⟩ := Reader.exists_of_mem_stream hI hstart hmem
    obtain ⟨opening, hopening, body, after, hcuts, hends⟩ := hr.cuts_of_unterminated hkind
    exact ⟨opening, hopening, body, after, hcuts, hends.ending, hends.protected_lineEnd⟩
  · exact Reader.isChain_toList hI (fun r _ _ => Reader.newlineBefore_of_unterminated) hstart

/-- A protected line end carries a string that nothing closes over to the next line, so that one
token takes both lines. -/
theorem unterminated_takes_protected_line_end :
    let text := ['"', '\\', '\n', 'x', ';']
    ∃ t ∈ (Stream.ofText text 1).tokens, t.kind = .invalid (.unterminated .string) ∧
      t.range = ⟨⟨1, 1⟩, ⟨2, 3⟩⟩ ∧ ∃ piece after, t.span.Cuts text piece after ∧ '\n' ∈ piece := by
  intro text
  refine ⟨⟨.invalid (.unterminated .string), ⟨0, 5⟩, ⟨⟨1, 1⟩, ⟨2, 3⟩⟩, false⟩, by decide, rfl, rfl,
    text, [], ⟨[], rfl, rfl, rfl⟩, by decide⟩

end Token

end QoreSyntax

import QoreSyntax.Proofs.Token.Tiling

namespace QoreSyntax

/-- A line ends with one of the characters `piece`, behind which `after` is the rest of the text:
with a line feed, or with a carriage return that no line feed follows. -/
def HasLineEnd (piece after : List Char) : Prop :=
  ∃ front c back, piece = front ++ c :: back ∧
    (c = '\n' ∨ (c = '\r' ∧ (back ++ after).head? ≠ some '\n'))

theorem endsLine_iff {c : Char} {rest : List Char} :
    endsLine c rest = true ↔ c = '\n' ∨ (c = '\r' ∧ rest.head? ≠ some '\n') := by
  simp only [endsLine, Bool.or_eq_true, Bool.and_eq_true, beq_iff_eq, bne_iff_ne]

theorem not_hasLineEnd_nil (after : List Char) : ¬HasLineEnd [] after := by
  rintro ⟨front, c, back, hpiece, -⟩
  simp at hpiece

theorem hasLineEnd_cons {c : Char} {piece after : List Char} :
    HasLineEnd (c :: piece) after ↔
      endsLine c (piece ++ after) = true ∨ HasLineEnd piece after := by
  constructor
  · rintro ⟨front, d, back, hpiece, hends⟩
    rcases front with - | ⟨_, front⟩
    · obtain ⟨rfl, rfl⟩ := List.cons.inj hpiece
      exact Or.inl (endsLine_iff.mpr hends)
    · obtain ⟨-, rfl⟩ := List.cons.inj hpiece
      exact Or.inr ⟨front, d, back, rfl, hends⟩
  · rintro (hends | ⟨front, d, back, rfl, hends⟩)
    · exact ⟨[], c, piece, rfl, endsLine_iff.mp hends⟩
    · exact ⟨c :: front, d, back, rfl, hends⟩

/-- Passing over characters leads to another line exactly if a line ends among them. -/
theorem Cursor.line_lt_skip_iff (n : Nat) (cursor : Cursor) :
    cursor.position.line < (cursor.skip n).position.line ↔
      HasLineEnd (cursor.rest.take n) (cursor.rest.drop n) := by
  induction n generalizing cursor with
  | zero =>
      constructor
      · intro hlt
        exact absurd hlt (Nat.lt_irrefl _)
      · intro hends
        exact absurd hends (not_hasLineEnd_nil _)
  | succ n ih =>
      rcases cursor with ⟨_ | ⟨c, rest⟩, offset, position⟩
      · constructor
        · intro hlt
          exact absurd hlt (Nat.lt_irrefl _)
        · intro hends
          exact absurd hends (not_hasLineEnd_nil _)
      · have hbehind := ih ⟨rest, offset + c.utf8Size, position.next c rest⟩
        have hle := Position.le_iff.mp
          (position_le_skip n ⟨rest, offset + c.utf8Size, position.next c rest⟩)
        simp only [skip, List.take_succ_cons, List.drop_succ_cons, hasLineEnd_cons,
          List.take_append_drop]
        cases hends : endsLine c rest with
        | true =>
            have hnext : (position.next c rest).line = position.line + 1 := by
              rw [Position.next, if_pos hends]
            simp only [hnext] at hle
            simp only [true_or, iff_true]
            omega
        | false =>
            have hnext : (position.next c rest).line = position.line := by
              rw [Position.next_of_not_endsLine hends]
            simpa [hnext] using hbehind

namespace Token

/-- The stretch of text before the token `n`: from the end of the token before it, or from the
beginning of the text. -/
def gapBefore (token : Nat → Token) : Nat → Span
  | 0 => ⟨0, (token 0).span.start⟩
  | n + 1 => ⟨(token n).span.stop, (token (n + 1)).span.start⟩

namespace Reader

/-- A reader from which the token `n` is read stands at the beginning of the gap before it. -/
theorem exists_gapBefore (text : List Char) (line n : Nat) :
    ∃ r, ReadsIn text (max line 1) r ∧ r.next.1 = (ofText text line).token n ∧
      (⟨r.cursor.offset, r.next.1.span.start⟩ : Span) = gapBefore (ofText text line).token n := by
  have hI : ∀ r, ReadsIn text (max line 1) r → r.next.2.ReadsIn text (max line 1) :=
    fun _ h => h.next
  cases n with
  | zero => exact ⟨ofText text line, readsIn_ofText text line, rfl, rfl⟩
  | succ n =>
      obtain ⟨r, hr, hthis, hnext⟩ := exists_token hI (readsIn_ofText text line) n
      refine ⟨r.next.2, hr.next, hnext, ?_⟩
      rw [gapBefore, ← hnext, ← hthis]
      rfl

theorem newlineBefore_iff (r : Reader) : r.next.1.newlineBefore = true ↔
    HasLineEnd (r.cursor.rest.take (gapLength r.cursor.rest))
      (r.cursor.rest.drop (gapLength r.cursor.rest)) := by
  rw [← Cursor.line_lt_skip_iff]
  exact decide_eq_true_iff

end Reader

/-- However many tokens are read of a text, the newline flag of each of them is set if and only if a
line ends in the gap between the token before it, or the beginning of the text, and its own start.
The tokens up to the end marker are the first ones that are read. -/
theorem newline_flags_follow_from_gaps (text : List Char) (line : Nat) :
    let token := (Reader.ofText text line).token
    (∀ n, ∃ gap after, (gapBefore token n).Cuts text gap after ∧ IsGap gap after ∧
      ((token n).newlineBefore = true ↔ HasLineEnd gap after)) ∧
      (Stream.ofText text line).toList =
        (List.range (Stream.ofText text line).toList.length).map token := by
  dsimp only
  constructor
  · intro n
    obtain ⟨r, ⟨m, hcursor⟩, htoken, hgap⟩ := Reader.exists_gapBefore text line n
    have hcuts := Cursor.cuts_skip text (max line 1) m (gapLength r.cursor.rest)
    rw [← hcursor] at hcuts
    refine ⟨_, _, ?_, isGap_gapLength r.cursor.rest, ?_⟩
    · rw [← hgap]
      exact hcuts
    · rw [← htoken]
      exact r.newlineBefore_iff
  · exact Reader.toList_eq_map_token _

end Token

end QoreSyntax

import QoreSyntax.Proofs.Grammar.Iteration
import QoreSyntax.Proofs.Token.Ending.Gap
import QoreSyntax.Proofs.Token.Tiling

namespace QoreSyntax

open String (utf8Len)

namespace Token.Stream

/-- A text has no tokens if and only if it is a gap. -/
theorem tokens_ofText_eq_nil_iff (text : List Char) (line : Nat) :
    (ofText text line).tokens = [] ↔ IsGap text [] := by
  have hend : (ofText text line).tokens = [] ↔ text.drop (gapLength text) = [] := by
    have hrest : (Reader.ofText text line).gapEnd.rest = text.drop (gapLength text) :=
      Cursor.rest_skip _ _
    rw [← hrest, ← Reader.isEof_next_iff, ofText_eq_stream]
    cases heof : (Reader.ofText text line).next.1.isEof with
    | true => simp [Reader.stream_of_isEof heof]
    | false => simp [Reader.stream_of_not_isEof heof]
  rw [hend]
  constructor
  · intro hdrop
    have hgap := isGap_gapLength text
    rwa [hdrop, List.take_of_length_le (List.drop_eq_nil_iff.mp hdrop)] at hgap
  · intro hgap
    have hlength := hgap.gapLength_eq rfl
    rw [List.append_nil] at hlength
    rw [hlength, List.drop_length]

/-- The end marker stands behind the last character. -/
theorem final_start_ofText (text : List Char) (line : Nat) :
    (ofText text line).final.range.start
      = Position.ofOffset text (max line 1) (utf8Len text) := by
  have hI : ∀ r, Reader.ReadsIn text (max line 1) r → r.next.2.ReadsIn text (max line 1) :=
    fun _ h => h.next
  obtain ⟨r, hr, hfinal⟩ := Reader.exists_stream_final hI (Reader.readsIn_ofText text line)
  have heof := isEof_ofText_final text line
  rw [ofText_eq_stream, ← hfinal] at heof ⊢
  rw [hr.range_eq, hr.span_of_isEof heof]

end Token.Stream

namespace Grammar

/-- Where there are tokens the root holds the statements up to the end of the text. -/
theorem script_of_not_isAtEnd (options : Options) {s : State} (h : s.isAtEnd = false) :
    let read := (sequence .endOfInput statement).runWithin options.limit s
    script options s =
      (⟨some ⟨.script, ⟨⟨options.firstLine, 1⟩, read.2.current.range.start⟩, .none, read.1⟩⟩,
        read.2.diagnostics) := by
  intro read
  rw [script, h, if_neg Bool.false_ne_true]

/-- Behind the statements of a text the end marker is next. -/
theorem current_statements (limit : Nat) {s : State} (hfinal : s.final.isEof = true) :
    ((sequence .endOfInput statement).runWithin limit s).2.current = s.final := by
  have hend : ((sequence .endOfInput statement).runWithin limit s).2.isAtEnd = true :=
    Parser.ensures_sequence_endOfInput (onlyTakes_parse limit limit) statement s hfinal
  have hreaches := State.isTrail_reaches.runWithin limit (sequence .endOfInput statement) s
  rw [State.current, State.isAtEnd_iff.mp hend, List.head?_nil, Option.getD_none,
    hreaches.final_eq]

/-- There is no tree if and only if the end marker is the only token, which is so if and only if the
text is made of blanks, line ends and comments; then nothing is reported. Any other tree is that of
a script, from the first column of the first line to the place behind the last character. -/
theorem root_reaches_over_text (text : List Char) (options : Options) :
    let line := max options.startLine 1
    let stream := Token.Stream.ofText text line
    let (tree, reports) := QoreSyntax.parse text options
    (tree.root? = none ↔ stream.toList = [stream.final]) ∧
      (stream.toList = [stream.final] ↔ Token.IsGap text []) ∧
      (tree.root? = none → reports = []) ∧
      ∀ root, tree.root? = some root → root.kind = .script ∧
        root.range = ⟨⟨line, 1⟩, Position.ofOffset text line (utf8Len text)⟩ := by
  intro line stream
  have halone : stream.toList = [stream.final] ↔ stream.tokens = [] := by
    rw [Token.Stream.toList]
    exact List.append_left_eq_self
  have hgap : stream.tokens = [] ↔ Token.IsGap text [] :=
    Token.Stream.tokens_ofText_eq_nil_iff text line
  rw [halone, ← hgap, QoreSyntax.parse]
  cases hend : (start text options).isAtEnd with
  | true =>
      have hnil : stream.tokens = [] := State.isAtEnd_iff.mp hend
      rw [script, hend, if_pos rfl]
      refine ⟨⟨fun _ => hnil, fun _ => rfl⟩, Iff.rfl, fun _ => rfl, ?_⟩
      intro root hroot
      cases hroot
  | false =>
      have hsome : stream.tokens ≠ [] := fun hnil =>
        Bool.noConfusion (hend.symm.trans (State.isAtEnd_iff.mpr hnil))
      have hfinal : (start text options).final.isEof = true :=
        Token.Stream.isEof_ofText_final text _
      rw [script_of_not_isAtEnd options hend, current_statements options.limit hfinal]
      refine ⟨⟨fun hroot => ?_, fun hnil => absurd hnil hsome⟩, Iff.rfl, fun hroot => ?_, ?_⟩
      · cases hroot
      · cases hroot
      · intro root hroot
        obtain rfl := Option.some.inj hroot
        have hstop := Token.Stream.final_start_ofText text line
        rw [Nat.max_eq_left (Nat.le_max_right _ _)] at hstop
        exact ⟨rfl, congrArg (Range.mk ⟨line, 1⟩) hstop⟩

end Grammar

end QoreSyntax

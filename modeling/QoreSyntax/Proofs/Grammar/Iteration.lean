import QoreSyntax.Grammar.Statement
import QoreSyntax.Proofs.Grammar.Progress

namespace QoreSyntax.Grammar

/-- Tokens may have been taken since the first state, and there is one more. -/
structure State.Ready (o s : State) : Prop where
  reaches : o.Reaches s
  pending_ne_nil : s.pending ≠ []

/-- If the repetition goes on, a token or half of one has been taken since the state `o`. -/
def Step.Advances {α : Type} (o : State) : Step α → State → Prop
  | .again _, s => o.Beyond s
  | .done _, _ => True

namespace Parser

variable {nested : Goal → State → Node × State} (h : OnlyTakes nested)
include h

theorem ensures_reaches {α : Type} (o : State) (parser : Parser α) :
    Ensures nested o.Reaches parser fun _ => o.Reaches :=
  fun s hs => hs.trans (State.isTrail_reaches.run h parser s)

theorem ensures_beyond {α : Type} (o : State) (parser : Parser α) :
    Ensures nested o.Beyond parser fun _ => o.Beyond :=
  fun s hs => hs.trans (State.isTrail_reaches.run h parser s)

theorem ensures_final {α : Type} (parser : Parser α) :
    Ensures nested (fun s => s.final.isEof = true) parser fun _ s => s.final.isEof = true := by
  intro s hs
  rw [(State.isTrail_reaches.run h parser s).final_eq]
  exact hs

/-- Once a token is taken it does not matter what follows. -/
theorem ensures_advances {α : Type} (o : State) (parser : Parser (Step α)) :
    Ensures nested o.Beyond parser (Step.Advances o) := by
  refine (ensures_beyond h o parser).weaken fun result s hs => ?_
  cases result with
  | again _ => exact hs
  | done _ => trivial

omit h

theorem ensures_advance (o : State) :
    Ensures nested o.Ready Grammar.advance fun _ => o.Beyond :=
  fun _ hs => hs.reaches.trans_beyond (State.beyond_advance hs.pending_ne_nil)

theorem ensures_report (o : State) (problem : Problem) :
    Ensures nested o.Ready (Grammar.report problem) fun _ => o.Ready :=
  fun s hs => ⟨hs.reaches.trans (State.Reaches.report problem s),
    (State.report_pending problem s).symm ▸ hs.pending_ne_nil⟩

theorem ensures_mark {P : State → Prop} : Ensures nested P Grammar.mark fun _ => P :=
  fun _ hs => hs

/-- Takes the first token of the state `o`. -/
theorem ensures_advance_first {o : State} (hpending : o.pending ≠ []) :
    Ensures nested (fun s => s = o) Grammar.advance fun _ => o.Beyond :=
  (ensures_advance o).at_state ⟨State.Reaches.refl o, hpending⟩

theorem ensures_eat_first {o : State} (hfinal : o.final.isEof = true) {symbol : Symbol}
    (hat : o.isAt symbol = true) :
    Ensures nested (fun s => s = o) (eat symbol) fun eaten s => eaten = true ∧ o.Beyond s := by
  have hpending := State.pending_ne_nil_of_isAt hfinal hat
  refine Ensures.look_at ?_
  rw [if_pos hat]
  exact Ensures.bind (ensures_advance_first hpending) fun _ => Ensures.done fun t ht => ⟨rfl, ht⟩

theorem ensures_eat {o : State} (hfinal : o.final.isEof = true) (symbol : Symbol) :
    Ensures nested o.Reaches (eat symbol) fun eaten s => eaten = true → o.Beyond s := by
  intro s hs
  cases hat : s.isAt symbol with
  | true =>
      intro _
      exact hs.trans_beyond (ensures_eat_first (hs.final_eq ▸ hfinal) hat s rfl).2
  | false =>
      have hrun : (eat symbol).run nested s = (false, s) := by
        change Parser.run nested (if s.isAt symbol then _ else pure false) s = _
        rw [if_neg (by rw [hat]; exact Bool.false_ne_true), run_pure]
      rw [hrun]
      exact fun hfalse => by cases hfalse

theorem shrinks_of_advances {α : Type} {step : α → Parser (Step α)}
    (hstep : ∀ value (o : State), o.final.isEof = true →
      Ensures nested (fun s => s = o) (step value) (Step.Advances o)) : Shrinks nested step := by
  intro value s hfinal next hnext
  have hadvances := hstep value s hfinal s rfl
  rw [hnext] at hadvances
  exact hadvances.remaining_lt

theorem ensures_done_advances {α : Type} {P : State → Prop} (o : State) (value : α) :
    Ensures nested P (pure (.done value)) (Step.Advances o) :=
  Ensures.done fun _ _ => trivial

include h

theorem shrinks_separatedStep (stop : State → Bool) (item : Parser Node) :
    Shrinks nested (separatedStep stop item) := by
  refine shrinks_of_advances fun items s hfinal => Ensures.look_at ?_
  refine Ensures.ite (fun _ => ensures_done_advances s _) (fun _ => ?_)
  refine Ensures.at_state (State.Reaches.refl s) ?_
  refine Ensures.bind (ensures_reaches h s item) fun node => ?_
  refine Ensures.bind (ensures_eat hfinal .comma) fun comma => ?_
  refine Ensures.ite (fun hcomma => ?_) (fun _ => ensures_done_advances s _)
  exact Ensures.done fun t ht => ht hcomma

omit h in
/-- If nothing has been taken since a state with a token ahead, the token is still there. -/
theorem ensures_unless_consumed {o : State} (hpending : o.pending ≠ [])
    {take : State → Parser Unit}
    (htake : ∀ s, Ensures nested o.Ready (take s) fun _ => o.Beyond) :
    Ensures nested o.Reaches
      (state >>= fun s => if s.consumed == o.consumed then take s else pure ())
      fun _ => o.Beyond := by
  refine Ensures.look fun s hs => Ensures.ite (fun hsame => ?_) (fun hother => ?_)
  · refine Ensures.at_state ⟨hs, ?_⟩ (htake s)
    rw [hs.pending_eq (eq_of_beq hsame)]
    exact hpending
  · refine Ensures.done ?_
    rintro t rfl
    have hne : t.consumed ≠ o.consumed := fun heq => hother (beq_iff_eq.mpr heq)
    exact ⟨hs, Nat.lt_of_le_of_ne hs.consumed_le hne.symm⟩

/-- Whatever an item of a sequence does, afterwards a token has been taken. -/
theorem ensures_ensureProgress {o : State} (hpending : o.pending ≠ []) :
    Ensures nested o.Reaches (ensureProgress o) fun _ => o.Beyond := by
  refine ensures_unless_consumed hpending fun s => ?_
  have htake : Ensures nested o.Ready (Grammar.advance >>= fun _ => Grammar.resume)
      fun _ => o.Beyond :=
    Ensures.bind (ensures_advance o) fun _ => ensures_beyond h o _
  refine Ensures.ite (fun _ => ?_) (fun _ => htake)
  exact Ensures.bind (ensures_report o _) fun _ => htake

theorem shrinks_sequenceStep (terminator : Terminator) (item : Parser Node) :
    Shrinks nested (sequenceStep terminator item) := by
  refine shrinks_of_advances fun items s hfinal => Ensures.look_at ?_
  refine Ensures.ite (fun _ => ensures_done_advances s _) (fun hopen => ?_)
  have hpending : s.pending ≠ [] := by
    intro hnil
    apply hopen
    simp [Terminator.holds, State.isAtEnd_iff.mpr hnil]
  refine Ensures.ite (fun _ => ?_) (fun _ => ?_)
  · refine Ensures.at_state (P := s.Ready) ⟨State.Reaches.refl s, hpending⟩ ?_
    refine Ensures.bind (ensures_report s _) fun _ => ?_
    exact Ensures.bind (ensures_advance s) fun _ => ensures_advances h s _
  · refine Ensures.at_state (State.Reaches.refl s) ?_
    refine Ensures.bind (ensures_reaches h s item) fun node => ?_
    refine Ensures.bind (ensures_reaches h s state) fun after => ?_
    refine Ensures.bind (ensures_reaches h s settle) fun _ => ?_
    exact Ensures.bind (ensures_ensureProgress h hpending) fun _ => ensures_advances h s _

/-- A sequence that only the end of the text ends takes all tokens. -/
theorem ensures_sequence_endOfInput (item : Parser Node) :
    Ensures nested (fun s => s.final.isEof = true) (sequence .endOfInput item)
      fun _ s => s.isAtEnd = true := by
  refine Ensures.bind (Q := fun _ s => s.isAtEnd = true) ?_ fun items => Ensures.done fun _ hs => hs
  refine (shrinks_sequenceStep h .endOfInput item).ensures_loop h
    (I := fun _ s => s.final.isEof = true) (fun _ _ hs => hs) ?_ []
  refine fun items => Ensures.look fun s hs => Ensures.ite (fun hend => ?_) (fun _ => ?_)
  · refine Ensures.done ?_
    rintro t rfl
    rwa [Terminator.holds.eq_def, Bool.or_false] at hend
  · refine Ensures.at_state (P := fun s => s.final.isEof = true) hs ?_
    refine Ensures.ite (fun _ => ?_) (fun _ => ?_)
    · refine Ensures.bind (ensures_final h _) fun _ => Ensures.bind (ensures_final h _) fun _ => ?_
      exact Ensures.bind (ensures_final h _) fun _ => Ensures.done fun _ ht => ht
    · refine Ensures.bind (ensures_final h _) fun _ => Ensures.bind (ensures_final h _) fun _ => ?_
      refine Ensures.bind (ensures_final h _) fun _ => Ensures.bind (ensures_final h _) fun _ => ?_
      exact Ensures.done fun _ ht => ht

/-- What begins with a mark and a token takes the token. -/
theorem ensures_mark_advance {α : Type} {o : State} (hpending : o.pending ≠ [])
    (next : Mark → Token → Parser α) :
    Ensures nested (fun s => s = o)
      (Grammar.mark >>= fun m => Grammar.advance >>= fun token => next m token)
      fun _ => o.Beyond := by
  refine Ensures.bind ensures_mark fun m => ?_
  exact Ensures.bind (ensures_advance_first hpending) fun token => ensures_beyond h o _

theorem ensures_skipToArm {o : State} (hpending : o.pending ≠ []) :
    Ensures nested (fun s => s = o) skipToArm fun _ => o.Beyond := by
  refine Ensures.look_at (Ensures.at_state (State.Reaches.refl o) ?_)
  refine Ensures.bind (ensures_reaches h o _) fun _ => ?_
  refine Ensures.bind (ensures_reaches h o _) fun _ => ?_
  refine ensures_unless_consumed hpending fun _ => ?_
  exact Ensures.bind (ensures_advance o) fun _ => ensures_beyond h o _

theorem shrinks_armStep : Shrinks nested armStep := by
  refine shrinks_of_advances fun arms s hfinal => Ensures.look_at ?_
  refine Ensures.ite (fun _ => ensures_done_advances s _) (fun hopen => ?_)
  refine Ensures.ite (fun hcase => ?_) (fun _ => Ensures.ite (fun hdefault => ?_) (fun _ => ?_))
  · have hpending := State.pending_ne_nil_of_isAtKeyword hfinal hcase
    exact Ensures.bind (ensures_mark_advance h hpending _) fun _ => ensures_advances h s _
  · have hpending := State.pending_ne_nil_of_isAtKeyword hfinal hdefault
    exact Ensures.bind (ensures_mark_advance h hpending _) fun _ => ensures_advances h s _
  · have hpending : s.pending ≠ [] := by
      intro hnil
      apply hopen
      rw [State.isAtEnd_iff.mpr hnil, Bool.true_or]
    exact Ensures.bind (ensures_skipToArm h hpending) fun _ => ensures_advances h s _

theorem shrinks_scopeStep : Shrinks nested scopeStep := by
  refine shrinks_of_advances fun text s hfinal => Ensures.look_at ?_
  split
  · rename_i hkind _
    have hpending := State.pending_ne_nil_of_isAt hfinal (beq_iff_eq.mpr hkind)
    exact Ensures.bind (ensures_advance_first hpending) fun _ => ensures_advances h s _
  · exact ensures_done_advances s _

theorem shrinks_modifierStep : Shrinks nested modifierStep := by
  refine shrinks_of_advances fun modifiers s hfinal => Ensures.look_at ?_
  split
  · rename_i hkind
    have hpending := State.pending_ne_nil_of_isAtKeyword hfinal (beq_iff_eq.mpr hkind)
    refine Ensures.ite (fun _ => ?_) (fun _ => ensures_done_advances s _)
    refine Ensures.bind ensures_mark fun m => ?_
    exact Ensures.bind (ensures_advance_first hpending) fun _ => ensures_advances h s _
  · exact ensures_done_advances s _

theorem ensures_arguments {o : State} (hfinal : o.final.isEof = true)
    (hat : o.isAt .lParen = true) :
    Ensures nested (fun s => s = o) arguments fun _ => o.Beyond := by
  refine Ensures.bind ensures_mark fun m => ?_
  refine Ensures.bind (Q := fun _ => o.Beyond) ?_ fun _ => ensures_beyond h o _
  refine Ensures.bind (ensures_eat_first hfinal hat) fun eaten => ?_
  exact (ensures_beyond h o _).strengthen fun _ hs => hs.2

theorem ensures_suffix {o : State} (hfinal : o.final.isEof = true) {m : Mark} {inner : Node}
    {suffix : Parser Node} (hsuffix : suffix? m inner o.current = some suffix) :
    Ensures nested (fun s => s = o) suffix fun _ => o.Beyond := by
  have htake : ∀ symbol, o.current.kind = .symbol symbol → ∀ next : Token → Parser Node,
      Ensures nested (fun s => s = o) (Grammar.advance >>= next) fun _ => o.Beyond := by
    intro symbol hkind next
    have hpending := State.pending_ne_nil_of_isAt hfinal (beq_iff_eq.mpr hkind)
    exact Ensures.bind (ensures_advance_first hpending) fun token => ensures_beyond h o _
  rw [suffix?] at hsuffix
  split at hsuffix
  · rename_i hkind
    exact Option.some.inj hsuffix ▸ htake .dot hkind _
  · rename_i hkind
    exact Option.some.inj hsuffix ▸ htake .lBracket hkind _
  · rename_i hkind
    split at hsuffix
    · cases hsuffix
    · exact Option.some.inj hsuffix ▸ htake .lBrace hkind _
  · rename_i hkind
    have harguments := ensures_arguments h hfinal (beq_iff_eq.mpr hkind)
    exact Option.some.inj hsuffix ▸ Ensures.bind harguments fun _ => ensures_beyond h o _
  · rename_i hkind
    exact Option.some.inj hsuffix ▸ htake .plusPlus hkind _
  · rename_i hkind
    exact Option.some.inj hsuffix ▸ htake .minusMinus hkind _
  · cases hsuffix

theorem shrinks_expressionStep (m : Mark) (power : Nat) :
    Shrinks nested (expressionStep m power) := by
  refine shrinks_of_advances fun left s hfinal => Ensures.look_at ?_
  dsimp only
  split
  · rename_i suffix hsuffix
    exact Ensures.bind (ensures_suffix h hfinal hsuffix) fun _ => ensures_advances h s _
  · split
    · exact ensures_done_advances s _
    · rename_i binding hbinding
      refine Ensures.ite (fun _ => ensures_done_advances s _) (fun _ => ?_)
      have hpending : s.pending ≠ [] := by
        refine State.pending_ne_nil hfinal fun hkind => ?_
        rw [← State.kind, hkind] at hbinding
        cases hbinding
      refine Ensures.bind (Q := fun _ => s.Beyond) ?_ fun _ => ensures_advances h s _
      exact Ensures.bind (ensures_advance_first hpending) fun token => ensures_beyond h s _

end Parser

theorem onlyTakes_parse (limit room : Nat) : OnlyTakes (parse limit room) :=
  State.isTrail_reaches.parse limit room

/-- Statements are read up to the end of the text, and the reports are those made by then. -/
theorem exists_script_end (options : Options) {s : State} (hfinal : s.final.isEof = true) :
    ∃ after : State, after.isAtEnd = true ∧ (script options s).2 = after.diagnostics ∧
      ∀ R, IsTrail R → R s after := by
  rw [script]
  split_ifs with hend
  · exact ⟨s, hend, rfl, fun R hR => hR.refl s⟩
  · refine ⟨((sequence .endOfInput statement).runWithin options.limit s).2, ?_, rfl, ?_⟩
    · exact Parser.ensures_sequence_endOfInput (onlyTakes_parse _ _) statement s hfinal
    · exact fun R hR => hR.runWithin options.limit _ s

end QoreSyntax.Grammar

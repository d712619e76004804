import QoreSyntax.Grammar.Declaration
import QoreSyntax.Grammar.Expression
import QoreSyntax.Grammar.Statement
import QoreSyntax.Proofs.Grammar.Conservation

namespace QoreSyntax.Grammar

theorem State.kind_advance (s : State) : s.advance.kind = s.kindAt 1 := by
  rw [kind, current, advance_pending, advance_final, kindAt, List.head?_tail]

/-- The node of a single token has the range of the token. -/
theorem State.close_advance {s : State} {t : Token} {rest : List Token}
    (h : s.pending = t :: rest) (kind : Node.Kind) (payload : Payload) :
    s.advance.close s.mark kind payload [] = ⟨kind, t.range, payload, []⟩ := by
  have hconsumed : s.mark.consumed < s.advance.consumed := by
    rw [advance_consumed h]
    exact Nat.lt_succ_self _
  rw [close, if_pos hconsumed, advance_previousEnd h, mark, current_of_pending h]
  rfl

namespace Conservation

open Grammar.Parser (Ensures)
open Node (literals)

variable {α β : Type} {nested : Goal → State → Node × State}

/-- Takes a token that is no literal. -/
theorem runsTo_take {s : State} {read : α → List Node} {next : Token → Parser α} (hs : s.Honest)
    (hplain : s.IsPlain) (hnext : ∀ token, Keeps nested (next token) read) :
    RunsTo nested s s (Grammar.advance >>= next) read :=
  (Opens.take hnext).at_state hs hplain

/-- Takes a token for what its kind says. -/
theorem runsTo_of_kind {s : State} {kind : Token.Kind} {value : α} (hs : s.Honest)
    (hkind : s.kind = kind) (hliteral : kind.literal? = none) :
    RunsTo nested s s (Grammar.advance >>= fun _ => pure value) fun _ => [] :=
  runsTo_take hs ((congrArg Token.Kind.literal? hkind).trans hliteral) fun _ => Keeps.done rfl

/-- Takes two tokens of which neither is a literal. -/
theorem runsTo_take_two {s : State} {read : α → List Node} {next : Token → Parser α} (hs : s.Honest)
    (hplain : s.IsPlain) (hsecond : (s.kindAt 1).literal? = none)
    (hnext : ∀ token, Keeps nested (next token) read) :
    RunsTo nested s s (Grammar.advance >>= fun _ => Grammar.advance >>= next) read := by
  rintro t rfl
  have hfirst := State.Carries.advance_of_isPlain hs hplain
  have hplain : t.advance.IsPlain := by rwa [State.IsPlain, State.kind_advance]
  exact hfirst.append (runsTo_take hfirst.honest hplain hnext t.advance rfl)

/-- The node that is made of the next token alone gives back the literal that the token is. -/
theorem carries_close_advance {s : State} (hs : s.Honest) (hne : s.kind ≠ .eof) {kind : Node.Kind}
    {payload : Payload}
    (hkind : s.kind.literal? = if kind.isVerbatim then some (kind, payload) else none) :
    s.Carries (literals [s.advance.close s.mark kind payload []]) s.advance := by
  obtain ⟨t, rest, hpending⟩ := List.exists_cons_of_ne_nil (State.pending_ne_nil hs.isEof_final hne)
  have hcarries := State.Carries.advance hs
  rw [State.kind, State.current_of_pending hpending] at hkind
  rw [State.current_of_pending hpending, ← Literal.ofNode?_eq_ofToken? hkind] at hcarries
  rwa [State.close_advance hpending, Node.literals_singleton, Node.literals_nil, List.append_nil]

theorem keeps_eat (symbol : Symbol) : Keeps nested (eat symbol) fun _ => [] := by
  refine Keeps.look fun o ho => Ensures.ite (fun hat => ?_) (fun _ => ?_)
  · exact runsTo_take ho (State.IsPlain.of_isAt hat) fun _ => Keeps.done rfl
  · exact (Keeps.done rfl).at_state ho

theorem keeps_eatKeyword (word : Keyword) : Keeps nested (eatKeyword word) fun _ => [] := by
  refine Keeps.look fun o ho => Ensures.ite (fun hat => ?_) (fun _ => ?_)
  · exact runsTo_take ho (State.IsPlain.of_isAtKeyword hat) fun _ => Keeps.done rfl
  · exact (Keeps.done rfl).at_state ho

theorem keeps_expect (symbol : Symbol) : Keeps nested (expect symbol) fun _ => [] := by
  refine Keeps.skip (keeps_eat symbol) fun eaten => Keeps.ite ?_ ?_
  · exact Keeps.ite (Keeps.skip keeps_resume fun _ => Keeps.done rfl) (Keeps.done rfl)
  · exact Keeps.skip (keeps_reportExpected _) fun _ => Keeps.done rfl

theorem keeps_expectKeyword (word : Keyword) : Keeps nested (expectKeyword word) fun _ => [] :=
  Keeps.skip (keeps_eatKeyword word) fun _ => Keeps.ite (Keeps.done rfl) (keeps_reportExpected _)

theorem keeps_expectClosing (closing : Symbol) :
    Keeps nested (expectClosing closing) fun _ => [] :=
  Keeps.skip (keeps_eat closing) fun _ => Keeps.ite (Keeps.done rfl) (keeps_reportExpected _)

theorem keeps_splitShift {next : Parser α} {read : α → List Node} (hnext : Keeps nested next read) :
    Keeps nested (.splitShift next) read := by
  intro s hs
  have hsplit := State.Carries.of_literals_eq (State.isTrail_passes.splitShift s hs)
    (State.literals_splitShift s)
  exact hsplit.append (hnext _ hsplit.honest)

theorem keeps_expectAngle : Keeps nested expectAngle fun _ => [] := by
  refine Keeps.look fun o ho => ?_
  split
  · rename_i hkind
    exact runsTo_of_kind ho hkind rfl
  · exact (keeps_splitShift (Keeps.done rfl)).at_state ho
  · exact (Keeps.skip (keeps_reportExpected _) fun _ => Keeps.done rfl).at_state ho

theorem keeps_variableName? (wanted : Wanted) :
    Keeps nested (variableName? wanted) fun _ => [] := by
  refine Keeps.look fun o ho => ?_
  split
  · rename_i hkind
    exact runsTo_of_kind ho hkind rfl
  · rename_i hkind
    exact runsTo_of_kind ho hkind rfl
  · exact (Keeps.skip (keeps_reportExpected _) fun _ => Keeps.done rfl).at_state ho

theorem keeps_identifier? (wanted : Wanted) : Keeps nested (identifier? wanted) fun _ => [] := by
  refine Keeps.look fun o ho => ?_
  split
  · rename_i hkind
    exact runsTo_of_kind ho hkind rfl
  · exact (Keeps.skip (keeps_reportExpected _) fun _ => Keeps.done rfl).at_state ho

theorem keeps_optionalIdentifier : Keeps nested optionalIdentifier fun _ => [] := by
  refine Keeps.look fun o ho => ?_
  split
  · rename_i hkind
    exact runsTo_of_kind ho hkind rfl
  · exact (Keeps.done rfl).at_state ho

theorem keeps_scopeStep (text : String) : Keeps nested (scopeStep text) fun _ => [] := by
  refine Keeps.look fun o ho => ?_
  split
  · rename_i hcolons hname
    exact runsTo_take_two ho (congrArg Token.Kind.literal? hcolons)
      (congrArg Token.Kind.literal? hname) fun _ => Keeps.done rfl
  · exact (Keeps.done rfl).at_state ho

/-- A repetition that reads no node takes no literal if no step of it does. -/
theorem keeps_loop {step : α → Parser (Step α)}
    (hstep : ∀ value, Keeps nested (step value) fun _ => []) (value : α) :
    Keeps nested (loop step value) fun _ => [] := by
  refine Continues.keeps fun o => Ensures.loop (I := fun _ => o.Carries []) (fun value => ?_) value
  exact (hstep value).continues o []

theorem keeps_scopedName : Keeps nested scopedName fun _ => [] := by
  refine Keeps.skip (keeps_eat _) fun root => Keeps.skip keeps_optionalIdentifier fun first => ?_
  exact keeps_loop keeps_scopeStep _

theorem keeps_scopedName? (wanted : Wanted) : Keeps nested (scopedName? wanted) fun _ => [] := by
  have hname : Keeps nested (scopedName >>= fun name => pure (some name)) fun _ => [] :=
    Keeps.skip keeps_scopedName fun _ => Keeps.done rfl
  refine Keeps.skip keeps_state fun s => ?_
  split
  · exact hname
  · exact hname
  · exact Keeps.skip (keeps_reportExpected _) fun _ => Keeps.done rfl

theorem keeps_typeName? : Keeps nested typeName? fun _ => [] := by
  have hname : Keeps nested (scopedName >>= fun name => pure (some name)) fun _ => [] :=
    Keeps.skip keeps_scopedName fun _ => Keeps.done rfl
  have hmissed : Keeps nested (reportExpected .typeName >>= fun _ => pure (none : Option String))
      fun _ => [] := Keeps.skip (keeps_reportExpected _) fun _ => Keeps.done rfl
  refine Keeps.look fun o ho => ?_
  split
  · exact hname.at_state ho
  · exact hname.at_state ho
  · rename_i hkind
    refine Ensures.ite (fun _ => ?_) (fun _ => hmissed.at_state ho)
    exact runsTo_of_kind ho hkind rfl
  · exact hmissed.at_state ho

theorem keeps_memberName? : Keeps nested memberName? fun _ => [] := by
  refine Keeps.look fun o ho => ?_
  split
  · rename_i hkind
    exact runsTo_of_kind ho hkind rfl
  · rename_i hkind
    exact runsTo_of_kind ho hkind rfl
  · exact (Keeps.skip (keeps_reportExpected _) fun _ => Keeps.done rfl).at_state ho

theorem keeps_caseOperator : Keeps nested caseOperator fun _ => [] := by
  refine Keeps.look fun o ho => ?_
  split
  · rename_i hkind
    refine Ensures.ite (fun _ => ?_) (fun _ => (Keeps.done rfl).at_state ho)
    exact runsTo_of_kind ho hkind rfl
  · exact (Keeps.done rfl).at_state ho

theorem keeps_modifierScope (word : Keyword) :
    Keeps nested (modifierScope word) fun _ => [] := by
  refine Keeps.look fun o ho => ?_
  split
  · rename_i hcolon hname
    exact runsTo_take_two ho (congrArg Token.Kind.literal? hcolon)
      (congrArg Token.Kind.literal? hname) fun _ => Keeps.done rfl
  · exact (Keeps.done rfl).at_state ho

end Conservation

end QoreSyntax.Grammar

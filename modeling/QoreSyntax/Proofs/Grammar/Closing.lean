import QoreSyntax.Proofs.Grammar.Continuation

/-!
How statements end. With the last token of a statement either the text ends in a mistake, or a parse
of a text that goes on behind it stands at the same place: the only thing that could belong to the
statement still is the alternative of a branch.
-/

namespace QoreSyntax.Grammar

section Runs

variable {nested : Goal → State → Node × State}

theorem run_eat (symbol : Symbol) (s : State) :
    (eat symbol).run nested s = if s.isAt symbol then (true, s.advance) else (false, s) := by
  change Parser.run nested (if s.isAt symbol then _ else pure false) s = _
  split_ifs <;> rfl

theorem run_eatKeyword (word : Keyword) (s : State) :
    (eatKeyword word).run nested s
      = if s.isAtKeyword word then (true, s.advance) else (false, s) := by
  change Parser.run nested (if s.isAtKeyword word then _ else pure false) s = _
  split_ifs <;> rfl

theorem run_expect (symbol : Symbol) (s : State) :
    (expect symbol).run nested s =
      if s.isAt symbol then (true, if endsRecovery symbol then s.advance.resume else s.advance)
      else (false, s.report (.expected (.symbol symbol) s.kind)) := by
  rw [expect, Parser.run_bind, run_eat]
  cases s.isAt symbol <;> cases endsRecovery symbol <;> rfl

end Runs

namespace State

/-- The token that closes a statement is not the last one as long as something is to be ended. -/
theorem Adrift.doomed_advance {s : State} (h : s.Adrift) (hcloses : s.kind.closes = true) :
    s.advance.Doomed := by
  have hup := isTrail_upholds.advance s h.honest
  refine ⟨hup.honest, h.blamed_or_open.imp hup.blamed fun hopen => ⟨?_, hopen.advance⟩⟩
  rcases hpending : s.pending with - | ⟨t, rest⟩
  · have hkind : s.kind = .eof := by
      rw [kind, current, hpending]
      exact eq_of_beq h.honest.isEof_final
    rw [hkind] at hcloses
    cases hcloses
  · rw [advance_pending, hpending]
    rintro hnil
    have hlast : s.pending.getLast? = some t := by
      rw [hpending, show rest = [] from hnil]
      rfl
    have hkind : s.kind = t.kind := by
      rw [kind, current, hpending]
      rfl
    rw [hkind, hopen t hlast] at hcloses
    cases hcloses

theorem Doomed.resume {s : State} (h : s.Doomed) : s.resume.Doomed :=
  have hup := isTrail_upholds.resume s h.honest
  ⟨hup.honest, h.blamed_or_open.imp_left hup.blamed⟩

theorem Doomed.nest {s : State} (h : s.Doomed) (depth : Nat) :
    State.Doomed { s with depth := depth } :=
  have hup := isTrail_upholds.nest depth s h.honest
  ⟨hup.honest, h.blamed_or_open.imp_left hup.blamed⟩

end State

namespace Simulation.Nesting

variable {α β : Type} {rest : List Token} {last : Token} {hlast : last.isEof = true}

section Rules

variable (N : (continuation rest hlast).Nesting) {s t : State} {parser other : Parser α}
  {next : α → Parser β}

/-- The first parse ends in doom, or both have come to the same place. -/
def Concludes (_N : (continuation rest hlast).Nesting) (one another : α × State) : Prop :=
  one.2.Doomed ∨ one.1 = another.1 ∧ (continuation rest hlast).Related one.2 another.2

/-- From the given states the parsers come to the end of something. -/
structure EndsAt (s t : State) (parser other : Parser α) : Prop where
  adrift (h : s.Adrift) : (parser.run N.one s).2.Doomed
  concludes (hst : (continuation rest hlast).Related s t) (h : ¬s.Adrift) :
    N.Concludes (parser.run N.one s) (other.run N.other t)

def Ends (parser : Parser α) : Prop :=
  ∀ s t, N.EndsAt s t parser parser

/-- Nothing that the parser does goes beyond the end of something. -/
structure Follows (parser : Parser α) : Prop where
  doomed (s : State) (h : s.Doomed) : (parser.run N.one s).2.Doomed
  concludes (s t : State) (hst : (continuation rest hlast).Related s t) :
    N.Concludes (parser.run N.one s) (parser.run N.other t)

/-- Mistakes in the constructs that are called for are not forgotten, and statements end. The text
does not go on with the alternative of a branch. -/
structure Orderly : Prop where
  faulty (goal : Goal) (s : State) (h : s.Faulty) : (N.one goal s).2.Faulty
  statement : N.Ends Grammar.statement
  behind : (rest.head?.getD last).kind ≠ .keyword .else

variable {N}

theorem adrift_run (parser : Parser α) (h : s.Adrift) : (parser.run N.one s).2.Adrift :=
  State.isTrail_adrift.run N.lost parser s h

theorem EndsAt.concludes_of_related (h : N.EndsAt s t parser other)
    (hst : (continuation rest hlast).Related s t) :
    N.Concludes (parser.run N.one s) (other.run N.other t) := by
  by_cases hadrift : s.Adrift
  · exact Or.inl (h.adrift hadrift)
  · exact h.concludes hst hadrift

theorem Ends.concludes (h : N.Ends parser) (hst : (continuation rest hlast).Related s t) :
    N.Concludes (parser.run N.one s) (parser.run N.other t) :=
  (h s t).concludes_of_related hst

theorem Matches.ends (h : N.Matches parser parser Eq) (hnext : ∀ value, N.Ends (next value)) :
    N.Ends (parser >>= next) := by
  intro s t
  constructor
  · intro hadrift
    rw [Parser.run_bind]
    exact (hnext _ _ t).adrift (adrift_run parser hadrift)
  · intro hst _
    rw [Parser.run_bind, Parser.run_bind]
    rcases h s t hst with hadrift | ⟨hsame, hstates⟩
    · exact Or.inl ((hnext _ _ t).adrift hadrift)
    · rw [← hsame]
      exact (hnext _).concludes hstates

/-- Where the parses read nodes, they read the same ones. -/
theorem Matches.lists_eq {parser other : Parser (List Node)}
    (h : N.Matches parser other (List.Forall₂ (continuation rest hlast).Nodes)) :
    N.Matches parser other Eq :=
  h.weaken fun _ _ hnodes => congrFun₂ List.forall₂_eq_eq_eq _ _ ▸ hnodes

theorem Ends.follows (h : N.Ends parser) (hnext : ∀ value, N.Follows (next value)) :
    N.Ends (parser >>= next) := by
  intro s t
  constructor
  · intro hadrift
    rw [Parser.run_bind]
    exact (hnext _).doomed _ ((h s t).adrift hadrift)
  · intro hst hadrift
    rw [Parser.run_bind, Parser.run_bind]
    rcases (h s t).concludes hst hadrift with hdoomed | ⟨hsame, hstates⟩
    · exact Or.inl ((hnext _).doomed _ hdoomed)
    · rw [← hsame]
      exact (hnext _).concludes _ _ hstates

theorem Ends.look {next : State → Parser β}
    (h : ∀ s t, s.Resembles t → N.EndsAt s t (next s) (next t)) :
    N.Ends (Grammar.state >>= next) := by
  intro s t
  constructor
  · exact fun hadrift => (h s s (State.resembles_self hadrift.honest.isEof_final)).adrift hadrift
  · intro hst hadrift
    exact (h s t ((continuation rest hlast).resembles hst hadrift)).concludes hst hadrift

variable (N)

theorem follows_done (value : α) : N.Follows (pure value) :=
  ⟨fun _ => id, fun _ _ hst => Or.inr ⟨rfl, hst⟩⟩

theorem follows_close (m : Mark) (kind : Node.Kind) (payload : Payload) (children : List Node) :
    N.Follows (Grammar.close m kind payload children) := by
  refine ⟨fun _ => id, fun s t hst => Or.inr ⟨?_, hst⟩⟩
  exact (continuation rest hlast).close kind payload hst rfl (List.forall₂_same.mpr fun _ _ => rfl)

theorem ends_expect {symbol : Symbol} (hcloses : (Token.Kind.symbol symbol).closes = true) :
    N.Ends (expect symbol) := by
  have hends : endsRecovery symbol = true := by
    revert hcloses
    cases symbol <;> decide
  intro s t
  constructor
  · intro hadrift
    rw [run_expect, hends, if_pos rfl]
    split_ifs with hat
    · rw [State.isAt, beq_iff_eq] at hat
      exact (hadrift.doomed_advance (hat ▸ hcloses)).resume
    · exact (hadrift.honest.faulty_report _).doomed
  · intro hst hadrift
    have hlike := (continuation rest hlast).resembles hst hadrift
    rw [run_expect, run_expect, hlike.isAt, hends, if_pos rfl, if_pos rfl]
    split_ifs with hat
    · have hafter := (continuation rest hlast).advance hst hadrift
      exact Or.inr ⟨rfl, (continuation rest hlast).resume hafter⟩
    · exact Or.inl (hst.1.faulty_report _).doomed

variable {N}

theorem Orderly.doomed_run (h : N.Orderly) (parser : Parser α) {s : State} (hs : s.Faulty) :
    (parser.run N.one s).2.Doomed :=
  (State.isTrail_faulty.run h.faulty parser s hs).doomed

theorem Orderly.ends_report (h : N.Orderly) {wanted : Wanted} {next : Unit → Parser β} :
    N.Ends (reportExpected wanted >>= next) := by
  intro s t
  constructor
  · exact fun hadrift => h.doomed_run (next ()) (hadrift.honest.faulty_report _)
  · exact fun hst _ => Or.inl (h.doomed_run (next ()) (hst.1.faulty_report _))

/-- Without the symbol there is a mistake, and it does not matter what comes next. -/
theorem Orderly.ends_expect_then (h : N.Orderly) {symbol : Symbol} {next : Bool → Parser β}
    (hnext : N.Ends (next true)) : N.Ends (expect symbol >>= next) := by
  intro s t
  constructor
  · intro hadrift
    rw [Parser.run_bind]
    by_cases hat : s.isAt symbol = true
    · have hfound : ((expect symbol).run N.one s).1 = true := by
        rw [run_expect, if_pos hat]
      rw [hfound]
      exact (hnext _ t).adrift (adrift_run (expect symbol) hadrift)
    · rw [run_expect, if_neg hat]
      exact h.doomed_run _ (hadrift.honest.faulty_report _)
  · intro hst _
    rw [Parser.run_bind, Parser.run_bind]
    by_cases hat : s.isAt symbol = true
    · have hfound : ((expect symbol).run N.one s).1 = true := by
        rw [run_expect, if_pos hat]
      rcases N.matches_expect symbol s t hst with hadrift | ⟨hsame, hstates⟩
      · rw [hfound]
        exact Or.inl ((hnext _ t).adrift hadrift)
      · rw [← hsame, hfound]
        exact hnext.concludes hstates
    · left
      rw [run_expect, if_neg hat]
      exact h.doomed_run _ (hst.1.faulty_report _)

/-- A symbol with which something ends, or something else in place of it. -/
theorem ends_eat_then {symbol : Symbol} {next : Bool → Parser β}
    (hcloses : (Token.Kind.symbol symbol).closes = true) (hyes : N.Follows (next true))
    (hno : N.Ends (next false)) : N.Ends (eat symbol >>= next) := by
  intro s t
  constructor
  · intro hadrift
    rw [Parser.run_bind, run_eat]
    split_ifs with hat
    · rw [State.isAt, beq_iff_eq] at hat
      exact hyes.doomed _ (hadrift.doomed_advance (hat ▸ hcloses))
    · exact (hno s t).adrift hadrift
  · intro hst hadrift
    have hlike := (continuation rest hlast).resembles hst hadrift
    rw [Parser.run_bind, Parser.run_bind, run_eat, run_eat, hlike.isAt]
    split_ifs
    · exact hyes.concludes _ _ ((continuation rest hlast).advance hst hadrift)
    · exact (hno s t).concludes hst hadrift

theorem Ends.mark {next : Mark → Parser β} (hnext : ∀ m, N.Ends (next m)) :
    N.Ends (Grammar.mark >>= next) :=
  Matches.ends (N.mark fun _ _ hm => N.done hm) hnext

theorem Ends.take {next : Parser β} (hnext : N.Ends next) :
    N.Ends (Grammar.advance >>= fun _ => next) := by
  intro s t
  constructor
  · intro hadrift
    rw [Parser.run_bind]
    exact (hnext _ t).adrift (adrift_run Grammar.advance hadrift)
  · intro hst hadrift
    rw [Parser.run_bind, Parser.run_bind]
    exact hnext.concludes ((continuation rest hlast).advance hst hadrift)

theorem Ends.single {parser : Parser Node} (h : N.Ends parser) : N.Ends (Grammar.single parser) :=
  h.follows fun _ => N.follows_done _

end Rules

section Productions

variable {N : (continuation rest hlast).Nesting}

theorem ends_braced {item : Parser Node} (hitem : N.Matches item item Eq) :
    N.Ends (braced item) :=
  (Matches.sequence hitem .brace).lists_eq.ends fun _ =>
    (N.ends_expect rfl).follows fun _ => N.follows_done _

namespace Orderly

variable (h : N.Orderly)
include h

theorem ends_block : N.Ends block := by
  refine Ends.mark fun m => h.ends_expect_then ?_
  rw [if_pos rfl]
  exact (ends_braced (N.call _)).follows fun items => N.follows_close _ _ _ _

omit h in
theorem ends_variableDeclaration : N.Ends (variableDeclaration true) := by
  have hdeclared : N.Matches declared declared Eq :=
    N.matches_declared.weaken fun one another hsame =>
      Prod.ext hsame.1 (congrFun₂ List.forall₂_eq_eq_eq _ _ ▸ hsame.2)
  have hend : N.Ends (endOfDeclaration true) := by
    rw [endOfDeclaration, if_pos rfl]
    exact (N.ends_expect rfl).follows fun _ => N.follows_done _
  refine Ends.mark fun m => N.matches_variableModifier.lists_eq.ends fun modifier => ?_
  refine hdeclared.ends fun parts => N.matches_initialiser.lists_eq.ends fun value => ?_
  exact hend.follows fun _ => N.follows_close _ _ _ _

theorem ends_body : N.Ends body := by
  refine Ends.look fun s t hlike => ?_
  rw [hlike.isAt]
  split_ifs
  · exact h.ends_block.single s t
  · refine ends_eat_then rfl ?_ ?_ s t
    · exact N.follows_done []
    · exact h.ends_report

theorem ends_function (m : Mark) (modifiers : List Node) : N.Ends (function m modifiers) := by
  refine Ends.look fun s t hlike => ?_
  rw [hlike.isAtKeyword]
  refine Matches.ends ((N.call .type).single.optionally _).lists_eq (fun types => ?_) s t
  refine (N.matches_expectKeyword .sub).ends fun _ => ?_
  refine (N.matches_identifier? _).ends fun name => ?_
  refine Matches.ends N.matches_parameters fun params => ?_
  refine N.matches_resultType.lists_eq.ends fun result => ?_
  exact h.ends_body.follows fun code => N.follows_close _ _ _ _

omit h in
theorem ends_constant (m : Mark) (modifiers : List Node) : N.Ends (constant m modifiers) := by
  refine Ends.take ((N.matches_scopedName? _).ends fun name => ?_)
  refine Matches.ends N.matches_constantValue fun value => ?_
  exact (N.ends_expect rfl).follows fun _ => N.follows_close _ _ _ _

theorem ends_itemsOrSemicolon {item : Parser Node} (hitem : N.Matches item item Eq) :
    N.Ends (itemsOrSemicolon item) := by
  refine ends_eat_then rfl ?_ ?_
  · exact N.follows_done []
  · refine h.ends_expect_then ?_
    rw [optionally, if_pos rfl]
    exact ends_braced hitem

theorem ends_classDeclaration (m : Mark) (modifiers : List Node) :
    N.Ends (classDeclaration m modifiers) := by
  refine Ends.take ((N.matches_scopedName? _).ends fun name => ?_)
  refine N.matches_inheritance.lists_eq.ends fun bases => ?_
  exact (h.ends_itemsOrSemicolon N.matches_classMember).follows fun _ => N.follows_close _ _ _ _

theorem ends_namespaceDeclaration (m : Mark) (modifiers : List Node) :
    N.Ends (namespaceDeclaration m modifiers) := by
  refine Ends.take ((N.matches_scopedName? _).ends fun name => ?_)
  exact (h.ends_itemsOrSemicolon (N.call _)).follows fun _ => N.follows_close _ _ _ _

theorem ends_hashDeclaration (m : Mark) (modifiers : List Node) :
    N.Ends (hashDeclaration m modifiers) := by
  refine Ends.take ((N.matches_scopedName? _).ends fun name => ?_)
  refine h.ends_expect_then ?_
  rw [optionally, if_pos rfl]
  exact (ends_braced N.matches_hashField).follows fun _ => N.follows_close _ _ _ _

theorem ends_declaration : N.Ends declaration := by
  refine Ends.mark fun m => N.matches_modifiers.lists_eq.ends fun nodes => ?_
  refine Ends.look fun s t hlike => ?_
  rw [hlike.keyword?, hlike.isTypedFunction]
  split
  · exact h.ends_namespaceDeclaration m nodes s t
  · exact h.ends_classDeclaration m nodes s t
  · exact h.ends_hashDeclaration m nodes s t
  · exact ends_constant m nodes s t
  · exact h.ends_function m nodes s t
  · split_ifs
    · exact h.ends_function m nodes s t
    · exact h.ends_report s t

/-- Behind a branch only its alternative can follow, and the text does not go on with one. -/
theorem follows_alternative {next : List Node → Parser Node}
    (hnext : ∀ nodes, N.Follows (next nodes)) :
    N.Follows (eatKeyword .else >>= fun found =>
      optionally found (single Grammar.statement) >>= next) := by
  have hrun : ∀ nested (s : State), (eatKeyword .else >>= fun found =>
      optionally found (single Grammar.statement) >>= next).run nested s
        = if s.isAtKeyword .else then (single Grammar.statement >>= next).run nested s.advance
          else (next []).run nested s := by
    intro nested s
    rw [Parser.run_bind, run_eatKeyword]
    split_ifs <;> rfl
  have hfound : N.Ends (single Grammar.statement >>= next) := h.statement.single.follows hnext
  have hdoomed : ∀ s : State, s.Doomed → ((eatKeyword .else >>= fun found =>
      optionally found (single Grammar.statement) >>= next).run N.one s).2.Doomed := by
    intro s hs
    rw [hrun]
    split_ifs
    · exact (hfound _ s).adrift (State.isTrail_adrift.advance s hs.adrift)
    · exact (hnext []).doomed s hs
  refine ⟨hdoomed, fun s t hst => ?_⟩
  by_cases hs : s.Doomed
  · exact Or.inl (hdoomed s hs)
  rw [hrun, hrun]
  by_cases hadrift : s.Adrift
  · -- The first text ends here, and neither of the texts goes on with an alternative.
    have hnil : s.pending = [] := by
      by_contra hne
      exact hs ⟨hst.1, hadrift.blamed_or_open.imp_right fun hopen => ⟨hne, hopen⟩⟩
    have hone : s.isAtKeyword .else = false := by
      rw [State.isAtKeyword, State.kind, State.current, hnil, List.head?_nil, Option.getD_none,
        eq_of_beq hst.1.isEof_final]
      rfl
    have hother : t.isAtKeyword .else = false := by
      rw [State.isAtKeyword, State.kind, State.current, ← hst.2, State.followedBy, hnil,
        List.nil_append]
      exact beq_eq_false_iff_ne.mpr h.behind
    rw [hone, hother, if_neg Bool.false_ne_true, if_neg Bool.false_ne_true]
    exact (hnext []).concludes s t hst
  · have hlike := (continuation rest hlast).resembles hst hadrift
    rw [hlike.isAtKeyword]
    split_ifs
    · exact hfound.concludes ((continuation rest hlast).advance hst hadrift)
    · exact (hnext []).concludes s t hst

theorem ends_ifStatement : N.Ends ifStatement := by
  refine Ends.mark fun m => Ends.take (Matches.ends N.matches_condition fun test => ?_)
  refine h.statement.follows fun branch => ?_
  exact h.follows_alternative fun alternative => N.follows_close _ _ _ _

theorem ends_whileStatement : N.Ends whileStatement := by
  refine Ends.mark fun m => Ends.take (Matches.ends N.matches_condition fun test => ?_)
  exact h.statement.follows fun code => N.follows_close _ _ _ _

omit h in
theorem ends_doStatement : N.Ends doStatement := by
  refine Ends.mark fun m => Ends.take (Matches.ends (N.call .statement) fun code => ?_)
  refine (N.matches_expectKeyword .while).ends fun _ => ?_
  refine Matches.ends N.matches_condition fun test => ?_
  exact (N.ends_expect rfl).follows fun _ => N.follows_close _ _ _ _

theorem ends_forStatement : N.Ends forStatement := by
  refine Ends.mark fun m => Ends.take ((N.matches_expect .lParen).ends fun _ => ?_)
  refine Matches.ends (N.matches_variableOrExpression.forClause .semicolon) fun start => ?_
  refine Matches.ends (Matches.forClause (N.call _) .semicolon) fun test => ?_
  refine Matches.ends (Matches.forClause (N.call _) .rParen) fun step => ?_
  exact h.statement.follows fun code => N.follows_close _ _ _ _

theorem ends_foreachStatement : N.Ends foreachStatement := by
  refine Ends.mark fun m => Ends.take (Matches.ends N.matches_variableOrExpression fun item => ?_)
  refine (N.matches_expectKeyword .in).ends fun _ => ?_
  refine Matches.ends N.matches_condition fun items => ?_
  exact h.statement.follows fun code => N.follows_close _ _ _ _

theorem ends_switchStatement : N.Ends switchStatement := by
  have harms : N.Ends switchArms := by
    refine h.ends_expect_then ?_
    rw [if_pos rfl]
    exact N.matches_arms.lists_eq.ends fun arms =>
      (N.ends_expect rfl).follows fun _ => N.follows_done _
  refine Ends.mark fun m => Ends.take (Matches.ends N.matches_condition fun value => ?_)
  exact harms.follows fun arms => N.follows_close _ _ _ _

theorem ends_catchClause : N.Ends catchClause := by
  refine Ends.look fun s t hlike => ?_
  rw [hlike.isAtKeyword]
  split_ifs
  · refine Ends.mark (fun m => Ends.take ((N.matches_expect .lParen).ends fun _ => ?_)) s t
    refine Ends.look fun s t hlike => ?_
    rw [hlike.isAt]
    have hparams := (N.matches_parameter.single.optionally (!s.isAt .rParen)).lists_eq
    refine hparams.ends (fun params => (N.matches_expect .rParen).ends fun _ => ?_) s t
    exact h.ends_block.follows fun code => N.follows_close _ _ _ _
  · exact h.ends_report s t

theorem ends_tryStatement : N.Ends tryStatement := by
  refine Ends.mark fun m => Ends.take (Matches.ends N.matches_block fun code => ?_)
  exact h.ends_catchClause.follows fun handler => N.follows_close _ _ _ _

omit h in
theorem ends_jumpStatement (kind : Node.Kind) (isRequired : Bool) :
    N.Ends (jumpStatement kind isRequired) := by
  refine Ends.mark fun m => Ends.take (Ends.look fun s t hlike => ?_)
  rw [hlike.isAt]
  have hvalues := (N.matches_expressionList.single.optionally
    (isRequired || !s.isAt .semicolon)).lists_eq
  refine hvalues.ends (fun values => ?_) s t
  exact (N.ends_expect rfl).follows fun _ => N.follows_close _ _ _ _

omit h in
theorem ends_bareStatement (kind : Node.Kind) : N.Ends (bareStatement kind) :=
  Ends.mark fun _ => Ends.take ((N.ends_expect rfl).follows fun _ => N.follows_close _ _ _ _)

theorem ends_guardStatement (kind : Node.Kind) : N.Ends (guardStatement kind) :=
  Ends.mark fun _ => Ends.take (h.statement.follows fun _ => N.follows_close _ _ _ _)

omit h in
/-- A statement that is a single token. -/
theorem endsAt_token {s t : State} (hcloses : s.kind.closes = true) (kind : Node.Kind)
    (payload : Payload) :
    N.EndsAt s t
      (Grammar.mark >>= fun m => Grammar.advance >>= fun _ => Grammar.close m kind payload [])
      (Grammar.mark >>= fun m => Grammar.advance >>= fun _ => Grammar.close m kind payload []) where
  adrift hadrift := hadrift.doomed_advance hcloses
  concludes hst hadrift :=
    have hafter := (continuation rest hlast).advance hst hadrift
    Or.inr ⟨(continuation rest hlast).close kind payload hafter
      ((continuation rest hlast).mark hst hadrift) .nil, hafter⟩

theorem ends_openStatement : N.Ends openStatement := by
  refine Ends.look fun s t hlike => ?_
  rw [hlike.isDeclaration, hlike.isTypedVariable]
  split_ifs
  · exact h.ends_declaration s t
  · exact ends_variableDeclaration s t
  · refine Ends.mark (fun m => Matches.ends (N.call _) fun node => ?_) s t
    exact (N.ends_expect rfl).follows fun _ => N.follows_close _ _ _ _

theorem ends_wordStatement (word : Keyword) : N.Ends (wordStatement word) := by
  rw [wordStatement.eq_def]
  split
  · exact h.ends_ifStatement
  · exact h.ends_whileStatement
  · exact ends_doStatement
  · exact h.ends_forStatement
  · exact h.ends_foreachStatement
  · exact h.ends_switchStatement
  · exact h.ends_tryStatement
  · exact ends_jumpStatement _ _
  · exact ends_jumpStatement _ _
  · exact ends_jumpStatement _ _
  · exact ends_bareStatement _
  · exact ends_bareStatement _
  · exact ends_bareStatement _
  · exact h.ends_guardStatement _
  · exact h.ends_guardStatement _
  · exact h.ends_guardStatement _
  · exact ends_variableDeclaration
  · exact ends_variableDeclaration
  · exact h.ends_openStatement

theorem ends_statementRule : N.Ends statementRule := by
  refine Ends.look fun s t hlike => ?_
  rw [hlike.kind_eq]
  split
  · exact h.ends_block s t
  · rename_i hkind
    exact endsAt_token (hkind ▸ rfl) _ _
  · rename_i hkind
    exact endsAt_token (hkind ▸ rfl) _ _
  · exact h.ends_wordStatement _ s t
  · exact h.ends_openStatement s t

end Orderly

end Productions

end Simulation.Nesting

end QoreSyntax.Grammar

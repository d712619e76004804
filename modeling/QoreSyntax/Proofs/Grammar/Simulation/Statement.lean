import QoreSyntax.Grammar.Statement
import QoreSyntax.Proofs.Grammar.Simulation.Declaration
import QoreSyntax.Proofs.Grammar.Simulation.Expression

namespace QoreSyntax.Grammar.Simulation.Nesting

variable {M : Simulation} (N : M.Nesting)

theorem matches_condition : N.Matches condition condition M.Nodes := by
  refine (N.matches_expect .lParen).skip fun _ => ?_
  refine (N.call _).bind fun node node' hnode => ?_
  exact (N.matches_expect .rParen).skip fun _ => N.done hnode

theorem matches_ifStatement : N.Matches ifStatement ifStatement M.Nodes := by
  refine N.mark fun m m' hm => N.take fun _ _ _ => ?_
  refine N.matches_condition.bind fun test test' htest => ?_
  refine (N.call .statement).bind fun branch branch' hbranch => ?_
  refine (N.matches_eatKeyword .else).skip fun found => ?_
  refine ((N.call .statement).single.optionally found).bind fun rest rest' hrest => ?_
  exact N.close hm (.cons htest (.cons hbranch hrest))

theorem matches_whileStatement : N.Matches whileStatement whileStatement M.Nodes := by
  refine N.mark fun m m' hm => N.take fun _ _ _ => ?_
  refine N.matches_condition.bind fun test test' htest => ?_
  exact (N.call .statement).bind fun _ _ hcode => N.close hm (.cons htest (.cons hcode .nil))

theorem matches_doStatement : N.Matches doStatement doStatement M.Nodes := by
  refine N.mark fun m m' hm => N.take fun _ _ _ => ?_
  refine (N.call .statement).bind fun code code' hcode => ?_
  refine (N.matches_expectKeyword .while).skip fun _ => ?_
  refine N.matches_condition.bind fun test test' htest => ?_
  refine (N.matches_expect .semicolon).skip fun _ => ?_
  exact N.close hm (.cons hcode (.cons htest .nil))

variable {N} in
theorem Matches.optionalClause {clause clause' : Parser Node}
    (h : N.Matches clause clause' M.Nodes) (closing : Symbol) :
    N.Matches (optionalClause closing clause) (optionalClause closing clause') M.Nodes := by
  refine N.look fun s t hst hlike => ?_
  rw [hlike.isAt]
  split_ifs
  · exact N.placeholder .empty s t hst
  · exact h s t hst

variable {N} in
theorem Matches.forClause {clause clause' : Parser Node}
    (h : N.Matches clause clause' M.Nodes) (closing : Symbol) :
    N.Matches (forClause closing clause) (forClause closing clause') M.Nodes :=
  (h.optionalClause closing).bind fun _ _ hnode =>
    (N.matches_expect closing).skip fun _ => N.done hnode

theorem matches_variableOrExpression :
    N.Matches variableOrExpression variableOrExpression M.Nodes := by
  refine N.look fun s t hst hlike => ?_
  rw [hlike.isVariable]
  split_ifs
  · exact N.matches_variableDeclaration false s t hst
  · exact N.call _ s t hst

theorem matches_forStatement : N.Matches forStatement forStatement M.Nodes := by
  refine N.mark fun m m' hm => N.take fun _ _ _ => ?_
  refine (N.matches_expect .lParen).skip fun _ => ?_
  refine (N.matches_variableOrExpression.forClause .semicolon).bind fun start start' hstart => ?_
  refine Matches.bind ((N.call _).forClause .semicolon) fun test test' htest => ?_
  refine Matches.bind ((N.call _).forClause .rParen) fun step step' hstep => ?_
  refine (N.call .statement).bind fun code code' hcode => ?_
  exact N.close hm (.cons hstart (.cons htest (.cons hstep (.cons hcode .nil))))

theorem matches_foreachStatement : N.Matches foreachStatement foreachStatement M.Nodes := by
  refine N.mark fun m m' hm => N.take fun _ _ _ => ?_
  refine N.matches_variableOrExpression.bind fun item item' hitem => ?_
  refine (N.matches_expectKeyword .in).skip fun _ => ?_
  refine N.matches_condition.bind fun items items' hitems => ?_
  refine (N.call .statement).bind fun code code' hcode => ?_
  exact N.close hm (.cons hitem (.cons hitems (.cons hcode .nil)))

theorem matches_caseOperator : N.Matches caseOperator caseOperator Eq := by
  refine N.look fun s t hst hlike => ?_
  rw [hlike.kind_eq]
  split
  · split_ifs
    · exact N.take (fun _ _ _ => N.done rfl) s t hst
    · exact N.done rfl s t hst
  · exact N.done rfl s t hst

theorem matches_caseArm : N.Matches caseArm caseArm M.Nodes := by
  refine N.mark fun m m' hm => N.take fun _ _ _ => ?_
  refine N.matches_caseOperator.skip fun payload => ?_
  refine (N.call _).bind fun value value' hvalue => ?_
  refine (N.matches_expect .colon).skip fun _ => ?_
  refine ((N.call .statement).sequence .caseArm).bind fun code code' hcode => ?_
  exact N.close hm (.cons hvalue hcode)

theorem matches_defaultArm : N.Matches defaultArm defaultArm M.Nodes := by
  refine N.mark fun m m' hm => N.take fun _ _ _ => ?_
  refine (N.matches_expect .colon).skip fun _ => ?_
  exact ((N.call .statement).sequence .caseArm).bind fun _ _ hcode => N.close hm hcode

/-- The parses are recovering when they look for the next arm. -/
theorem matches_skipToArm : N.Matches skipToArm skipToArm Eq := by
  refine N.look fun before before' hbefore _ => ?_
  refine (N.matches_reportExpected _ before before' hbefore).bind_run fun _ _ t _ hst => ?_
  refine (N.matchesAt_synchronize hst rfl).bind fun _ _ _ => N.look fun s t hst _ => ?_
  rw [consumed_beq hbefore hst]
  split_ifs
  · exact N.take (fun _ _ _ => N.done rfl) s t hst
  · exact N.done rfl s t hst

theorem matches_armStep {arms arms' : List Node} (h : List.Forall₂ M.Nodes arms arms') :
    N.Matches (armStep arms) (armStep arms') (Step.Both (List.Forall₂ M.Nodes)) := by
  refine N.look fun s t hst hlike => ?_
  rw [hlike.isAtEnd, hlike.isAt, hlike.isAtKeyword, hlike.isAtKeyword]
  split_ifs
  · exact N.done (.done h) s t hst
  · exact N.matches_caseArm.bind (fun _ _ harm => N.done (.again (.cons harm h))) s t hst
  · exact N.matches_defaultArm.bind (fun _ _ harm => N.done (.again (.cons harm h))) s t hst
  · exact N.matches_skipToArm.skip (fun _ => N.done (.again h)) s t hst

theorem matches_arms :
    N.Matches (Grammar.loop armStep []) (Grammar.loop armStep []) (List.Forall₂ M.Nodes) :=
  N.loop (Parser.shrinks_armStep N.onlyTakes_one) (Parser.shrinks_armStep N.onlyTakes_other)
    (fun _ _ => N.matches_armStep) .nil

theorem matches_switchArms : N.Matches switchArms switchArms (List.Forall₂ M.Nodes) := by
  refine (N.matches_expect .lBrace).skip fun opened => ?_
  split_ifs
  · refine N.matches_arms.bind fun arms arms' h => ?_
    exact (N.matches_expect .rBrace).skip fun _ => N.done (List.rel_reverse h)
  · exact N.done .nil

theorem matches_switchStatement : N.Matches switchStatement switchStatement M.Nodes := by
  refine N.mark fun m m' hm => N.take fun _ _ _ => ?_
  refine N.matches_condition.bind fun value value' hvalue => ?_
  exact N.matches_switchArms.bind fun _ _ harms => N.close hm (.cons hvalue harms)

theorem matches_catchClause : N.Matches catchClause catchClause M.Nodes := by
  refine N.look fun s t hst hlike => ?_
  rw [hlike.isAtKeyword]
  split_ifs
  · refine N.mark (fun m m' hm => N.take fun _ _ _ => ?_) s t hst
    refine (N.matches_expect .lParen).skip fun _ => N.look fun s t hst hlike => ?_
    rw [hlike.isAt]
    have hparams := N.matches_parameter.single.optionally (!s.isAt .rParen)
    refine hparams.bind (fun params params' hparams => ?_) s t hst
    refine (N.matches_expect .rParen).skip fun _ => ?_
    refine N.matches_block.bind fun code code' hcode => ?_
    exact N.close hm (List.rel_append hparams (.cons hcode .nil))
  · exact (N.matches_reportExpected _).skip (fun _ => N.placeholder .missing) s t hst

theorem matches_tryStatement : N.Matches tryStatement tryStatement M.Nodes := by
  refine N.mark fun m m' hm => N.take fun _ _ _ => ?_
  refine N.matches_block.bind fun code code' hcode => ?_
  refine N.matches_catchClause.bind fun handler handler' hhandler => ?_
  exact N.close hm (.cons hcode (.cons hhandler .nil))

theorem matches_jumpStatement (kind : Node.Kind) (isRequired : Bool) :
    N.Matches (jumpStatement kind isRequired) (jumpStatement kind isRequired) M.Nodes := by
  refine N.mark fun m m' hm => N.take fun _ _ _ => N.look fun s t hst hlike => ?_
  rw [hlike.isAt]
  have hvalues := N.matches_expressionList.single.optionally (isRequired || !s.isAt .semicolon)
  refine hvalues.bind (fun values values' hvalues => ?_) s t hst
  exact (N.matches_expect .semicolon).skip fun _ => N.close hm hvalues

theorem matches_bareStatement (kind : Node.Kind) :
    N.Matches (bareStatement kind) (bareStatement kind) M.Nodes :=
  N.mark fun _ _ hm => N.take fun _ _ _ =>
    (N.matches_expect .semicolon).skip fun _ => N.close hm .nil

theorem matches_guardStatement (kind : Node.Kind) :
    N.Matches (guardStatement kind) (guardStatement kind) M.Nodes :=
  N.mark fun _ _ hm => N.take fun _ _ _ =>
    (N.call .statement).bind fun _ _ hcode => N.close hm (.cons hcode .nil)

theorem matches_emptyStatement : N.Matches emptyStatement emptyStatement M.Nodes :=
  N.mark fun _ _ hm => N.take fun _ _ _ => N.close hm .nil

theorem matches_directiveLine (name argument : String) :
    N.Matches (directiveLine name argument) (directiveLine name argument) M.Nodes :=
  N.mark fun _ _ hm => N.take fun _ _ _ => N.close hm .nil

theorem matches_expressionStatement :
    N.Matches expressionStatement expressionStatement M.Nodes := by
  refine N.mark fun m m' hm => (N.call _).bind fun node node' hnode => ?_
  exact (N.matches_expect .semicolon).skip fun _ => N.close hm (.cons hnode .nil)

theorem matches_openStatement : N.Matches openStatement openStatement M.Nodes := by
  refine N.look fun s t hst hlike => ?_
  rw [hlike.isDeclaration, hlike.isTypedVariable]
  split_ifs
  · exact N.matches_declaration s t hst
  · exact N.matches_variableDeclaration true s t hst
  · exact N.matches_expressionStatement s t hst

theorem matches_wordStatement (word : Keyword) :
    N.Matches (wordStatement word) (wordStatement word) M.Nodes := by
  rw [wordStatement.eq_def]
  split
  · exact N.matches_ifStatement
  · exact N.matches_whileStatement
  · exact N.matches_doStatement
  · exact N.matches_forStatement
  · exact N.matches_foreachStatement
  · exact N.matches_switchStatement
  · exact N.matches_tryStatement
  · exact N.matches_jumpStatement _ _
  · exact N.matches_jumpStatement _ _
  · exact N.matches_jumpStatement _ _
  · exact N.matches_bareStatement _
  · exact N.matches_bareStatement _
  · exact N.matches_bareStatement _
  · exact N.matches_guardStatement _
  · exact N.matches_guardStatement _
  · exact N.matches_guardStatement _
  · exact N.matches_variableDeclaration _
  · exact N.matches_variableDeclaration _
  · exact N.matches_openStatement

theorem matches_statementRule : N.Matches statementRule statementRule M.Nodes := by
  refine N.look fun s t hst hlike => ?_
  rw [hlike.kind_eq]
  split
  · exact N.matches_block s t hst
  · exact N.matches_emptyStatement s t hst
  · exact N.matches_directiveLine _ _ s t hst
  · exact N.matches_wordStatement _ s t hst
  · exact N.matches_openStatement s t hst

end QoreSyntax.Grammar.Simulation.Nesting

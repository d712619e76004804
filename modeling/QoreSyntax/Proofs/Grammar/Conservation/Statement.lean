import QoreSyntax.Proofs.Grammar.Conservation.Expression

namespace QoreSyntax.Grammar.Conservation

open Grammar.Parser (Ensures)
open Node (literals)

variable {nested : Goal → State → Node × State} (h : Sound nested)
include h

theorem keeps_condition : Keeps nested condition ([·]) := by
  refine Keeps.skip (keeps_expect _) fun _ => Continues.keeps fun o => ?_
  exact Continues.node (h _) fun node => Continues.skip (keeps_expect _) fun _ => Continues.done rfl

theorem opens_ifStatement : Opens nested ifStatement ([·]) := by
  refine Opens.mark_take fun m token o => Continues.node (keeps_condition h) fun test => ?_
  refine Continues.node (h _) fun branch => Continues.skip (keeps_eatKeyword _) fun found => ?_
  refine Continues.node ((Keeps.single (h _)).optionally _) fun alternative => ?_
  exact Continues.close rfl rfl

theorem opens_whileStatement : Opens nested whileStatement ([·]) := by
  refine Opens.mark_take fun m token o => Continues.node (keeps_condition h) fun test => ?_
  exact Continues.node (h _) fun code => Continues.close rfl rfl

theorem opens_doStatement : Opens nested doStatement ([·]) := by
  refine Opens.mark_take fun m token o => Continues.node (h _) fun code => ?_
  refine Continues.skip (keeps_expectKeyword _) fun _ => ?_
  refine Continues.node (keeps_condition h) fun test => ?_
  exact Continues.skip (keeps_expect _) fun _ => Continues.close rfl rfl

omit h in
theorem keeps_forClause {clause : Parser Node} (hclause : Keeps nested clause ([·]))
    (closing : Symbol) : Keeps nested (forClause closing clause) ([·]) := by
  have hoptional : Keeps nested (optionalClause closing clause) ([·]) :=
    Keeps.skip keeps_state fun s => Keeps.ite (keeps_placeholder rfl) hclause
  refine Continues.keeps fun o => Continues.node hoptional fun node => ?_
  exact Continues.skip (keeps_expect _) fun _ => Continues.done rfl

theorem keeps_variableOrExpression : Keeps nested variableOrExpression ([·]) :=
  Keeps.skip keeps_state fun _ => Keeps.ite (keeps_variableDeclaration h false) (h _)

theorem opens_forStatement : Opens nested forStatement ([·]) := by
  refine Opens.mark_take fun m token o => Continues.skip (keeps_expect _) fun _ => ?_
  refine Continues.node (keeps_forClause (keeps_variableOrExpression h) _) fun start => ?_
  refine Continues.node (keeps_forClause (h _) _) fun test => ?_
  refine Continues.node (keeps_forClause (h _) _) fun step => ?_
  exact Continues.node (h _) fun code => Continues.close rfl rfl

theorem opens_foreachStatement : Opens nested foreachStatement ([·]) := by
  refine Opens.mark_take fun m token o => ?_
  refine Continues.node (keeps_variableOrExpression h) fun item => ?_
  refine Continues.skip (keeps_expectKeyword _) fun _ => ?_
  refine Continues.node (keeps_condition h) fun items => ?_
  exact Continues.node (h _) fun code => Continues.close rfl rfl

theorem opens_caseArm : Opens nested caseArm ([·]) := by
  refine Opens.mark_take fun m token o => Continues.skip keeps_caseOperator fun payload => ?_
  refine Continues.node (h _) fun value => Continues.skip (keeps_expect _) fun _ => ?_
  refine Continues.node (Keeps.sequence h (h _) _) fun code => ?_
  exact Continues.close rfl rfl

theorem opens_defaultArm : Opens nested defaultArm ([·]) := by
  refine Opens.mark_take fun m token o => Continues.skip (keeps_expect _) fun _ => ?_
  exact Continues.node (Keeps.sequence h (h _) _) fun code => Continues.close rfl rfl

/-- What is passed over on the way to an arm comes after a report. -/
theorem keeps_skipToArm : Keeps nested skipToArm fun _ => [] := by
  refine Keeps.skip keeps_state fun before => Continues.keeps fun o => ?_
  refine Ensures.bind (ensures_reportExpected _) fun _ => ?_
  exact (ensures_excused h _).weaken fun _ _ hs => hs.1

theorem continues_armStep (o : State) (arms : List Node) :
    Continues nested o arms.reverse (armStep arms) fun step => step.value.reverse := by
  refine Continues.look fun s hs => Ensures.ite (fun _ => ?_) (fun _ => ?_)
  · exact (Continues.done rfl).at_state hs
  refine Ensures.ite (fun hcase => ?_) (fun _ => Ensures.ite (fun hdefault => ?_) (fun _ => ?_))
  · have harm := (opens_caseArm h).continues_at hs (State.IsPlain.of_isAtKeyword hcase)
    exact Ensures.bind harm fun arm => Continues.done List.reverse_cons
  · have harm := (opens_defaultArm h).continues_at hs (State.IsPlain.of_isAtKeyword hdefault)
    exact Ensures.bind harm fun arm => Continues.done List.reverse_cons
  · exact (Continues.skip (keeps_skipToArm h) fun _ => Continues.done rfl).at_state hs

theorem keeps_switchArms : Keeps nested switchArms id := by
  refine Keeps.skip (keeps_expect _) fun opened => Keeps.ite ?_ (Keeps.done rfl)
  refine Continues.keeps fun o => ?_
  have harms : Continues nested o [] (loop armStep []) List.reverse :=
    Ensures.loop (continues_armStep h o) []
  refine Ensures.bind harms fun arms => ?_
  exact Continues.skip (keeps_expect _) fun _ => Continues.done rfl

theorem opens_switchStatement : Opens nested switchStatement ([·]) := by
  refine Opens.mark_take fun m token o => Continues.node (keeps_condition h) fun value => ?_
  exact Continues.node (keeps_switchArms h) fun arms => Continues.close rfl rfl

theorem keeps_catchClause : Keeps nested catchClause ([·]) := by
  refine Keeps.look fun o ho => Ensures.ite (fun hat => ?_) (fun _ => ?_)
  · refine RunsTo.mark_take ho (State.IsPlain.of_isAtKeyword hat) fun m token o => ?_
    refine Continues.skip (keeps_expect _) fun _ => Continues.skip keeps_state fun s => ?_
    refine Continues.node ((Keeps.single (keeps_parameter h)).optionally _) fun params => ?_
    refine Continues.skip (keeps_expect _) fun _ => ?_
    exact Continues.node (keeps_block h) fun code => Continues.close rfl rfl
  · exact (Keeps.skip (keeps_reportExpected _) fun _ => keeps_missing).at_state ho

theorem opens_tryStatement : Opens nested tryStatement ([·]) := by
  refine Opens.mark_take fun m token o => Continues.node (keeps_block h) fun code => ?_
  exact Continues.node (keeps_catchClause h) fun handler => Continues.close rfl rfl

theorem opens_jumpStatement {kind : Node.Kind} (hkind : kind.isVerbatim = false)
    (isRequired : Bool) : Opens nested (jumpStatement kind isRequired) ([·]) := by
  refine Opens.mark_take fun m token o => Continues.skip keeps_state fun s => ?_
  have hvalues := Keeps.single (keeps_expressionList h)
  refine Continues.node (hvalues.optionally _) fun values => ?_
  exact Continues.skip (keeps_expect _) fun _ => Continues.close rfl hkind

omit h in
theorem opens_bareStatement {kind : Node.Kind} (hkind : kind.isVerbatim = false) :
    Opens nested (bareStatement kind) ([·]) :=
  Opens.mark_take fun _ _ _ => Continues.skip (keeps_expect _) fun _ => Continues.close rfl hkind

theorem opens_guardStatement {kind : Node.Kind} (hkind : kind.isVerbatim = false) :
    Opens nested (guardStatement kind) ([·]) :=
  Opens.mark_take fun _ _ _ => Continues.node (h _) fun _ => Continues.close rfl hkind

omit h in
theorem opens_emptyStatement : Opens nested emptyStatement ([·]) :=
  Opens.mark_take fun _ _ _ => Continues.close rfl rfl

theorem keeps_openStatement : Keeps nested openStatement ([·]) := by
  refine Keeps.skip keeps_state fun s => Keeps.ite (keeps_declaration h) ?_
  refine Keeps.ite (keeps_variableDeclaration h true) ?_
  refine Keeps.mark_continues fun m o => Continues.node (h _) fun node => ?_
  exact Continues.skip (keeps_expect _) fun _ => Continues.close rfl rfl

theorem opens_wordStatement (word : Keyword) : Opens nested (wordStatement word) ([·]) := by
  rw [wordStatement.eq_def]
  split
  · exact opens_ifStatement h
  · exact opens_whileStatement h
  · exact opens_doStatement h
  · exact opens_forStatement h
  · exact opens_foreachStatement h
  · exact opens_switchStatement h
  · exact opens_tryStatement h
  · exact opens_jumpStatement h rfl true
  · exact opens_jumpStatement h rfl false
  · exact opens_jumpStatement h rfl false
  · exact opens_bareStatement rfl
  · exact opens_bareStatement rfl
  · exact opens_bareStatement rfl
  · exact opens_guardStatement h rfl
  · exact opens_guardStatement h rfl
  · exact opens_guardStatement h rfl
  · exact (keeps_variableDeclaration h true).opens
  · exact (keeps_variableDeclaration h true).opens
  · exact (keeps_openStatement h).opens

theorem keeps_statementRule : Keeps nested statementRule ([·]) := by
  refine Keeps.look fun o ho => ?_
  split
  · exact (keeps_block h).at_state ho
  · rename_i hkind
    exact opens_emptyStatement.at_state ho (congrArg Token.Kind.literal? hkind)
  · rename_i name argument hkind
    rintro s rfl
    exact carries_close_advance ho (by rw [hkind]; nofun) (congrArg Token.Kind.literal? hkind)
  · rename_i hkind
    exact (opens_wordStatement h _).at_state ho (congrArg Token.Kind.literal? hkind)
  · exact (keeps_openStatement h).at_state ho

end QoreSyntax.Grammar.Conservation

import QoreSyntax.Grammar.Statement
import QoreSyntax.Proofs.Grammar.Account.Declaration
import QoreSyntax.Proofs.Grammar.Account.Expression

namespace QoreSyntax.Grammar.Account

open Grammar.Parser (Ensures)

variable {A : Account} {nested : Goal → State → Node × State} (h : A.Sound nested)
include h

theorem lays_condition : A.Lays nested condition ([·]) := by
  refine Lays.skip h fun _ => Continues.lays fun o => ?_
  refine Continues.node (lays_call h _) fun node => ?_
  refine Continues.skip h fun _ => ?_
  exact Continues.done rfl

theorem lays_ifStatement : A.Lays nested ifStatement ([·]) := by
  refine Lays.mark fun o => ?_
  refine Continues.skip h fun _ => ?_
  refine Continues.node (lays_condition h) fun test => ?_
  refine Continues.node (lays_call h _) fun branch => ?_
  refine Continues.skip h fun found => ?_
  refine Continues.node (Lays.optionally (Lays.single (lays_call h _)) _) fun alternative => ?_
  exact Continues.close rfl rfl rfl

theorem lays_whileStatement : A.Lays nested whileStatement ([·]) := by
  refine Lays.mark fun o => ?_
  refine Continues.skip h fun _ => ?_
  refine Continues.node (lays_condition h) fun test => ?_
  refine Continues.node (lays_call h _) fun code => ?_
  exact Continues.close rfl rfl rfl

theorem lays_doStatement : A.Lays nested doStatement ([·]) := by
  refine Lays.mark fun o => ?_
  refine Continues.skip h fun _ => ?_
  refine Continues.node (lays_call h _) fun code => ?_
  refine Continues.skip h fun _ => ?_
  refine Continues.node (lays_condition h) fun test => ?_
  refine Continues.skip h fun _ => ?_
  exact Continues.close rfl rfl rfl

theorem lays_forClause (closing : Symbol) {clause : Parser Node}
    (hclause : A.Lays nested clause ([·])) : A.Lays nested (forClause closing clause) ([·]) := by
  refine Continues.lays fun o => ?_
  have hoptional : A.Lays nested (optionalClause closing clause) ([·]) :=
    Lays.skip h fun s => Lays.ite (lays_placeholder .empty rfl) hclause
  refine Continues.node hoptional fun node => ?_
  refine Continues.skip h fun _ => ?_
  exact Continues.done rfl

theorem lays_variableOrExpression : A.Lays nested variableOrExpression ([·]) :=
  Lays.skip h fun _ => Lays.ite (lays_variableDeclaration h false) (lays_call h _)

theorem lays_forStatement : A.Lays nested forStatement ([·]) := by
  refine Lays.mark fun o => ?_
  refine Continues.skip h fun _ => ?_
  refine Continues.skip h fun _ => ?_
  refine Continues.node (lays_forClause h _ (lays_variableOrExpression h)) fun start => ?_
  refine Continues.node (lays_forClause h _ (lays_call h _)) fun test => ?_
  refine Continues.node (lays_forClause h _ (lays_call h _)) fun step => ?_
  refine Continues.node (lays_call h _) fun code => ?_
  exact Continues.close rfl rfl rfl

theorem lays_foreachStatement : A.Lays nested foreachStatement ([·]) := by
  refine Lays.mark fun o => ?_
  refine Continues.skip h fun _ => ?_
  refine Continues.node (lays_variableOrExpression h) fun item => ?_
  refine Continues.skip h fun _ => ?_
  refine Continues.node (lays_condition h) fun items => ?_
  refine Continues.node (lays_call h _) fun code => ?_
  exact Continues.close rfl rfl rfl

theorem lays_caseArm : A.Lays nested caseArm ([·]) := by
  refine Lays.mark fun o => ?_
  refine Continues.skip h fun _ => ?_
  refine Continues.skip h fun payload => ?_
  refine Continues.node (lays_call h _) fun value => ?_
  refine Continues.skip h fun _ => ?_
  refine Continues.node (Lays.sequence h (lays_call h _) _) fun code => ?_
  exact Continues.close rfl rfl rfl

theorem lays_defaultArm : A.Lays nested defaultArm ([·]) := by
  refine Lays.mark fun o => ?_
  refine Continues.skip h fun _ => ?_
  refine Continues.skip h fun _ => ?_
  refine Continues.node (Lays.sequence h (lays_call h _) _) fun code => ?_
  exact Continues.close rfl rfl rfl

theorem continues_armStep (o : State) (arms : List Node) :
    A.Continues nested o arms.reverse (armStep arms) fun step => step.value.reverse := by
  refine Continues.skip h fun s => Ensures.ite (fun _ => Continues.done rfl) (fun _ => ?_)
  refine Ensures.ite (fun _ => ?_) (fun _ => Ensures.ite (fun _ => ?_) (fun _ => ?_))
  · refine Continues.node (lays_caseArm h) fun arm => ?_
    exact Continues.done List.reverse_cons
  · refine Continues.node (lays_defaultArm h) fun arm => ?_
    exact Continues.done List.reverse_cons
  · refine Continues.skip h fun _ => ?_
    exact Continues.done rfl

theorem lays_switchArms : A.Lays nested switchArms id := by
  refine Lays.skip h fun opened => Lays.ite ?_ (Lays.done rfl)
  refine Continues.lays fun o => ?_
  have harms : A.Continues nested o [] (loop armStep []) List.reverse :=
    Ensures.loop (continues_armStep h o) []
  refine Ensures.bind harms fun arms => ?_
  refine Continues.skip h fun _ => ?_
  exact Continues.done rfl

theorem lays_switchStatement : A.Lays nested switchStatement ([·]) := by
  refine Lays.mark fun o => ?_
  refine Continues.skip h fun _ => ?_
  refine Continues.node (lays_condition h) fun value => ?_
  refine Continues.node (lays_switchArms h) fun arms => ?_
  exact Continues.close rfl rfl rfl

theorem lays_catchClause : A.Lays nested catchClause ([·]) := by
  refine Lays.skip h fun s => Lays.ite ?_ (Continues.lays fun _ => Continues.report excused_missing)
  refine Lays.mark fun o => ?_
  refine Continues.skip h fun _ => ?_
  refine Continues.skip h fun _ => ?_
  refine Continues.skip h fun s => ?_
  refine Continues.node (Lays.optionally (Lays.single (lays_parameter h)) _) fun params => ?_
  refine Continues.skip h fun _ => ?_
  refine Continues.node (lays_block h) fun code => ?_
  exact Continues.close rfl rfl rfl

theorem lays_tryStatement : A.Lays nested tryStatement ([·]) := by
  refine Lays.mark fun o => ?_
  refine Continues.skip h fun _ => ?_
  refine Continues.node (lays_block h) fun code => ?_
  refine Continues.node (lays_catchClause h) fun handler => ?_
  exact Continues.close rfl rfl rfl

theorem lays_jumpStatement (kind : Node.Kind) (isRequired : Bool)
    (hkind : kind.isOrdinary = true) :
    A.Lays nested (jumpStatement kind isRequired) ([·]) := by
  refine Lays.mark fun o => ?_
  refine Continues.skip h fun _ => ?_
  refine Continues.skip h fun s => ?_
  have hvalues := Lays.single (lays_expressionList h)
  refine Continues.node (Lays.optionally hvalues _) fun values => ?_
  refine Continues.skip h fun _ => ?_
  exact Continues.close rfl rfl hkind

theorem lays_bareStatement (kind : Node.Kind) (hkind : kind.isOrdinary = true) :
    A.Lays nested (bareStatement kind) ([·]) := by
  refine Lays.mark fun o => ?_
  refine Continues.skip h fun _ => ?_
  refine Continues.skip h fun _ => ?_
  exact Continues.close rfl rfl hkind

theorem lays_guardStatement (kind : Node.Kind) (hkind : kind.isOrdinary = true) :
    A.Lays nested (guardStatement kind) ([·]) := by
  refine Lays.mark fun o => ?_
  refine Continues.skip h fun _ => ?_
  refine Continues.node (lays_call h _) fun code => ?_
  exact Continues.close rfl rfl hkind

theorem lays_emptyStatement : A.Lays nested emptyStatement ([·]) := by
  refine Lays.mark fun o => ?_
  refine Continues.skip h fun _ => ?_
  exact Continues.close rfl rfl rfl

theorem lays_directiveLine (name argument : String) :
    A.Lays nested (directiveLine name argument) ([·]) := by
  refine Lays.mark fun o => ?_
  refine Continues.skip h fun _ => ?_
  exact Continues.close rfl rfl rfl

theorem lays_expressionStatement : A.Lays nested expressionStatement ([·]) := by
  refine Lays.mark fun o => ?_
  refine Continues.node (lays_call h _) fun node => ?_
  refine Continues.skip h fun _ => ?_
  exact Continues.close rfl rfl rfl

theorem lays_openStatement : A.Lays nested openStatement ([·]) := by
  refine Lays.skip h fun s => Lays.ite (lays_declaration h) ?_
  exact Lays.ite (lays_variableDeclaration h true) (lays_expressionStatement h)

theorem lays_wordStatement (word : Keyword) : A.Lays nested (wordStatement word) ([·]) := by
  rw [wordStatement.eq_def]
  split
  · exact lays_ifStatement h
  · exact lays_whileStatement h
  · exact lays_doStatement h
  · exact lays_forStatement h
  · exact lays_foreachStatement h
  · exact lays_switchStatement h
  · exact lays_tryStatement h
  · exact lays_jumpStatement h .throw true rfl
  · exact lays_jumpStatement h .return false rfl
  · exact lays_jumpStatement h .rethrow false rfl
  · exact lays_bareStatement h .break rfl
  · exact lays_bareStatement h .continue rfl
  · exact lays_bareStatement h .threadExit rfl
  · exact lays_guardStatement h .onExit rfl
  · exact lays_guardStatement h .onSuccess rfl
  · exact lays_guardStatement h .onError rfl
  · exact lays_variableDeclaration h true
  · exact lays_variableDeclaration h true
  · exact lays_openStatement h

theorem lays_statementRule : A.Lays nested statementRule ([·]) := by
  refine Lays.skip h fun s => ?_
  split
  · exact lays_block h
  · exact lays_emptyStatement h
  · exact lays_directiveLine h _ _
  · exact lays_wordStatement h _
  · exact lays_openStatement h

end QoreSyntax.Grammar.Account

import QoreSyntax.Proofs.Grammar.Conservation.Declaration

namespace QoreSyntax.Grammar.Conservation

open Grammar.Parser (Ensures)
open Node (literals)

variable {nested : Goal → State → Node × State} (h : Sound nested)
include h

theorem keeps_expressionList : Keeps nested expressionList ([·]) := by
  refine Keeps.mark_continues fun m o => Continues.node (h _) fun first => ?_
  refine Continues.skip (keeps_eat _) fun comma => Ensures.ite (fun _ => ?_) (fun _ => ?_)
  · exact Continues.node (Keeps.commaList (h _)) fun rest => Continues.close rfl rfl
  · exact Continues.done rfl

theorem continues_hashEntry (o : State) (m : Mark) (key : Node) :
    Continues nested o [key] (hashEntry m key) ([·]) := by
  refine Continues.skip (keeps_expect _) fun _ => ?_
  exact Continues.node (h _) fun value => Continues.close rfl rfl

theorem keeps_keyAndValue : Keeps nested keyAndValue ([·]) :=
  Keeps.mark_continues fun m o => Continues.node (h _) fun key => continues_hashEntry h o m key

theorem continues_hashEntries (o : State) (m first : Mark) (key : Node) (closing : Symbol) :
    Continues nested o [key] (hashEntries m first key closing) ([·]) := by
  refine Ensures.bind (continues_hashEntry h o first key) fun entry => ?_
  refine Continues.skip (keeps_eat _) fun comma => ?_
  have hrest := (keeps_keyAndValue h).separated (·.isAt closing)
  refine Continues.node (hrest.optionally comma) fun rest => ?_
  exact Continues.skip (keeps_expectClosing _) fun _ => Continues.close rfl rfl

theorem opens_braceHash : Opens nested braceHash ([·]) := by
  refine Opens.mark_take fun m token o => ?_
  refine Continues.skip (keeps_eat _) fun closed => Ensures.ite (fun _ => ?_) (fun _ => ?_)
  · exact Continues.close rfl rfl
  · refine Continues.skip keeps_mark fun first => ?_
    exact Continues.node (h _) fun key => continues_hashEntries h o m first key .rBrace

theorem opens_parenthesised : Opens nested parenthesised ([·]) := by
  refine Opens.mark_take fun m token o => ?_
  refine Continues.skip (keeps_eat _) fun closed => Ensures.ite (fun _ => ?_) (fun _ => ?_)
  · exact Continues.close rfl rfl
  · refine Continues.skip keeps_mark fun start => Continues.node (h _) fun first => ?_
    refine Continues.look fun s hs => Ensures.ite (fun _ => ?_) (fun _ => ?_)
    · exact (continues_hashEntries h o m start first .rParen).at_state hs
    · refine Ensures.ite (fun hcomma => ?_) (fun _ => Continues.at_state ?_ hs)
      · refine Continues.take hs (State.IsPlain.of_isAt hcomma) fun _ => ?_
        refine Continues.node (Keeps.separated (h _) _) fun rest => ?_
        exact Continues.skip (keeps_expectClosing _) fun _ => Continues.close rfl rfl
      · exact Continues.skip (keeps_expect _) fun _ => Continues.close rfl rfl

theorem opens_listOperator (word : Keyword) : Opens nested (listOperator word) ([·]) := by
  refine Opens.mark_take fun m token o => ?_
  exact Continues.node (Keeps.commaList (h _)) fun operands => Continues.close rfl rfl

theorem keeps_thirdOperand (word : Keyword) : Keeps nested (thirdOperand word) id := by
  refine Keeps.ite (Keeps.skip (keeps_eat _) fun comma => ?_) (Keeps.done rfl)
  exact (Keeps.single (h _)).optionally comma

theorem opens_itemOperator (word : Keyword) : Opens nested (itemOperator word) ([·]) := by
  refine Opens.mark_take fun m token o => Continues.node (h _) fun first => ?_
  refine Continues.skip (keeps_expect _) fun _ => Continues.node (h _) fun second => ?_
  refine Continues.node (keeps_thirdOperand h word) fun third => Continues.close rfl ?_
  rw [itemOperatorNode.eq_def]
  split <;> rfl

theorem opens_newObject : Opens nested newObject ([·]) := by
  refine Opens.mark_take fun m token o => Continues.node (h _) fun node => ?_
  refine Continues.skip keeps_state fun s => ?_
  refine Continues.node ((Keeps.single (keeps_arguments h)).optionally _) fun values => ?_
  exact Continues.close rfl rfl

theorem keeps_castType : Keeps nested castType id := by
  refine Keeps.skip (keeps_expect _) fun opened => Keeps.ite ?_ (Keeps.done rfl)
  refine Continues.keeps fun o => Continues.node (h _) fun node => ?_
  exact Continues.skip keeps_expectAngle fun _ => Continues.done rfl

theorem opens_cast : Opens nested cast ([·]) := by
  refine Opens.mark_take fun m token o => Continues.node (keeps_castType h) fun types => ?_
  refine Continues.skip (keeps_expect _) fun _ => Continues.node (h _) fun value => ?_
  exact Continues.skip (keeps_expect _) fun _ => Continues.close rfl rfl

theorem keeps_closure : Keeps nested closure ([·]) := by
  refine Keeps.mark_continues fun m o => Continues.skip keeps_state fun s => ?_
  refine Continues.node ((Keeps.single (h _)).optionally _) fun types => ?_
  refine Continues.skip (keeps_expectKeyword _) fun _ => ?_
  refine Continues.node (keeps_parameters h) fun params => ?_
  refine Continues.node (keeps_resultType h) fun result => ?_
  exact Continues.node (keeps_block h) fun body => Continues.close (by simp) rfl

omit h in
theorem keeps_nameOperand : Keeps nested nameOperand ([·]) :=
  Keeps.mark_continues fun _ _ =>
    Continues.skip keeps_scopedName fun _ => Continues.close rfl rfl

omit h in
theorem opens_conversionName (word : Keyword) : Opens nested (conversionName word) ([·]) :=
  Opens.mark_take fun _ _ _ => Continues.close rfl rfl

omit h in
theorem keeps_missingExpression : Keeps nested missingExpression ([·]) :=
  Keeps.skip (keeps_reportExpected _) fun _ => keeps_missing

theorem opens_wordOperand (word : Keyword) : Opens nested (wordOperand word) ([·]) := by
  refine Opens.look fun s => ?_
  dsimp only
  split
  · exact opens_newObject h
  · exact opens_cast h
  · exact (Keeps.ite (keeps_closure h) keeps_missingExpression).opens
  · exact opens_itemOperator h .map
  · exact opens_itemOperator h .select
  · exact opens_itemOperator h .foldl
  · exact opens_itemOperator h .foldr
  · exact opens_listOperator h .push
  · exact opens_listOperator h .unshift
  · exact opens_listOperator h .splice
  · exact opens_listOperator h .extract
  · split_ifs
    · exact opens_conversionName word
    · exact (keeps_closure h).opens
    · exact keeps_missingExpression.opens

theorem keeps_operand : Keeps nested operand ([·]) := by
  refine Keeps.look fun o ho => ?_
  dsimp only
  split
  · rename_i nodeKind payload hoperand
    have hne : o.kind ≠ .eof := by
      intro heof
      rw [heof] at hoperand
      cases hoperand
    rintro s rfl
    exact carries_close_advance ho hne (Literal.simpleOperand?_eq hoperand)
  · split
    · exact keeps_nameOperand.at_state ho
    · exact keeps_nameOperand.at_state ho
    · rename_i hkind
      exact (opens_parenthesised h).at_state ho (congrArg Token.Kind.literal? hkind)
    · rename_i hkind
      exact (opens_braceHash h).at_state ho (congrArg Token.Kind.literal? hkind)
    · rename_i hkind
      exact (opens_wordOperand h _).at_state ho (congrArg Token.Kind.literal? hkind)
    · exact keeps_missingExpression.at_state ho

omit h in
theorem prefixNode?_plain {kind : Token.Kind} {nodeKind : Node.Kind} {operator : String}
    (hoperator : prefixNode? kind = some (nodeKind, operator)) :
    kind.literal? = none ∧ nodeKind.isVerbatim = false := by
  rcases prefixNode?_cases hoperator with ⟨symbol, rfl, rfl⟩ | ⟨word, rfl, rfl⟩
  · exact ⟨rfl, rfl⟩
  · exact ⟨rfl, rfl⟩

theorem keeps_prefixed : Keeps nested prefixed ([·]) := by
  refine Keeps.look fun o ho => ?_
  split
  · rename_i hoperator
    obtain ⟨hplain, hkind⟩ := prefixNode?_plain hoperator
    refine RunsTo.mark_take ho hplain fun m token o => ?_
    exact Continues.node (h _) fun inner => Continues.close rfl hkind
  · exact (keeps_operand h).at_state ho

section Behind

variable {o s : State} {left : Node} (hs : o.Carries (literals [left]) s) (m : Mark)
include hs

theorem runsTo_suffix {suffix : Parser Node} (hsuffix : suffix? m left s.current = some suffix) :
    RunsTo nested o s suffix ([·]) := by
  rw [suffix?] at hsuffix
  split at hsuffix
  · rename_i hkind
    rw [← Option.some.inj hsuffix]
    refine Continues.take hs (congrArg Token.Kind.literal? hkind) fun _ => ?_
    exact Continues.skip keeps_memberName? fun name => Continues.close rfl rfl
  · rename_i hkind
    rw [← Option.some.inj hsuffix]
    refine Continues.take hs (congrArg Token.Kind.literal? hkind) fun _ => ?_
    refine Continues.node (h _) fun index => ?_
    exact Continues.skip (keeps_expect _) fun _ => Continues.close rfl rfl
  · rename_i hkind
    split at hsuffix
    · cases hsuffix
    · rw [← Option.some.inj hsuffix]
      refine Continues.take hs (congrArg Token.Kind.literal? hkind) fun _ => ?_
      refine Continues.node (Keeps.separated (h _) _) fun items => ?_
      exact Continues.skip (keeps_expectClosing _) fun _ => Continues.close rfl rfl
  · rw [← Option.some.inj hsuffix]
    refine Continues.at_state ?_ hs
    exact Continues.node (keeps_arguments h) fun values => Continues.close rfl rfl
  · rename_i hkind
    rw [← Option.some.inj hsuffix]
    exact Continues.take hs (congrArg Token.Kind.literal? hkind) fun _ => Continues.close rfl rfl
  · rename_i hkind
    rw [← Option.some.inj hsuffix]
    exact Continues.take hs (congrArg Token.Kind.literal? hkind) fun _ => Continues.close rfl rfl
  · cases hsuffix

omit h hs in
theorem literal?_of_power? {kind : Token.Kind} {power : Power} (hpower : power? kind = some power) :
    kind.literal? = none := by
  rw [power?.eq_def] at hpower
  split at hpower
  · rfl
  · rfl
  · cases hpower

theorem runsTo_rightOperand (hplain : s.IsPlain) (power : Nat) :
    RunsTo nested o s (rightOperand m left power) ([·]) := by
  refine Continues.take hs hplain fun token => ?_
  split
  · refine Continues.node (h _) fun middle => Continues.skip (keeps_expect _) fun _ => ?_
    exact Continues.node (h _) fun right => Continues.close rfl rfl
  · refine Continues.node (h _) fun right => Continues.close rfl ?_
    split_ifs <;> rfl
  · exact Continues.node (h _) fun right => Continues.close rfl rfl

omit hs in
theorem continues_expressionStep (o : State) (power : Nat) (left : Node) :
    Continues nested o [left] (expressionStep m power left) fun step => [step.value] := by
  refine Continues.look fun s hs => ?_
  dsimp only
  split
  · rename_i suffix hsuffix
    exact Ensures.bind (runsTo_suffix h hs m hsuffix) fun node => Continues.done rfl
  · split
    · exact (Continues.done rfl).at_state hs
    · rename_i binding hbinding
      refine Ensures.ite (fun _ => (Continues.done rfl).at_state hs) (fun _ => ?_)
      have hplain : s.IsPlain := literal?_of_power? hbinding
      exact Ensures.bind (runsTo_rightOperand h hs m hplain _) fun node => Continues.done rfl

end Behind

theorem keeps_expressionRule (power : Nat) : Keeps nested (expressionRule power) ([·]) := by
  refine Keeps.mark_continues fun m o => Continues.node (keeps_prefixed h) fun first => ?_
  exact Ensures.loop (I := fun node => o.Carries (literals [node]))
    (continues_expressionStep h m o power) first

end QoreSyntax.Grammar.Conservation

import QoreSyntax.Proofs.Grammar.Bracing.Declaration

namespace QoreSyntax.Grammar.Bracing

variable {B : Bracing} {nested : Goal → State → Node × State} (h : B.Sound nested)
include h

theorem keeps_expressionList : B.Keeps nested expressionList := by
  refine Takes.mark fun m => (h.keeps (.expression 0)).bind fun first => ?_
  refine (keeps_eat .comma rfl).bind fun comma => Takes.ite ?_ (keeps_pure _)
  exact (h.keeps (.expression 0)).commaList.bind fun rest => keeps_close _ _ _ _

theorem keeps_hashEntry (m : Mark) (key : Node) : B.Keeps nested (hashEntry m key) :=
  (keeps_expect .colon rfl).bind fun _ => (h.keeps (.expression 0)).bind fun _ =>
    keeps_close _ _ _ _

theorem keeps_keyAndValue : B.Keeps nested keyAndValue :=
  Takes.mark fun m => (h.keeps (.expression 0)).bind fun key => keeps_hashEntry h m key

theorem takes_hashEntries (m first : Mark) (key : Node) (closing : Symbol) :
    B.Takes nested (Token.Kind.symbol closing).braces (hashEntries m first key closing) := by
  refine (keeps_hashEntry h first key).bind fun entry => (keeps_eat .comma rfl).bind fun comma => ?_
  refine (((keeps_keyAndValue h).separated _).optionally comma).bind fun rest => ?_
  exact (takes_expectClosing closing).followed fun _ => keeps_close _ _ _ _

theorem runsFrom_braceHash {s : State} (hs : s.final.isEof = true)
    (hkind : s.kind = .symbol .lBrace) : B.RunsFrom nested s 0 braceHash := by
  refine RunsFrom.take_brace hs hkind fun _ => ?_
  refine Takes.eat .rBrace (keeps_close _ _ _ _) (Takes.mark fun first => ?_)
  exact (h.keeps (.expression 0)).bind fun key => takes_hashEntries h _ first key .rBrace

theorem opens_parenthesised : B.Opens nested parenthesised := by
  refine Opens.mark_take fun m _ => (keeps_eat .rParen rfl).bind fun closed => ?_
  refine Takes.ite (keeps_close _ _ _ _) (Takes.mark fun start => ?_)
  refine (h.keeps (.expression 0)).bind fun first => Takes.look fun s hs => ?_
  split_ifs with _ hcomma
  · exact (takes_hashEntries h m start first .rParen).runsFrom hs
  · refine RunsFrom.take_of_kind hs (eq_of_beq hcomma) rfl fun _ => ?_
    refine ((h.keeps (.expression 0)).separated _).bind fun rest => ?_
    exact (keeps_expectClosing .rParen rfl).bind fun _ => keeps_close _ _ _ _
  · exact ((keeps_expect .rParen rfl).bind fun _ => keeps_close _ _ _ _).runsFrom hs

theorem opens_listOperator (word : Keyword) : B.Opens nested (listOperator word) :=
  Opens.mark_take fun _ _ => (h.keeps (.expression itemPower)).commaList.bind fun _ =>
    keeps_close _ _ _ _

theorem keeps_thirdOperand (word : Keyword) : B.Keeps nested (thirdOperand word) :=
  Takes.ite ((keeps_eat .comma rfl).bind fun comma => (h.keeps _).single.optionally comma)
    (keeps_pure _)

theorem opens_itemOperator (word : Keyword) : B.Opens nested (itemOperator word) := by
  refine Opens.mark_take fun m _ => (h.keeps (.expression itemPower)).bind fun first => ?_
  refine (keeps_expect .comma rfl).bind fun _ => ?_
  refine (h.keeps (.expression itemPower)).bind fun second => ?_
  exact (keeps_thirdOperand h word).bind fun third => keeps_close _ _ _ _

theorem opens_newObject : B.Opens nested newObject := by
  refine Opens.mark_take fun m _ => (h.keeps .type).bind fun node => Takes.state fun s => ?_
  exact ((keeps_arguments h).single.optionally _).bind fun values => keeps_close _ _ _ _

theorem keeps_castType : B.Keeps nested castType := by
  refine (keeps_expect .lt rfl).bind fun opened => Takes.ite ?_ (keeps_pure _)
  exact (h.keeps .type).bind fun node => keeps_expectAngle.bind fun _ => keeps_pure _

theorem opens_cast : B.Opens nested cast := by
  refine Opens.mark_take fun m _ => (keeps_castType h).bind fun types => ?_
  refine (keeps_expect .lParen rfl).bind fun _ => (h.keeps (.expression 0)).bind fun value => ?_
  exact (keeps_expect .rParen rfl).bind fun _ => keeps_close _ _ _ _

theorem keeps_closure : B.Keeps nested closure := by
  refine Takes.mark fun m => Takes.state fun s => ?_
  refine ((h.keeps .type).single.optionally _).bind fun types => ?_
  refine (keeps_expectKeyword _).bind fun _ => (keeps_parameters h).bind fun params => ?_
  refine (keeps_resultType h).bind fun result => ?_
  exact (keeps_block h).bind fun code => keeps_close _ _ _ _

omit h in
theorem keeps_nameOperand : B.Keeps nested nameOperand :=
  Takes.mark fun _ => keeps_scopedName.bind fun _ => keeps_close _ _ _ _

omit h in
theorem opens_conversionName (word : Keyword) : B.Opens nested (conversionName word) :=
  Opens.mark_take fun _ _ => keeps_close _ _ _ _

omit h in
theorem keeps_missingExpression : B.Keeps nested missingExpression :=
  (keeps_reportExpected _).bind fun _ => keeps_missing

theorem opens_wordOperand (word : Keyword) : B.Opens nested (wordOperand word) := by
  refine Opens.state fun s => ?_
  dsimp only
  split
  · exact opens_newObject h
  · exact opens_cast h
  · exact (Takes.ite (keeps_closure h) keeps_missingExpression).opens
  · exact opens_itemOperator h .map
  · exact opens_itemOperator h .select
  · exact opens_itemOperator h .foldl
  · exact opens_itemOperator h .foldr
  · exact opens_listOperator h .push
  · exact opens_listOperator h .unshift
  · exact opens_listOperator h .splice
  · exact opens_listOperator h .extract
  · split_ifs
    · exact opens_conversionName word
    · exact (keeps_closure h).opens
    · exact keeps_missingExpression.opens

omit h in
theorem braces_of_simpleOperand? {kind : Token.Kind} {found : Node.Kind × Payload}
    (hoperand : simpleOperand? kind = some found) : kind.braces = 0 := by
  cases kind with
  | symbol symbol => cases hoperand
  | _ => rfl

theorem keeps_operand : B.Keeps nested operand := by
  refine Takes.look fun s hs => ?_
  dsimp only
  split
  · rename_i hoperand
    exact Opens.mark_take (fun m _ => keeps_close m _ _ _) s hs (braces_of_simpleOperand? hoperand)
  · split
    · exact keeps_nameOperand.runsFrom hs
    · exact keeps_nameOperand.runsFrom hs
    · rename_i hkind
      exact (opens_parenthesised h).of_kind hs hkind rfl
    · rename_i hkind
      exact runsFrom_braceHash h hs hkind
    · rename_i hkind
      exact (opens_wordOperand h _).of_kind hs hkind rfl
    · exact keeps_missingExpression.runsFrom hs

omit h in
theorem braces_of_prefixNode? {kind : Token.Kind} {found : Node.Kind × String}
    (hoperator : prefixNode? kind = some found) : kind.braces = 0 := by
  cases kind with
  | symbol symbol => cases symbol <;> first | rfl | cases hoperator
  | _ => rfl

theorem keeps_prefixed : B.Keeps nested prefixed := by
  refine Takes.look fun s hs => ?_
  split
  · rename_i hoperator
    refine Opens.mark_take (fun m _ => ?_) s hs (braces_of_prefixNode? hoperator)
    exact (h.keeps (.expression prefixPower)).bind fun inner => keeps_close m _ _ _
  · exact (keeps_operand h).runsFrom hs

omit h in
theorem keeps_memberName? : B.Keeps nested memberName? := by
  refine Takes.look fun s hs => ?_
  split
  · rename_i hkind
    exact RunsFrom.name hs hkind rfl _
  · rename_i hkind
    exact RunsFrom.name hs hkind rfl _
  · exact (keeps_missed _ none).runsFrom hs

theorem runsFrom_suffix {s : State} (hs : s.final.isEof = true) {m : Mark} {left : Node}
    {suffix : Parser Node} (hsuffix : suffix? m left s.current = some suffix) :
    B.RunsFrom nested s 0 suffix := by
  rw [suffix?] at hsuffix
  split at hsuffix
  · rename_i hkind
    rw [← Option.some.inj hsuffix]
    refine RunsFrom.take_of_kind hs hkind rfl fun _ => ?_
    exact keeps_memberName?.bind fun name => keeps_close _ _ _ _
  · rename_i hkind
    rw [← Option.some.inj hsuffix]
    refine RunsFrom.take_of_kind hs hkind rfl fun _ => ?_
    refine (h.keeps (.expression 0)).bind fun index => ?_
    exact (keeps_expect .rBracket rfl).bind fun _ => keeps_close _ _ _ _
  · rename_i hkind
    split at hsuffix
    · cases hsuffix
    · rw [← Option.some.inj hsuffix]
      refine RunsFrom.take_brace hs hkind fun _ => ?_
      refine ((h.keeps (.expression 0)).separated _).bind fun items => ?_
      exact (takes_expectClosing .rBrace).followed fun _ => keeps_close _ _ _ _
  · rw [← Option.some.inj hsuffix]
    exact ((keeps_arguments h).bind fun values => keeps_close _ _ _ _).runsFrom hs
  · rename_i hkind
    rw [← Option.some.inj hsuffix]
    exact RunsFrom.take_of_kind hs hkind rfl fun _ => keeps_close _ _ _ _
  · rename_i hkind
    rw [← Option.some.inj hsuffix]
    exact RunsFrom.take_of_kind hs hkind rfl fun _ => keeps_close _ _ _ _
  · cases hsuffix

omit h in
theorem braces_of_power? {kind : Token.Kind} {power : Power} (hpower : power? kind = some power) :
    kind.braces = 0 := by
  cases kind with
  | symbol symbol => cases symbol <;> first | rfl | cases hpower
  | _ => rfl

theorem opens_rightOperand (m : Mark) (left : Node) (power : Nat) :
    B.Opens nested (rightOperand m left power) := by
  refine Opens.take fun token => ?_
  split
  · refine (h.keeps (.expression 0)).bind fun middle => (keeps_expect .colon rfl).bind fun _ => ?_
    exact (h.keeps (.expression power)).bind fun right => keeps_close _ _ _ _
  · exact (h.keeps (.expression power)).bind fun right => keeps_close _ _ _ _
  · exact (h.keeps .type).bind fun right => keeps_close _ _ _ _

theorem keeps_expressionStep (m : Mark) (power : Nat) (left : Node) :
    B.Keeps nested (expressionStep m power left) := by
  refine Takes.look fun s hs => ?_
  dsimp only
  split
  · rename_i suffix hsuffix
    exact (runsFrom_suffix h hs hsuffix).bind hs fun node => keeps_pure _
  · split
    · exact (keeps_pure _).runsFrom hs
    · rename_i binding hbinding
      split_ifs
      · exact (keeps_pure _).runsFrom hs
      · have hright := opens_rightOperand h m left binding.right s hs (braces_of_power? hbinding)
        exact RunsFrom.bind hright hs fun node => keeps_pure _

theorem keeps_expressionRule (power : Nat) : B.Keeps nested (expressionRule power) :=
  Takes.mark fun m => (keeps_prefixed h).bind fun first =>
    keeps_loop (keeps_expressionStep h m power) first

end QoreSyntax.Grammar.Bracing

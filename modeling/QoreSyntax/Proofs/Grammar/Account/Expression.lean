import QoreSyntax.Grammar.Expression
import QoreSyntax.Proofs.Grammar.Account.Variable

namespace QoreSyntax.Grammar.Account

open Grammar.Parser (Ensures)

variable {A : Account} {nested : Goal → State → Node × State} (h : A.Sound nested)
include h

theorem lays_expressionList : A.Lays nested expressionList ([·]) := by
  refine Lays.mark fun o => ?_
  refine Continues.node (lays_call h _) fun first => ?_
  refine Continues.skip h fun comma => Ensures.ite (fun _ => ?_) (fun _ => ?_)
  · refine Continues.node (Lays.commaList h (lays_call h _)) fun rest => ?_
    exact Continues.close rfl rfl rfl
  · exact Continues.done rfl

theorem continues_hashEntry (o : State) (key : Node) :
    A.Continues nested o [key] (hashEntry o.mark key) ([·]) := by
  refine Continues.skip h fun _ => ?_
  refine Continues.node (lays_call h _) fun value => ?_
  exact Continues.close rfl rfl rfl

theorem lays_keyAndValue : A.Lays nested keyAndValue ([·]) := by
  refine Lays.mark fun o => ?_
  refine Continues.node (lays_call h _) fun key => ?_
  exact continues_hashEntry h o key

/-- The hash begins before its first entry, of which the key has been read. -/
theorem ensures_hashEntries {o first : State} (hfirst : A.Holds o [] first) (key : Node)
    (closing : Symbol) :
    Ensures nested (A.Holds first [key]) (hashEntries o.mark first.mark key closing)
      fun node => A.Holds o [node] := by
  refine Ensures.bind (continues_hashEntry h first key) fun entry => ?_
  refine Ensures.strengthen ?_ fun s hs => A.append hfirst hs
  refine Continues.skip h fun comma => ?_
  have hrest := Lays.separated h (lays_keyAndValue h) (·.isAt closing)
  refine Continues.node (Lays.optionally hrest comma) fun rest => ?_
  refine Continues.skip h fun _ => ?_
  exact Continues.close rfl rfl rfl

theorem lays_braceHash : A.Lays nested braceHash ([·]) := by
  refine Lays.mark fun o => ?_
  refine Continues.skip h fun _ => ?_
  refine Continues.skip h fun closed => Ensures.ite (fun _ => ?_) (fun _ => ?_)
  · exact Continues.close rfl rfl rfl
  · refine Continues.mark fun first hfirst => ?_
    refine Ensures.bind ((lays_call h _).continues first []) fun key => ?_
    exact ensures_hashEntries h hfirst key .rBrace

theorem lays_parenthesised : A.Lays nested parenthesised ([·]) := by
  refine Lays.mark fun o => ?_
  refine Continues.skip h fun _ => ?_
  refine Continues.skip h fun closed => Ensures.ite (fun _ => ?_) (fun _ => ?_)
  · exact Continues.close rfl rfl rfl
  · refine Continues.mark fun start hstart => ?_
    refine Ensures.bind ((lays_call h _).continues start []) fun first => ?_
    refine Ensures.bind (continues_silent h start [first] state) fun s => ?_
    refine Ensures.ite (fun _ => ?_) (fun _ => ?_)
    · exact ensures_hashEntries h hstart first .rParen
    · refine Ensures.strengthen ?_ fun s hs => A.append hstart hs
      refine Ensures.ite (fun _ => ?_) (fun _ => ?_)
      · refine Continues.skip h fun _ => ?_
        refine Continues.node (Lays.separated h (lays_call h _) _) fun rest => ?_
        refine Continues.skip h fun _ => ?_
        exact Continues.close rfl rfl rfl
      · refine Continues.skip h fun _ => ?_
        exact Continues.close rfl rfl rfl

theorem lays_listOperator (word : Keyword) : A.Lays nested (listOperator word) ([·]) := by
  refine Lays.mark fun o => ?_
  refine Continues.skip h fun _ => ?_
  refine Continues.node (Lays.commaList h (lays_call h _)) fun operands => ?_
  exact Continues.close rfl rfl rfl

theorem lays_thirdOperand (word : Keyword) : A.Lays nested (thirdOperand word) id := by
  refine Lays.ite (Lays.skip h fun comma => ?_) (Lays.done rfl)
  exact Lays.optionally (Lays.single (lays_call h _)) comma

theorem lays_itemOperator (word : Keyword) : A.Lays nested (itemOperator word) ([·]) := by
  refine Lays.mark fun o => ?_
  refine Continues.skip h fun _ => ?_
  refine Continues.node (lays_call h _) fun first => ?_
  refine Continues.skip h fun _ => ?_
  refine Continues.node (lays_call h _) fun second => ?_
  refine Continues.node (lays_thirdOperand h word) fun third => ?_
  refine Continues.close rfl rfl ?_
  rw [itemOperatorNode.eq_def]
  split <;> rfl

theorem lays_newObject : A.Lays nested newObject ([·]) := by
  refine Lays.mark fun o => ?_
  refine Continues.skip h fun _ => ?_
  refine Continues.node (lays_call h _) fun node => ?_
  refine Continues.skip h fun s => ?_
  refine Continues.node (Lays.optionally (Lays.single (lays_arguments h)) _) fun values => ?_
  exact Continues.close rfl rfl rfl

theorem lays_castType : A.Lays nested castType id := by
  refine Lays.skip h fun opened => Lays.ite ?_ (Lays.done rfl)
  refine Continues.lays fun o => Continues.node (lays_call h _) fun node => ?_
  refine Continues.skip h fun _ => ?_
  exact Continues.done rfl

theorem lays_cast : A.Lays nested cast ([·]) := by
  refine Lays.mark fun o => ?_
  refine Continues.skip h fun _ => ?_
  refine Continues.node (lays_castType h) fun types => ?_
  refine Continues.skip h fun _ => ?_
  refine Continues.node (lays_call h _) fun value => ?_
  refine Continues.skip h fun _ => ?_
  exact Continues.close rfl rfl rfl

theorem lays_closure : A.Lays nested closure ([·]) := by
  refine Lays.mark fun o => ?_
  refine Continues.skip h fun s => ?_
  refine Continues.node (Lays.optionally (Lays.single (lays_call h _)) _) fun types => ?_
  refine Continues.skip h fun _ => ?_
  refine Continues.node (lays_parameters h) fun params => ?_
  refine Continues.node (lays_resultType h) fun result => ?_
  refine Continues.node (lays_block h) fun body => ?_
  exact Continues.close rfl (by simp) rfl

theorem ensures_nameOperand {o : State} (ho : A.Ready o) (hbegins : beginsName o.kind = true) :
    Ensures nested (fun s => s = o) nameOperand fun node => A.Holds o [node] := by
  rintro s rfl
  suffices Ensures nested (fun t => t = s)
      (scopedName >>= fun name => Grammar.close s.mark .name (.name name) [])
      fun node => A.Holds s [node] from this s rfl
  refine Ensures.bind
    (Q := fun name t => A.Holds s [] t ∧ name = (scopedName.run nested s).1) ?_ fun name => ?_
  · rintro t rfl
    exact ⟨continues_silent h t [] scopedName t (A.nil ho), rfl⟩
  · rintro t ⟨ht, rfl⟩
    apply A.close _ ht
    · intro hrecovery
      cases hrecovery
    · intro hname
      exact Or.inl (A.names_scoped ho hbegins hname rfl)

omit h in
/-- The node for the name of a conversion is the word in front of its arguments. -/
theorem ensures_conversionName {o : State} {word : Keyword} (ho : A.Ready o)
    (hword : o.kind = .keyword word) (hbuiltin : word.isBuiltinType = true)
    (hparen : o.kindAt 1 = .symbol .lParen) :
    Ensures nested (fun s => s = o) (conversionName word) fun node => A.Holds o [node] := by
  rintro s rfl
  have htaken := A.extend (A.nil ho) (A.isTrail.advance s ho)
  change A.Holds s [s.advance.close s.mark .name (.name word.spelling) []] s.advance
  apply A.close _ htaken
  · intro hrecovery
    cases hrecovery
  · intro _
    exact Or.inl (A.names_conversion ho hword hbuiltin hparen)

omit h in
theorem lays_missingExpression : A.Lays nested missingExpression ([·]) :=
  Continues.lays fun _ => Continues.report excused_missing

theorem ensures_wordOperand {o : State} {word : Keyword} (ho : A.Ready o)
    (hword : o.kind = .keyword word) :
    Ensures nested (fun s => s = o) (wordOperand word) fun node => A.Holds o [node] := by
  refine Ensures.look_at ?_
  dsimp only
  split
  · exact (lays_newObject h).at_state ho
  · exact (lays_cast h).at_state ho
  · exact (Lays.ite (lays_closure h) lays_missingExpression).at_state ho
  · exact (lays_itemOperator h .map).at_state ho
  · exact (lays_itemOperator h .select).at_state ho
  · exact (lays_itemOperator h .foldl).at_state ho
  · exact (lays_itemOperator h .foldr).at_state ho
  · exact (lays_listOperator h .push).at_state ho
  · exact (lays_listOperator h .unshift).at_state ho
  · exact (lays_listOperator h .splice).at_state ho
  · exact (lays_listOperator h .extract).at_state ho
  · refine Ensures.ite (fun hconversion => ?_) (fun _ => ?_)
    · obtain ⟨hbuiltin, hparen⟩ := Bool.and_eq_true_iff.mp hconversion
      exact ensures_conversionName ho hword hbuiltin (eq_of_beq hparen)
    · exact (Lays.ite (lays_closure h) lays_missingExpression).at_state ho

omit h in
/-- Of the operands of one token only one at fault stands for a mistake. -/
theorem simpleOperand?_recovery {kind : Token.Kind} {nodeKind : Node.Kind} {payload : Payload}
    (hoperand : simpleOperand? kind = some (nodeKind, payload))
    (hrecovery : nodeKind.isRecovery = true) :
    nodeKind = .error ∧ ∃ fault, kind = .invalid fault := by
  cases kind with
  | invalid fault =>
      cases hoperand
      exact ⟨rfl, fault, rfl⟩
  | keyword word => cases word <;> cases hoperand <;> cases hrecovery
  | _ => cases hoperand <;> cases hrecovery

omit h in
/-- No operand of one token is a name, which may be in a scope. -/
theorem simpleOperand?_bearsName {kind : Token.Kind} {nodeKind : Node.Kind} {payload : Payload}
    (hoperand : simpleOperand? kind = some (nodeKind, payload)) : nodeKind.bearsName = false := by
  cases kind with
  | keyword word => cases word <;> cases hoperand <;> rfl
  | _ => cases hoperand <;> rfl

theorem lays_operand : A.Lays nested operand ([·]) := by
  refine Lays.look fun o ho => ?_
  dsimp only
  split
  · rename_i nodeKind payload hoperand
    rintro s rfl
    have htaken := continues_silent h s [] Grammar.advance s (A.nil ho)
    apply A.close payload htaken
    · intro hrecovery
      obtain ⟨hkind, fault, hfault⟩ := simpleOperand?_recovery hoperand hrecovery
      exact ⟨hkind, A.excuses_follows (A.excuses_invalid ho hfault) (A.isTrail.advance s ho)⟩
    · intro hname
      exact Bool.noConfusion ((simpleOperand?_bearsName hoperand).symm.trans hname)
  · split
    · exact ensures_nameOperand h ho (by simp [beginsName, isIdentifier, *])
    · exact ensures_nameOperand h ho (by simp [beginsName, *])
    · exact (lays_parenthesised h).at_state ho
    · exact (lays_braceHash h).at_state ho
    · exact ensures_wordOperand h ho ‹_›
    · exact lays_missingExpression.at_state ho

omit h in
theorem prefixNode?_isOrdinary {kind : Token.Kind} {nodeKind : Node.Kind} {operator : String}
    (hoperator : prefixNode? kind = some (nodeKind, operator)) : nodeKind.isOrdinary = true := by
  rcases prefixNode?_cases hoperator with ⟨symbol, rfl, rfl⟩ | ⟨word, rfl, rfl⟩
  · rfl
  · rfl

theorem lays_prefixed : A.Lays nested prefixed ([·]) := by
  refine Lays.skip h fun s => ?_
  split
  · rename_i hoperator
    refine Lays.mark fun o => ?_
    refine Continues.skip h fun _ => ?_
    refine Continues.node (lays_call h _) fun inner => ?_
    exact Continues.close rfl rfl (prefixNode?_isOrdinary hoperator)
  · exact lays_operand h

theorem continues_memberSuffix (o : State) (object : Node) :
    A.Continues nested o [object] (memberSuffix o.mark object) ([·]) := by
  refine Continues.skip h fun _ => ?_
  refine Continues.skip h fun name => ?_
  exact Continues.close rfl rfl rfl

theorem continues_indexSuffix (o : State) (object : Node) :
    A.Continues nested o [object] (indexSuffix o.mark object) ([·]) := by
  refine Continues.skip h fun _ => ?_
  refine Continues.node (lays_call h _) fun index => ?_
  refine Continues.skip h fun _ => ?_
  exact Continues.close rfl rfl rfl

theorem continues_sliceSuffix (o : State) (object : Node) :
    A.Continues nested o [object] (sliceSuffix o.mark object) ([·]) := by
  refine Continues.skip h fun _ => ?_
  refine Continues.node (Lays.separated h (lays_call h _) _) fun items => ?_
  refine Continues.skip h fun _ => ?_
  exact Continues.close rfl rfl rfl

theorem continues_callSuffix (o : State) (function : Node) :
    A.Continues nested o [function] (callSuffix o.mark function) ([·]) := by
  refine Continues.node (lays_arguments h) fun values => ?_
  exact Continues.close rfl rfl rfl

theorem continues_operatorSuffix (o : State) (symbol : Symbol) (inner : Node) :
    A.Continues nested o [inner] (operatorSuffix o.mark symbol inner) ([·]) := by
  refine Continues.skip h fun _ => ?_
  exact Continues.close rfl rfl rfl

theorem continues_suffix {o : State} {inner : Node} {token : Token} {suffix : Parser Node}
    (hsuffix : suffix? o.mark inner token = some suffix) :
    A.Continues nested o [inner] suffix ([·]) := by
  rw [suffix?] at hsuffix
  split at hsuffix
  · exact Option.some.inj hsuffix ▸ continues_memberSuffix h o inner
  · exact Option.some.inj hsuffix ▸ continues_indexSuffix h o inner
  · split at hsuffix
    · cases hsuffix
    · exact Option.some.inj hsuffix ▸ continues_sliceSuffix h o inner
  · exact Option.some.inj hsuffix ▸ continues_callSuffix h o inner
  · exact Option.some.inj hsuffix ▸ continues_operatorSuffix h o _ inner
  · exact Option.some.inj hsuffix ▸ continues_operatorSuffix h o _ inner
  · cases hsuffix

theorem continues_rightOperand (o : State) (left : Node) (power : Nat) :
    A.Continues nested o [left] (rightOperand o.mark left power) ([·]) := by
  refine Continues.skip h fun token => ?_
  split
  · refine Continues.node (lays_call h _) fun middle => ?_
    refine Continues.skip h fun _ => ?_
    refine Continues.node (lays_call h _) fun right => ?_
    exact Continues.close rfl rfl rfl
  · refine Continues.node (lays_call h _) fun right => ?_
    refine Continues.close rfl rfl ?_
    split_ifs <;> rfl
  · refine Continues.node (lays_call h _) fun right => ?_
    exact Continues.close rfl rfl rfl

theorem continues_expressionStep (o : State) (power : Nat) (left : Node) :
    A.Continues nested o [left] (expressionStep o.mark power left) fun step => [step.value] := by
  refine Continues.skip h fun s => ?_
  dsimp only
  split
  · rename_i suffix hsuffix
    refine Ensures.bind (continues_suffix h hsuffix) fun node => ?_
    exact Continues.done rfl
  · split
    · exact Continues.done rfl
    · refine Ensures.ite (fun _ => Continues.done rfl) (fun _ => ?_)
      refine Ensures.bind (continues_rightOperand h o left _) fun node => ?_
      exact Continues.done rfl

theorem lays_expressionRule (power : Nat) : A.Lays nested (expressionRule power) ([·]) := by
  refine Lays.mark fun o => ?_
  refine Continues.node (lays_prefixed h) fun first => ?_
  exact Ensures.loop (I := fun node => A.Holds o [node]) (continues_expressionStep h o power) first

end QoreSyntax.Grammar.Account

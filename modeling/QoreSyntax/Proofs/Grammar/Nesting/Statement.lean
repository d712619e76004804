import QoreSyntax.Grammar.Statement
import QoreSyntax.Proofs.Grammar.Nesting

namespace QoreSyntax.Grammar

open Grammar.Parser (Yields)
open Node (nestings)

variable {nested : Goal → State → Node × State} {n k : Nat}
  (h : ∀ goal, Yields nested (.call goal .done) (·.nesting ≤ n))
include h

theorem nesting_expressionList : Yields nested expressionList (·.nesting ≤ n + 1) := by
  refine Yields.skip fun m => (h _).bind fun first hfirst => Yields.skip fun comma => ?_
  split_ifs
  · refine (h _).commaList.bind fun rest hrest => yields_close ?_
    exact Nat.max_le.mpr ⟨hfirst, hrest⟩
  · exact Yields.done (Nat.le_succ_of_le hfirst)

theorem nesting_hashEntry {m : Mark} {key : Node} (hkey : key.nesting ≤ n) :
    Yields nested (hashEntry m key) (·.nesting ≤ n + 1) := by
  refine Yields.skip fun _ => (h _).bind fun value hvalue => yields_close ?_
  simp only [Node.nestings_cons, Node.nestings_nil]
  omega

theorem nesting_keyAndValue : Yields nested keyAndValue (·.nesting ≤ n + 1) :=
  Yields.skip fun _ => (h _).bind fun _ hkey => nesting_hashEntry h hkey

theorem nesting_hashEntries {m first : Mark} {key : Node} (hkey : key.nesting ≤ n)
    (closing : Symbol) :
    Yields nested (hashEntries m first key closing) (·.nesting ≤ n + 2) := by
  refine (nesting_hashEntry h hkey).bind fun entry hentry => Yields.skip fun comma => ?_
  refine (((nesting_keyAndValue h).separated _).optionally _).bind fun rest hrest => ?_
  exact Yields.skip fun _ => yields_close (Nat.max_le.mpr ⟨hentry, hrest⟩)

theorem nesting_braceHash : Yields nested braceHash (·.nesting ≤ n + 2) := by
  refine Yields.skip fun m => Yields.skip fun _ => Yields.skip fun closed => ?_
  split_ifs
  · exact yields_close (Nat.zero_le _)
  · exact Yields.skip fun first => (h _).bind fun key hkey => nesting_hashEntries h hkey .rBrace

theorem nesting_parenthesised : Yields nested parenthesised (·.nesting ≤ n + 2) := by
  refine Yields.skip fun m => Yields.skip fun _ => Yields.skip fun closed => ?_
  split_ifs
  · exact yields_close (Nat.zero_le _)
  · refine Yields.skip fun start => (h _).bind fun first hfirst => Yields.skip fun s => ?_
    split_ifs
    · exact nesting_hashEntries h hfirst .rParen
    · refine Yields.skip fun _ => ((h _).separated _).bind fun rest hrest => ?_
      refine Yields.skip fun _ => yields_close ?_
      exact Nat.le_succ_of_le (Nat.max_le.mpr ⟨hfirst, hrest⟩)
    · refine Yields.skip fun _ => yields_close ?_
      exact Nat.le_succ_of_le (Nat.max_le.mpr ⟨hfirst, Nat.zero_le n⟩)

theorem nesting_listOperator (word : Keyword) :
    Yields nested (listOperator word) (·.nesting ≤ n + 1) :=
  Yields.skip fun _ => Yields.skip fun _ =>
    (h _).commaList.bind fun _ hoperands => yields_close hoperands

theorem nesting_thirdOperand (word : Keyword) :
    Yields nested (thirdOperand word) (nestings · ≤ n) := by
  rw [thirdOperand]
  split_ifs
  · exact Yields.skip fun comma => (h _).single.optionally comma
  · exact Yields.done (Nat.zero_le n)

theorem nesting_itemOperator (word : Keyword) :
    Yields nested (itemOperator word) (·.nesting ≤ n + 1) := by
  refine Yields.skip fun m => Yields.skip fun _ => (h _).bind fun first hfirst => ?_
  refine Yields.skip fun _ => (h _).bind fun second hsecond => ?_
  refine (nesting_thirdOperand h word).bind fun third hthird => yields_close ?_
  exact Nat.max_le.mpr ⟨hfirst, Nat.max_le.mpr ⟨hsecond, hthird⟩⟩

theorem nesting_newObject : Yields nested newObject (·.nesting ≤ n + 2) := by
  refine Yields.skip fun m => Yields.skip fun _ => (h _).bind fun node hnode => ?_
  refine Yields.skip fun s => ?_
  refine ((nesting_arguments h).single.optionally _).bind fun values hvalues => ?_
  exact yields_close (Nat.max_le.mpr ⟨Nat.le_succ_of_le hnode, hvalues⟩)

theorem nesting_castType : Yields nested castType (nestings · ≤ n) := by
  refine Yields.skip fun opened => ?_
  split_ifs
  · refine (h _).bind fun node hnode => Yields.skip fun _ => Yields.done ?_
    exact Nat.max_le.mpr ⟨hnode, Nat.zero_le n⟩
  · exact Yields.done (Nat.zero_le n)

theorem nesting_cast : Yields nested cast (·.nesting ≤ n + 1) := by
  refine Yields.skip fun m => Yields.skip fun _ => (nesting_castType h).bind fun types htypes => ?_
  refine Yields.skip fun _ => (h _).bind fun value hvalue => Yields.skip fun _ => yields_close ?_
  simp only [Node.nestings_append, Node.nestings_cons, Node.nestings_nil]
  omega

theorem nesting_closure : Yields nested closure (·.nesting ≤ n + 3) := by
  refine Yields.skip fun m => Yields.skip fun s => ?_
  refine ((h _).single.optionally _).bind fun types htypes => Yields.skip fun _ => ?_
  refine (nesting_parameters h).bind fun params hparams => ?_
  refine (nesting_resultType h).bind fun result hresult => ?_
  refine (nesting_block h).bind fun body hbody => yields_close ?_
  simp only [Node.nestings_append, Node.nestings_cons, Node.nestings_nil]
  omega

theorem nesting_wordOperand (word : Keyword) :
    Yields nested (wordOperand word) (·.nesting ≤ n + 3) := by
  have hmissing : Yields nested missingExpression (·.nesting ≤ n + 3) :=
    Yields.skip fun _ => yields_placeholder .missing (n + 2)
  have hitem : ∀ word, Yields nested (itemOperator word) (·.nesting ≤ n + 3) := fun word =>
    (nesting_itemOperator h word).upTo (by omega)
  have hlist : ∀ word, Yields nested (listOperator word) (·.nesting ≤ n + 3) := fun word =>
    (nesting_listOperator h word).upTo (by omega)
  refine Yields.skip fun s => ?_
  dsimp only
  split
  · exact (nesting_newObject h).upTo (Nat.le_succ _)
  · exact (nesting_cast h).upTo (by omega)
  · split_ifs
    · exact nesting_closure h
    · exact hmissing
  · exact hitem _
  · exact hitem _
  · exact hitem _
  · exact hitem _
  · exact hlist _
  · exact hlist _
  · exact hlist _
  · exact hlist _
  · split_ifs
    · exact Yields.skip fun m => Yields.skip fun _ => yields_close (Nat.zero_le _)
    · exact nesting_closure h
    · exact hmissing

theorem nesting_operand : Yields nested operand (·.nesting ≤ n + 3) := by
  refine Yields.skip fun s => ?_
  dsimp only
  split
  · exact Yields.skip fun m => Yields.skip fun _ => yields_close (Nat.zero_le _)
  · split
    · exact Yields.skip fun m => Yields.skip fun name => yields_close (Nat.zero_le _)
    · exact Yields.skip fun m => Yields.skip fun name => yields_close (Nat.zero_le _)
    · exact (nesting_parenthesised h).upTo (Nat.le_succ _)
    · exact (nesting_braceHash h).upTo (Nat.le_succ _)
    · exact nesting_wordOperand h _
    · exact Yields.skip fun _ => yields_placeholder .missing (n + 2)

theorem nesting_prefixed : Yields nested prefixed (·.nesting ≤ n + 3) := by
  refine Yields.skip fun s => ?_
  split
  · refine Yields.skip fun m => Yields.skip fun _ => (h _).bind fun inner hinner => yields_close ?_
    simp only [Node.nestings_cons, Node.nestings_nil]
    omega
  · exact nesting_operand h

section Operators

variable {m : Mark} {inner : Node} (hinner : inner.nesting ≤ n + 3)
include hinner

theorem nesting_suffix? {token : Token} {suffix : Parser Node}
    (hsuffix : suffix? m inner token = some suffix) :
    Yields nested suffix (·.nesting ≤ n + 3) := by
  rw [suffix?] at hsuffix
  split at hsuffix
  · rw [← Option.some.inj hsuffix]
    exact Yields.skip fun _ => Yields.skip fun name =>
      yields_close_of_goesOn rfl hinner (Nat.succ_pos _)
  · rw [← Option.some.inj hsuffix]
    refine Yields.skip fun _ => (h _).bind fun index hindex => Yields.skip fun _ => ?_
    refine yields_close_of_goesOn rfl hinner ?_
    simp only [Node.nestings_cons, Node.nestings_nil]
    omega
  · split at hsuffix
    · cases hsuffix
    · rw [← Option.some.inj hsuffix]
      refine Yields.skip fun _ => ((h _).separated _).bind fun items hitems => ?_
      exact Yields.skip fun _ => yields_close_of_goesOn rfl hinner (by omega)
  · rw [← Option.some.inj hsuffix]
    refine (nesting_arguments h).bind fun values hvalues => ?_
    refine yields_close_of_goesOn rfl hinner ?_
    simp only [Node.nestings_cons, Node.nestings_nil]
    omega
  · rw [← Option.some.inj hsuffix]
    exact Yields.skip fun _ => yields_close_of_goesOn rfl hinner (Nat.succ_pos _)
  · rw [← Option.some.inj hsuffix]
    exact Yields.skip fun _ => yields_close_of_goesOn rfl hinner (Nat.succ_pos _)
  · cases hsuffix

theorem nesting_rightOperand (power : Nat) :
    Yields nested (rightOperand m inner power) (·.nesting ≤ n + 3) := by
  refine Yields.skip fun token => ?_
  split
  · refine (h _).bind fun middle hmiddle => Yields.skip fun _ => ?_
    refine (h _).bind fun right hright => yields_close_of_goesOn rfl hinner ?_
    simp only [Node.nestings_cons, Node.nestings_nil]
    omega
  · refine (h _).bind fun right hright => yields_close_of_goesOn ?_ hinner ?_
    · split_ifs <;> rfl
    · simp only [Node.nestings_cons, Node.nestings_nil]
      omega
  · refine (h _).bind fun right hright => yields_close_of_goesOn rfl hinner ?_
    simp only [Node.nestings_cons, Node.nestings_nil]
    omega

theorem nesting_expressionStep (power : Nat) :
    Yields nested (expressionStep m power inner) (·.value.nesting ≤ n + 3) := by
  refine Yields.skip fun s => ?_
  dsimp only
  split
  · rename_i suffix hsuffix
    exact (nesting_suffix? h hinner hsuffix).bind fun node hnode => Yields.done hnode
  · split
    · exact Yields.done hinner
    · split_ifs
      · exact Yields.done hinner
      · exact (nesting_rightOperand h hinner _).bind fun node hnode => Yields.done hnode

end Operators

theorem nesting_expressionRule (power : Nat) :
    Yields nested (expressionRule power) (·.nesting ≤ n + 3) :=
  Yields.skip fun _ => (nesting_prefixed h).bind fun _ hfirst =>
    Yields.loop (fun _ hleft => nesting_expressionStep h hleft power) hfirst

theorem nesting_condition : Yields nested condition (·.nesting ≤ n) :=
  Yields.skip fun _ => (h _).bind fun _ hnode => Yields.skip fun _ => Yields.done hnode

theorem nesting_ifStatement : Yields nested ifStatement (·.nesting ≤ n + 1) := by
  refine Yields.skip fun m => Yields.skip fun _ => (nesting_condition h).bind fun test htest => ?_
  refine (h _).bind fun branch hbranch => Yields.skip fun found => ?_
  refine ((h _).single.optionally _).bind fun alternative halternative => yields_close ?_
  exact Nat.max_le.mpr ⟨htest, Nat.max_le.mpr ⟨hbranch, halternative⟩⟩

theorem nesting_whileStatement : Yields nested whileStatement (·.nesting ≤ n + 1) := by
  refine Yields.skip fun m => Yields.skip fun _ => (nesting_condition h).bind fun test htest => ?_
  refine (h _).bind fun code hcode => yields_close ?_
  simp only [Node.nestings_cons, Node.nestings_nil]
  omega

theorem nesting_doStatement : Yields nested doStatement (·.nesting ≤ n + 1) := by
  refine Yields.skip fun m => Yields.skip fun _ => (h _).bind fun code hcode => ?_
  refine Yields.skip fun _ => (nesting_condition h).bind fun test htest => ?_
  refine Yields.skip fun _ => yields_close ?_
  simp only [Node.nestings_cons, Node.nestings_nil]
  omega

theorem nesting_variableOrExpression :
    Yields nested variableOrExpression (·.nesting ≤ n + 2) := by
  refine Yields.skip fun s => ?_
  split_ifs
  · exact nesting_variableDeclaration h false
  · exact (h _).upTo (by omega)

omit h in
theorem nesting_forClause {clause : Parser Node}
    (hclause : Yields nested clause (·.nesting ≤ k + 1)) (closing : Symbol) :
    Yields nested (forClause closing clause) (·.nesting ≤ k + 1) := by
  refine Yields.bind (P := (·.nesting ≤ k + 1)) (Yields.skip fun s => ?_)
    fun node hnode => Yields.skip fun _ => Yields.done hnode
  split_ifs
  · exact yields_placeholder .empty k
  · exact hclause

theorem nesting_forStatement : Yields nested forStatement (·.nesting ≤ n + 3) := by
  have hexpression : Yields nested expression (·.nesting ≤ n + 1 + 1) :=
    (h _).upTo (by omega)
  refine Yields.skip fun m => Yields.skip fun _ => Yields.skip fun _ => ?_
  refine (nesting_forClause (nesting_variableOrExpression h) _).bind fun start hstart => ?_
  refine (nesting_forClause hexpression _).bind fun test htest => ?_
  refine (nesting_forClause hexpression _).bind fun step hstep => ?_
  refine (h _).bind fun code hcode => yields_close ?_
  simp only [Node.nestings_cons, Node.nestings_nil]
  omega

theorem nesting_foreachStatement : Yields nested foreachStatement (·.nesting ≤ n + 3) := by
  refine Yields.skip fun m => Yields.skip fun _ => ?_
  refine (nesting_variableOrExpression h).bind fun item hitem => Yields.skip fun _ => ?_
  refine (nesting_condition h).bind fun items hitems => (h _).bind fun code hcode => ?_
  refine yields_close ?_
  simp only [Node.nestings_cons, Node.nestings_nil]
  omega

theorem nesting_caseArm : Yields nested caseArm (·.nesting ≤ n + 1) := by
  refine Yields.skip fun m => Yields.skip fun _ => Yields.skip fun payload => ?_
  refine (h _).bind fun value hvalue => Yields.skip fun _ => ?_
  refine ((h _).sequence _).bind fun code hcode => yields_close ?_
  exact Nat.max_le.mpr ⟨hvalue, hcode⟩

theorem nesting_defaultArm : Yields nested defaultArm (·.nesting ≤ n + 1) :=
  Yields.skip fun _ => Yields.skip fun _ => Yields.skip fun _ =>
    ((h _).sequence _).bind fun _ hcode => yields_close hcode

theorem nesting_switchArms : Yields nested switchArms (nestings · ≤ n + 1) := by
  refine Yields.skip fun opened => ?_
  split_ifs
  · refine Yields.bind (P := (nestings · ≤ n + 1))
      (Yields.loop (fun arms harms => ?_) (Nat.zero_le _))
      fun arms harms => Yields.skip fun _ => Yields.done (by rwa [Node.nestings_reverse])
    refine Yields.skip fun s => ?_
    split_ifs
    · exact Yields.done harms
    · exact (nesting_caseArm h).bind fun arm harm => Yields.done (Nat.max_le.mpr ⟨harm, harms⟩)
    · exact (nesting_defaultArm h).bind fun arm harm => Yields.done (Nat.max_le.mpr ⟨harm, harms⟩)
    · exact Yields.skip fun _ => Yields.done harms
  · exact Yields.done (Nat.zero_le _)

theorem nesting_switchStatement : Yields nested switchStatement (·.nesting ≤ n + 2) := by
  refine Yields.skip fun m => Yields.skip fun _ => (nesting_condition h).bind fun value hvalue => ?_
  refine (nesting_switchArms h).bind fun arms harms => yields_close ?_
  exact Nat.max_le.mpr ⟨Nat.le_succ_of_le hvalue, harms⟩

theorem nesting_catchClause : Yields nested catchClause (·.nesting ≤ n + 2) := by
  refine Yields.skip fun s => ?_
  split_ifs
  · refine Yields.skip fun m => Yields.skip fun _ => Yields.skip fun _ => Yields.skip fun s => ?_
    refine ((nesting_parameter h).single.optionally _).bind fun params hparams => ?_
    refine Yields.skip fun _ => (nesting_block h).bind fun code hcode => yields_close ?_
    simp only [Node.nestings_append, Node.nestings_cons, Node.nestings_nil]
    omega
  · exact Yields.skip fun _ => yields_placeholder .missing (n + 1)

theorem nesting_tryStatement : Yields nested tryStatement (·.nesting ≤ n + 3) := by
  refine Yields.skip fun m => Yields.skip fun _ => (nesting_block h).bind fun code hcode => ?_
  refine (nesting_catchClause h).bind fun handler hhandler => yields_close ?_
  simp only [Node.nestings_cons, Node.nestings_nil]
  omega

theorem nesting_jumpStatement (kind : Node.Kind) (isRequired : Bool) :
    Yields nested (jumpStatement kind isRequired) (·.nesting ≤ n + 2) := by
  refine Yields.skip fun m => Yields.skip fun _ => Yields.skip fun s => ?_
  refine ((nesting_expressionList h).single.optionally _).bind fun values hvalues => ?_
  exact Yields.skip fun _ => yields_close hvalues

theorem nesting_guardStatement (kind : Node.Kind) :
    Yields nested (guardStatement kind) (·.nesting ≤ n + 1) := by
  refine Yields.skip fun m => Yields.skip fun _ => (h _).bind fun code hcode => yields_close ?_
  exact Nat.max_le.mpr ⟨hcode, Nat.zero_le n⟩

theorem nesting_openStatement : Yields nested openStatement (·.nesting ≤ n + 4) := by
  refine Yields.skip fun s => ?_
  split_ifs
  · exact nesting_declaration h
  · exact (nesting_variableDeclaration h true).upTo (by omega)
  · refine Yields.skip fun m => (h _).bind fun node hnode => Yields.skip fun _ => yields_close ?_
    simp only [Node.nestings_cons, Node.nestings_nil]
    omega

theorem nesting_wordStatement (word : Keyword) :
    Yields nested (wordStatement word) (·.nesting ≤ n + 4) := by
  have hbare : ∀ kind, Yields nested (bareStatement kind) (·.nesting ≤ n + 4) := fun kind =>
    Yields.skip fun m => Yields.skip fun _ => Yields.skip fun _ => yields_close (Nat.zero_le _)
  have hjump : ∀ kind isRequired,
      Yields nested (jumpStatement kind isRequired) (·.nesting ≤ n + 4) := fun kind isRequired =>
    (nesting_jumpStatement h kind isRequired).upTo (by omega)
  have hguard : ∀ kind, Yields nested (guardStatement kind) (·.nesting ≤ n + 4) := fun kind =>
    (nesting_guardStatement h kind).upTo (by omega)
  have hvariable : Yields nested (variableDeclaration true) (·.nesting ≤ n + 4) :=
    (nesting_variableDeclaration h true).upTo (by omega)
  rw [wordStatement.eq_def]
  split
  · exact (nesting_ifStatement h).upTo (by omega)
  · exact (nesting_whileStatement h).upTo (by omega)
  · exact (nesting_doStatement h).upTo (by omega)
  · exact (nesting_forStatement h).upTo (by omega)
  · exact (nesting_foreachStatement h).upTo (by omega)
  · exact (nesting_switchStatement h).upTo (by omega)
  · exact (nesting_tryStatement h).upTo (by omega)
  · exact hjump _ _
  · exact hjump _ _
  · exact hjump _ _
  · exact hbare _
  · exact hbare _
  · exact hbare _
  · exact hguard _
  · exact hguard _
  · exact hguard _
  · exact hvariable
  · exact hvariable
  · exact nesting_openStatement h

theorem nesting_statementRule : Yields nested statementRule (·.nesting ≤ n + 4) := by
  refine Yields.skip fun s => ?_
  split
  · exact (nesting_block h).upTo (by omega)
  · exact Yields.skip fun m => Yields.skip fun _ => yields_close (Nat.zero_le _)
  · exact Yields.skip fun m => Yields.skip fun _ => yields_close (Nat.zero_le _)
  · exact nesting_wordStatement h _
  · exact nesting_openStatement h

end QoreSyntax.Grammar

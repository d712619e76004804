import QoreSyntax.Grammar.Statement
import QoreSyntax.Proofs.Grammar.Schema

namespace QoreSyntax.Grammar.Schema

open Node (Kind)
open Grammar.Parser (Yields)

variable {nested : Goal → State → Node × State} (h : Sound nested)
include h

theorem expressionList_isRegular : Yields nested expressionList (·.IsRegular) := by
  refine Yields.skip fun m => (h.call _).bind fun first hfirst => Yields.skip fun comma => ?_
  refine Yields.ite ?_ (Yields.done hfirst)
  refine (h.call _).each_commaList.bind fun rest hrest => ?_
  exact close_isRegular (List.forall_mem_cons.mpr ⟨hfirst, hrest⟩) rfl

theorem hashEntry_isOf {m : Mark} {key : Node} (hkey : key.IsRegular) :
    Yields nested (hashEntry m key) (·.IsOf (· == .hashEntry)) := by
  refine Yields.skip fun _ => (h.call _).bind fun value hvalue => ?_
  exact close_isOf (by simp [hkey, hvalue]) rfl rfl

theorem keyAndValue_isOf : Yields nested keyAndValue (·.IsOf (· == .hashEntry)) :=
  Yields.skip fun _ => (h.call _).bind fun _ hkey => hashEntry_isOf h hkey

theorem hashEntries_isRegular {m first : Mark} {key : Node} (hkey : key.IsRegular)
    (closing : Symbol) : Yields nested (hashEntries m first key closing) (·.IsRegular) := by
  refine (hashEntry_isOf h hkey).bind fun entry hentry => Yields.skip fun comma => ?_
  refine (((keyAndValue_isOf h).each_separated _).each_optionally _).bind fun rest hrest => ?_
  have hentries := List.forall_mem_cons.mpr ⟨hentry, hrest⟩
  refine Yields.skip fun _ => ?_
  exact close_isRegular (Node.isRegular_of_isOf hentries) (Node.all_kinds hentries)

theorem braceHash_isRegular : Yields nested braceHash (·.IsRegular) := by
  refine Yields.skip fun m => Yields.skip fun _ => Yields.skip fun closed => Yields.ite ?_ ?_
  · exact close_isRegular (List.forall_mem_nil _) rfl
  · exact Yields.skip fun first => (h.call _).bind fun key hkey =>
      hashEntries_isRegular h hkey .rBrace

theorem parenthesised_isRegular : Yields nested parenthesised (·.IsRegular) := by
  refine Yields.skip fun m => Yields.skip fun _ => Yields.skip fun closed => Yields.ite ?_ ?_
  · exact close_isRegular (List.forall_mem_nil _) rfl
  · refine Yields.skip fun start => (h.call _).bind fun first hfirst => Yields.skip fun s => ?_
    refine Yields.ite (hashEntries_isRegular h hfirst .rParen) (Yields.ite ?_ ?_)
    · refine Yields.skip fun _ => ((h.call _).each_separated _).bind fun rest hrest => ?_
      exact Yields.skip fun _ => close_isRegular (List.forall_mem_cons.mpr ⟨hfirst, hrest⟩) rfl
    · exact Yields.skip fun _ => close_isRegular (List.forall_mem_singleton.mpr hfirst) rfl

theorem listOperator_isRegular (word : Keyword) :
    Yields nested (listOperator word) (·.IsRegular) :=
  Yields.skip fun _ => Yields.skip fun _ =>
    (h.call _).each_commaList.bind fun _ hoperands => close_isRegular hoperands rfl

/-- Only `map` may have a third operand. -/
theorem thirdOperand_cases (word : Keyword) :
    Yields nested (thirdOperand word) fun nodes =>
      nodes = [] ∨ word = .map ∧ ∃ node, node.IsRegular ∧ nodes = [node] := by
  rw [thirdOperand]
  split_ifs with hmap
  · refine Yields.skip fun comma => ((h.call _).optional_of comma).weaken fun nodes hnodes => ?_
    exact hnodes.imp_right fun hsome => ⟨eq_of_beq hmap, hsome⟩
  · exact Yields.done (Or.inl rfl)

omit h in
theorem itemOperatorNode_admits (word : Keyword) (first second : Kind) :
    (itemOperatorNode word).1.admits [first, second] = true := by
  rw [itemOperatorNode.eq_def]
  split <;> rfl

theorem itemOperator_isRegular (word : Keyword) :
    Yields nested (itemOperator word) (·.IsRegular) := by
  refine Yields.skip fun m => Yields.skip fun _ => (h.call _).bind fun first hfirst => ?_
  refine Yields.skip fun _ => (h.call _).bind fun second hsecond => ?_
  refine (thirdOperand_cases h word).bind fun third hthird => ?_
  rcases hthird with rfl | ⟨rfl, node, hnode, rfl⟩
  · exact close_isRegular (by simp [hfirst, hsecond]) (itemOperatorNode_admits word _ _)
  · exact close_isRegular (by simp [hfirst, hsecond, hnode]) rfl

theorem newObject_isRegular : Yields nested newObject (·.IsRegular) := by
  refine Yields.skip fun m => Yields.skip fun _ => (h.call _).bind fun node hnode => ?_
  have harguments := (arguments_isOf h).regular
  refine Yields.skip fun s => (harguments.optional_of _).bind fun values hvalues => ?_
  rcases hvalues with rfl | ⟨value, hvalue, rfl⟩
  · exact close_isRegular (by simp [hnode]) rfl
  · exact close_isRegular (by simp [hnode, hvalue]) rfl

theorem castType_cases : Yields nested castType fun nodes =>
    nodes = [] ∨ ∃ node, node.IsRegular ∧ nodes = [node] := by
  refine Yields.skip fun opened => Yields.ite ?_ (Yields.done (Or.inl rfl))
  refine (h.call _).bind fun node hnode => Yields.skip fun _ => ?_
  exact Yields.done (Or.inr ⟨node, hnode, rfl⟩)

theorem cast_isRegular : Yields nested cast (·.IsRegular) := by
  refine Yields.skip fun m => Yields.skip fun _ => (castType_cases h).bind fun types htypes => ?_
  refine Yields.skip fun _ => (h.call _).bind fun value hvalue => Yields.skip fun _ => ?_
  rcases htypes with rfl | ⟨node, hnode, rfl⟩
  · exact close_isRegular (by simp [hvalue]) rfl
  · exact close_isRegular (by simp [hnode, hvalue]) rfl

theorem closure_isRegular : Yields nested closure (·.IsRegular) := by
  refine Yields.skip fun m => Yields.skip fun s => ?_
  refine ((h.call _).each_single.each_optionally _).bind fun types htypes => Yields.skip fun _ => ?_
  refine (parameters_isRegular h).bind fun params hparams => ?_
  refine (resultType_isRegular h).bind fun result hresult => ?_
  refine (block_isRegular h).bind fun body hbody => close_isRegular ?_ rfl
  simpa [or_imp, forall_and] using ⟨htypes, hparams, hresult, hbody⟩

omit h in
theorem missingExpression_isRegular : Yields nested missingExpression (·.IsRegular) :=
  Yields.skip fun _ => missing_isRegular

theorem wordOperand_isRegular (word : Keyword) :
    Yields nested (wordOperand word) (·.IsRegular) := by
  refine Yields.skip fun s => ?_
  dsimp only
  split
  · exact newObject_isRegular h
  · exact cast_isRegular h
  · exact Yields.ite (closure_isRegular h) missingExpression_isRegular
  · exact itemOperator_isRegular h _
  · exact itemOperator_isRegular h _
  · exact itemOperator_isRegular h _
  · exact itemOperator_isRegular h _
  · exact listOperator_isRegular h _
  · exact listOperator_isRegular h _
  · exact listOperator_isRegular h _
  · exact listOperator_isRegular h _
  · refine Yields.ite ?_ (Yields.ite (closure_isRegular h) missingExpression_isRegular)
    exact Yields.skip fun m => Yields.skip fun _ => close_isRegular (List.forall_mem_nil _) rfl

omit h in
theorem simpleOperand?_admits {kind : Token.Kind} {nodeKind : Kind} {payload : Payload}
    (hoperand : simpleOperand? kind = some (nodeKind, payload)) : nodeKind.admits [] = true := by
  cases kind with
  | keyword word => cases word <;> cases hoperand <;> rfl
  | _ => cases hoperand <;> rfl

theorem operand_isRegular : Yields nested operand (·.IsRegular) := by
  have hname : Yields nested nameOperand (·.IsRegular) :=
    Yields.skip fun _ => Yields.skip fun _ => close_isRegular (List.forall_mem_nil _) rfl
  refine Yields.skip fun s => ?_
  dsimp only
  split
  · rename_i nodeKind payload hoperand
    exact Yields.skip fun m => Yields.skip fun _ =>
      close_isRegular (List.forall_mem_nil _) (simpleOperand?_admits hoperand)
  · split
    · exact hname
    · exact hname
    · exact parenthesised_isRegular h
    · exact braceHash_isRegular h
    · exact wordOperand_isRegular h _
    · exact missingExpression_isRegular

omit h in
theorem prefixNode?_admits {kind : Token.Kind} {nodeKind : Kind} {operator : String}
    (hoperator : prefixNode? kind = some (nodeKind, operator)) (inner : Kind) :
    nodeKind.admits [inner] = true := by
  rcases prefixNode?_cases hoperator with ⟨symbol, rfl, rfl⟩ | ⟨word, rfl, rfl⟩
  · rfl
  · rfl

theorem prefixed_isRegular : Yields nested prefixed (·.IsRegular) := by
  refine Yields.skip fun s => ?_
  split
  · rename_i hoperator
    refine Yields.skip fun m => Yields.skip fun _ => (h.call _).bind fun inner hinner => ?_
    exact close_isRegular (List.forall_mem_singleton.mpr hinner) (prefixNode?_admits hoperator _)
  · exact operand_isRegular h

section Operators

variable {m : Mark} {inner : Node} (hinner : inner.IsRegular)
include hinner

theorem suffix?_isRegular {token : Token} {suffix : Parser Node}
    (hsuffix : suffix? m inner token = some suffix) : Yields nested suffix (·.IsRegular) := by
  rw [suffix?] at hsuffix
  split at hsuffix
  · rw [← Option.some.inj hsuffix]
    exact Yields.skip fun _ => Yields.skip fun name =>
      close_isRegular (List.forall_mem_singleton.mpr hinner) rfl
  · rw [← Option.some.inj hsuffix]
    refine Yields.skip fun _ => (h.call _).bind fun index hindex => Yields.skip fun _ => ?_
    exact close_isRegular (by simp [hinner, hindex]) rfl
  · split at hsuffix
    · cases hsuffix
    · rw [← Option.some.inj hsuffix]
      refine Yields.skip fun _ => ((h.call _).each_separated _).bind fun items hitems => ?_
      exact Yields.skip fun _ => close_isRegular (List.forall_mem_cons.mpr ⟨hinner, hitems⟩) rfl
  · rw [← Option.some.inj hsuffix]
    refine (arguments_isOf h).bind fun values hvalues => close_isRegular ?_ ?_
    · simp [hinner, hvalues.1]
    · rw [List.map_cons, List.map_singleton, eq_of_beq hvalues.2]
      rfl
  · rw [← Option.some.inj hsuffix]
    exact Yields.skip fun _ => close_isRegular (List.forall_mem_singleton.mpr hinner) rfl
  · rw [← Option.some.inj hsuffix]
    exact Yields.skip fun _ => close_isRegular (List.forall_mem_singleton.mpr hinner) rfl
  · cases hsuffix

theorem rightOperand_isRegular (power : Nat) :
    Yields nested (rightOperand m inner power) (·.IsRegular) := by
  refine Yields.skip fun token => ?_
  split
  · refine (h.call _).bind fun middle hmiddle => Yields.skip fun _ => ?_
    refine (h.call _).bind fun right hright => ?_
    exact close_isRegular (by simp [hinner, hmiddle, hright]) rfl
  · refine (h.call _).bind fun right hright => close_isRegular (by simp [hinner, hright]) ?_
    split_ifs <;> rfl
  · refine (h.call _).bind fun right hright => ?_
    exact close_isRegular (by simp [hinner, hright]) rfl

theorem expressionStep_isRegular (power : Nat) :
    Yields nested (expressionStep m power inner) (·.value.IsRegular) := by
  refine Yields.skip fun s => ?_
  dsimp only
  split
  · rename_i suffix hsuffix
    exact (suffix?_isRegular h hinner hsuffix).bind fun node hnode => Yields.done hnode
  · split
    · exact Yields.done hinner
    · refine Yields.ite (Yields.done hinner) ?_
      exact (rightOperand_isRegular h hinner _).bind fun node hnode => Yields.done hnode

end Operators

theorem expressionRule_isRegular (power : Nat) :
    Yields nested (expressionRule power) (·.IsRegular) :=
  Yields.skip fun _ => (prefixed_isRegular h).bind fun _ hfirst =>
    Yields.loop (fun _ hleft => expressionStep_isRegular h hleft power) hfirst

theorem condition_isRegular : Yields nested condition (·.IsRegular) :=
  Yields.skip fun _ => (h.call _).bind fun _ hnode => Yields.skip fun _ => Yields.done hnode

theorem ifStatement_isRegular : Yields nested ifStatement (·.IsRegular) := by
  refine Yields.skip fun m => Yields.skip fun _ => (condition_isRegular h).bind fun test htest => ?_
  refine (h.call _).bind fun branch hbranch => Yields.skip fun found => ?_
  refine ((h.call _).optional_of found).bind fun alternative halternative => ?_
  rcases halternative with rfl | ⟨node, hnode, rfl⟩
  · exact close_isRegular (by simp [htest, hbranch]) rfl
  · exact close_isRegular (by simp [htest, hbranch, hnode]) rfl

theorem whileStatement_isRegular : Yields nested whileStatement (·.IsRegular) := by
  refine Yields.skip fun m => Yields.skip fun _ => (condition_isRegular h).bind fun test htest => ?_
  exact (h.call _).bind fun code hcode => close_isRegular (by simp [htest, hcode]) rfl

theorem doStatement_isRegular : Yields nested doStatement (·.IsRegular) := by
  refine Yields.skip fun m => Yields.skip fun _ => (h.call _).bind fun code hcode => ?_
  refine Yields.skip fun _ => (condition_isRegular h).bind fun test htest => ?_
  exact Yields.skip fun _ => close_isRegular (by simp [htest, hcode]) rfl

theorem variableOrExpression_isRegular : Yields nested variableOrExpression (·.IsRegular) :=
  Yields.skip fun _ => Yields.ite (variableDeclaration_isRegular h false) (h.call _)

omit h in
theorem forClause_isRegular {clause : Parser Node} (hclause : Yields nested clause (·.IsRegular))
    (closing : Symbol) : Yields nested (forClause closing clause) (·.IsRegular) := by
  have hoptional : Yields nested (optionalClause closing clause) (·.IsRegular) :=
    Yields.skip fun _ => Yields.ite (placeholder_isRegular rfl) hclause
  exact hoptional.bind fun node hnode => Yields.skip fun _ => Yields.done hnode

theorem forStatement_isRegular : Yields nested forStatement (·.IsRegular) := by
  have hstart := forClause_isRegular (variableOrExpression_isRegular h) .semicolon
  have htest := forClause_isRegular (h.call (.expression 0)) .semicolon
  have hstep := forClause_isRegular (h.call (.expression 0)) .rParen
  refine Yields.skip fun m => Yields.skip fun _ => Yields.skip fun _ => ?_
  refine hstart.bind fun start hstart => htest.bind fun test htest => ?_
  refine hstep.bind fun step hstep => (h.call _).bind fun code hcode => ?_
  exact close_isRegular (by simp [hstart, htest, hstep, hcode]) rfl

theorem foreachStatement_isRegular : Yields nested foreachStatement (·.IsRegular) := by
  refine Yields.skip fun m => Yields.skip fun _ => ?_
  refine (variableOrExpression_isRegular h).bind fun item hitem => Yields.skip fun _ => ?_
  refine (condition_isRegular h).bind fun items hitems => (h.call _).bind fun code hcode => ?_
  exact close_isRegular (by simp [hitem, hitems, hcode]) rfl

theorem caseArm_isOf : Yields nested caseArm (·.IsOf Kind.isArm) := by
  refine Yields.skip fun m => Yields.skip fun _ => Yields.skip fun payload => ?_
  refine (h.call _).bind fun value hvalue => Yields.skip fun _ => ?_
  refine ((h.call _).each_sequence _).bind fun code hcode => ?_
  exact close_isOf (List.forall_mem_cons.mpr ⟨hvalue, hcode⟩) rfl rfl

theorem defaultArm_isOf : Yields nested defaultArm (·.IsOf Kind.isArm) :=
  Yields.skip fun _ => Yields.skip fun _ => Yields.skip fun _ =>
    ((h.call _).each_sequence _).bind fun _ hcode => close_isOf hcode rfl rfl

theorem switchArms_isOf :
    Yields nested switchArms fun nodes => ∀ node ∈ nodes, node.IsOf Kind.isArm := by
  refine Yields.skip fun opened => Yields.ite ?_ (Yields.done nofun)
  refine Yields.bind (P := fun arms => ∀ arm ∈ arms, arm.IsOf Kind.isArm)
    (Yields.loop (fun arms harms => ?_) nofun)
    fun arms harms => Yields.skip fun _ => Yields.done fun arm hmem =>
      harms arm (List.mem_reverse.mp hmem)
  refine Yields.skip fun s => Yields.ite (Yields.done harms) (Yields.ite ?_ (Yields.ite ?_ ?_))
  · exact (caseArm_isOf h).bind fun arm harm =>
      Yields.done (List.forall_mem_cons.mpr ⟨harm, harms⟩)
  · exact (defaultArm_isOf h).bind fun arm harm =>
      Yields.done (List.forall_mem_cons.mpr ⟨harm, harms⟩)
  · exact Yields.skip fun _ => Yields.done harms

theorem switchStatement_isRegular : Yields nested switchStatement (·.IsRegular) := by
  refine Yields.skip fun m => Yields.skip fun _ => ?_
  refine (condition_isRegular h).bind fun value hvalue => ?_
  refine (switchArms_isOf h).bind fun arms harms => ?_
  have hchildren := List.forall_mem_cons.mpr ⟨hvalue, Node.isRegular_of_isOf harms⟩
  exact close_isRegular hchildren (Node.all_kinds harms)

theorem catchClause_isOf : Yields nested catchClause (·.IsOf Kind.isHandlerPlace) := by
  refine Yields.skip fun s => Yields.ite ?_ (Yields.skip fun _ => placeholder_isOf rfl rfl)
  refine Yields.skip fun m => Yields.skip fun _ => Yields.skip fun _ => Yields.skip fun s => ?_
  have hparam := (parameter_isOf h).regular.each_single
  refine (hparam.each_optionally _).bind fun params hparams => Yields.skip fun _ => ?_
  refine (block_isRegular h).bind fun code hcode => close_isOf ?_ rfl rfl
  exact List.forall_mem_append.mpr ⟨hparams, List.forall_mem_singleton.mpr hcode⟩

theorem tryStatement_isRegular : Yields nested tryStatement (·.IsRegular) := by
  refine Yields.skip fun m => Yields.skip fun _ => (block_isRegular h).bind fun code hcode => ?_
  refine (catchClause_isOf h).bind fun handler hhandler => ?_
  refine close_isRegular (by simp [hcode, hhandler.1]) ?_
  exact hhandler.2

/-- How many values there may be is left open. -/
theorem jumpStatement_isRegular {kind : Kind} (hkind : ∀ children, kind.admits children = true)
    (isRequired : Bool) : Yields nested (jumpStatement kind isRequired) (·.IsRegular) := by
  refine Yields.skip fun m => Yields.skip fun _ => Yields.skip fun s => ?_
  have hvalues := (expressionList_isRegular h).each_single
  refine (hvalues.each_optionally _).bind fun values hvalues => Yields.skip fun _ => ?_
  exact close_isRegular hvalues (hkind _)

omit h in
theorem bareStatement_isRegular {kind : Kind} (hkind : kind.admits [] = true) :
    Yields nested (bareStatement kind) (·.IsRegular) :=
  Yields.skip fun _ => Yields.skip fun _ => Yields.skip fun _ =>
    close_isRegular (List.forall_mem_nil _) hkind

theorem guardStatement_isRegular {kind : Kind} (hkind : ∀ child, kind.admits [child] = true) :
    Yields nested (guardStatement kind) (·.IsRegular) :=
  Yields.skip fun _ => Yields.skip fun _ => (h.call _).bind fun _ hcode =>
    close_isRegular (List.forall_mem_singleton.mpr hcode) (hkind _)

theorem openStatement_isRegular : Yields nested openStatement (·.IsRegular) := by
  refine Yields.skip fun s => Yields.ite (declaration_isRegular h) ?_
  refine Yields.ite (variableDeclaration_isRegular h true) ?_
  refine Yields.skip fun m => (h.call _).bind fun node hnode => Yields.skip fun _ => ?_
  exact close_isRegular (List.forall_mem_singleton.mpr hnode) rfl

theorem wordStatement_isRegular (word : Keyword) :
    Yields nested (wordStatement word) (·.IsRegular) := by
  rw [wordStatement.eq_def]
  split
  · exact ifStatement_isRegular h
  · exact whileStatement_isRegular h
  · exact doStatement_isRegular h
  · exact forStatement_isRegular h
  · exact foreachStatement_isRegular h
  · exact switchStatement_isRegular h
  · exact tryStatement_isRegular h
  · exact jumpStatement_isRegular h (fun _ => rfl) _
  · exact jumpStatement_isRegular h (fun _ => rfl) _
  · exact jumpStatement_isRegular h (fun _ => rfl) _
  · exact bareStatement_isRegular rfl
  · exact bareStatement_isRegular rfl
  · exact bareStatement_isRegular rfl
  · exact guardStatement_isRegular h fun _ => rfl
  · exact guardStatement_isRegular h fun _ => rfl
  · exact guardStatement_isRegular h fun _ => rfl
  · exact variableDeclaration_isRegular h true
  · exact variableDeclaration_isRegular h true
  · exact openStatement_isRegular h

theorem statementRule_isRegular : Yields nested statementRule (·.IsRegular) := by
  refine Yields.skip fun s => ?_
  split
  · exact block_isRegular h
  · exact Yields.skip fun m => Yields.skip fun _ => close_isRegular (List.forall_mem_nil _) rfl
  · exact Yields.skip fun m => Yields.skip fun _ => close_isRegular (List.forall_mem_nil _) rfl
  · exact wordStatement_isRegular h _
  · exact openStatement_isRegular h

end QoreSyntax.Grammar.Schema

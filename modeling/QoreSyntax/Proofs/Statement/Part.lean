import QoreSyntax.Proofs.Statement.Tree

namespace QoreSyntax

open Grammar
open Grammar.Parser (Reads ReadsUpTo)
open Token (Kind)

variable {nested : Goal → State → Node × State} {depth bound : Nat} {rest : List Kind}

/-- A name before the token is not the type of what follows. -/
structure EndsName (kind : Kind) : Prop where
  endsType : TypeName.endsType kind = true
  isVariableName_eq : isVariableName kind = false

/-- Before the token a variable ends, with its value if it has one. -/
structure EndsVariable (kind : Kind) : Prop where
  endsExpression : kind.endsExpression = true
  isVariableName_eq : isVariableName kind = false

theorem EndsVariable.ne_assign {kind : Kind} (h : EndsVariable kind) : kind ≠ .symbol .assign :=
  Token.ne_of_holds h.endsExpression rfl

/-- Behind the name of a variable stands its value or what ends the variable. -/
theorem EndsVariable.endsName (h : EndsVariable (rest.headD .eof)) (value : Option Term) :
    EndsName ((Term.valueKinds value ++ rest).headD .eof) := by
  cases value with
  | none =>
      have hscope : rest.headD .eof ≠ .symbol .doubleColon := Token.ne_of_holds h.endsExpression rfl
      have hangle : rest.headD .eof ≠ .symbol .lt := Token.ne_of_holds h.endsExpression rfl
      refine ⟨?_, h.isVariableName_eq⟩
      exact Bool.and_eq_true_iff.mpr ⟨bne_iff_ne.mpr hscope, bne_iff_ne.mpr hangle⟩
  | some value => exact ⟨rfl, rfl⟩

theorem EndsName.isTypeBefore_eq {o : State} {x : Identifier} {follows : Kind → Bool}
    (h : EndsName (rest.headD .eof)) (ho : o.Clear (x.kind :: rest) depth)
    (heof : follows .eof = false) : o.isTypeBefore follows = follows (rest.headD .eof) :=
  ho.isTypeBefore_eq (.ofName x) h.endsType heof

/-- The type before the name of a variable is read, if there is one. -/
theorem reads_variableType (h : Parts nested depth bound) (T : Option TypeName) (x : Identifier)
    (hlength : (TypeName.optionalKinds T).length ≤ bound) (hends : EndsName (rest.headD .eof)) :
    Reads nested depth (TypeName.optionalKinds T ++ x.kind :: rest) variableType
      (fun nodes => Node.shapes nodes = TypeName.optionalShapes T) (x.kind :: rest) := by
  refine Reads.look fun o ho => ?_
  have htyped : o.isTypedVariable = T.isSome := by
    cases T with
    | none => exact (hends.isTypeBefore_eq ho rfl).trans hends.isVariableName_eq
    | some T => exact ho.isTypeBefore_eq T rfl rfl
  rw [htyped]
  exact TypeName.reads_optional h T hlength rfl

namespace Variable

/-- The tokens of a variable without the word that declares it. -/
def nameKinds (v : Variable) : List Kind :=
  v.name.kind :: Term.valueKinds v.value

theorem kinds_of_new {v : Variable} (h : v.isNew = true) :
    v.kinds = .keyword .my :: v.nameKinds := by
  rw [kinds, if_pos h]
  rfl

theorem kinds_of_not_new {v : Variable} (h : v.isNew = false) : v.kinds = v.term.kinds := by
  rw [kinds, h, if_neg Bool.false_ne_true, term]
  cases v.value <;> rfl

theorem reads_variableModifier :
    Reads nested depth (.keyword .my :: rest) variableModifier
      (fun nodes => Node.shapes nodes = [⟨.modifier, .name "my", []⟩]) rest := by
  refine Reads.look_cons fun o hkind => ?_
  rw [hkind]
  refine Reads.bind Reads.mark fun m _ => Reads.bind (Reads.advance rfl) fun _ _ => ?_
  exact Reads.single (Reads.closes rfl)

section Reading

variable (h : Parts nested depth bound)
include h

theorem reads_declared (x : Identifier) (hends : EndsName (rest.headD .eof)) :
    Reads nested depth (x.kind :: rest) declared
      (fun read => read.1 = some x.text ∧ Node.shapes read.2 = []) rest := by
  refine Reads.look fun o ho => ?_
  have hparen : o.isAt .lParen = false := ho.isAt_eq _
  rw [hparen, if_neg Bool.false_ne_true]
  refine Reads.bind (reads_variableType h none x (Nat.zero_le _) hends) fun types htypes => ?_
  refine Reads.bind (x.reads_variableName? .variableName) ?_
  rintro _ rfl
  exact Reads.done ⟨rfl, htypes⟩

/-- The declaration of a variable is read, and what ends it. -/
theorem reads_variableDeclaration {v : Variable} (hnew : v.isNew = true) {isStatement : Bool}
    {after : List Kind} (hlength : v.kinds.length ≤ bound + 1)
    (hends : EndsVariable (rest.headD .eof))
    (hend : Reads nested depth rest (endOfDeclaration isStatement) (fun _ => True) after) :
    Reads nested depth (v.kinds ++ rest) (variableDeclaration isStatement)
      (fun node => node.shape = v.declaration) after := by
  rw [kinds_of_new hnew, nameKinds, List.length_cons, List.length_cons] at hlength
  rw [kinds_of_new hnew, nameKinds, List.cons_append, List.cons_append]
  refine Reads.bind Reads.mark fun m _ => ?_
  refine Reads.bind reads_variableModifier fun modifiers hmodifiers => ?_
  refine Reads.bind (reads_declared h v.name (hends.endsName v.value)) ?_
  rintro ⟨name, types⟩ ⟨rfl, htypes⟩
  refine Reads.bind (Term.reads_initialiser h.terms v.value (by omega) hends.endsExpression
    hends.ne_assign) fun values hvalues => ?_
  refine Reads.bind hend fun _ _ => Reads.closes ?_
  rw [Node.shapes_append, Node.shapes_append, hmodifiers, htypes, hvalues]
  rfl

/-- A variable that is not declared is read as an expression. -/
theorem reads_term {v : Variable} (hold : v.isNew = false) (hlength : v.kinds.length ≤ bound)
    (hends : EndsVariable (rest.headD .eof)) :
    Reads nested depth (v.kinds ++ rest) expression (fun node => node.shape = v.term.shape)
      rest := by
  rw [kinds_of_not_new hold] at hlength ⊢
  exact h.terms v.term hlength rest hends.endsExpression

omit h in
/-- Behind a name that begins an expression nothing is declared. -/
theorem isTypeBefore_eq {v : Variable} (hold : v.isNew = false) {o : State}
    (ho : o.Clear (v.kinds ++ rest) depth) (hends : EndsVariable (rest.headD .eof))
    {follows : Kind → Bool} (heof : follows .eof = false)
    (hassign : follows (.symbol .assign) = false) (hrest : follows (rest.headD .eof) = false) :
    o.isTypeBefore follows = false := by
  rw [kinds, hold, if_neg Bool.false_ne_true] at ho
  rw [(hends.endsName v.value).isTypeBefore_eq ho heof]
  cases v.value with
  | none => exact hrest
  | some value => exact hassign

/-- The first clause of a loop. -/
theorem reads_variableOrExpression (v : Variable) (hlength : v.kinds.length ≤ bound)
    (hends : EndsVariable (rest.headD .eof)) :
    Reads nested depth (v.kinds ++ rest) variableOrExpression (fun node => node.shape = v.shape)
      rest := by
  refine Reads.look fun o ho => ?_
  cases hnew : v.isNew with
  | true =>
      have hvariable : o.isVariable = true := by
        rw [kinds_of_new hnew] at ho
        rw [State.isVariable, ho.isAtKeyword_eq]
        rfl
      rw [hvariable, if_pos rfl, shape, if_pos hnew]
      exact reads_variableDeclaration h hnew (by omega) hends (Reads.done trivial)
  | false =>
      have hvariable : o.isVariable = false := by
        have htyped : o.isTypedVariable = false :=
          isTypeBefore_eq hnew ho hends rfl rfl hends.isVariableName_eq
        rw [kinds, hnew, if_neg Bool.false_ne_true] at ho
        rw [State.isVariable, ho.isAtKeyword_eq, ho.isAtKeyword_eq, htyped]
        rfl
      rw [hvariable, if_neg Bool.false_ne_true, shape, hnew, if_neg Bool.false_ne_true]
      exact reads_term h hnew hlength hends

/-- A variable that is a statement of its own. -/
theorem reads_statement (v : Variable) (hlength : v.kinds.length ≤ bound) :
    Reads nested depth (v.kinds ++ .symbol .semicolon :: rest) statementRule
      (fun node => node.shape = v.statementShape) rest := by
  have hends : EndsVariable (.symbol .semicolon) := ⟨rfl, rfl⟩
  refine Reads.look fun o ho => ?_
  cases hnew : v.isNew with
  | true =>
      have hkind : o.kind = .keyword .my := by
        rw [kinds_of_new hnew] at ho
        exact ho.kind_eq
      rw [hkind, statementShape, if_pos hnew]
      refine reads_variableDeclaration h hnew (by omega) hends ?_
      exact Reads.bind (Reads.expect .semicolon) fun _ _ => Reads.done trivial
  | false =>
      have hkind : o.kind = v.name.kind := by
        rw [kinds, hnew, if_neg Bool.false_ne_true] at ho
        exact ho.kind_eq
      rw [hkind, statementShape, hnew, if_neg Bool.false_ne_true]
      refine Reads.look fun o ho => ?_
      have hdeclaration : o.isDeclaration = false := by
        have hfunction : o.isTypedFunction = false := isTypeBefore_eq hnew ho hends rfl rfl rfl
        have hword : o.keyword? = none := by
          rw [kinds, hnew, if_neg Bool.false_ne_true] at ho
          rw [State.keyword?, ho.kind_eq]
          rfl
        rw [State.isDeclaration, hword, hfunction]
      have htyped : o.isTypedVariable = false := isTypeBefore_eq hnew ho hends rfl rfl rfl
      rw [hdeclaration, if_neg Bool.false_ne_true, htyped, if_neg Bool.false_ne_true]
      refine Reads.bind Reads.mark fun m _ => ?_
      refine Reads.bind (reads_term h hnew hlength hends) fun node hnode => ?_
      refine Reads.bind (Reads.expect .semicolon) fun _ _ => Reads.closes ?_
      rw [Node.shapes, Node.shapes, hnode]

end Reading

end Variable

section Reading

variable (h : Parts nested depth bound)
include h

theorem reads_condition (test : Term) (hlength : (Head.conditionKinds test).length ≤ bound + 1) :
    Reads nested depth (Head.conditionKinds test ++ rest) condition
      (fun node => node.shape = test.shape) rest := by
  rw [Head.conditionKinds, List.length_cons, List.length_append] at hlength
  rw [Head.conditionKinds, List.cons_append, List.append_assoc]
  refine Reads.bind (Reads.expect .lParen) fun _ _ => ?_
  refine Reads.bind (h.terms test (by omega) _ rfl) fun node hnode => ?_
  exact Reads.bind (Reads.expect .rParen) fun _ _ => Reads.done hnode

omit h in
/-- A clause is read up to the mark that closes it; where that stands at once there is none. -/
theorem reads_forClause {α : Type} {kinds : α → List Kind} {shape : α → Node.Shape}
    {clause : Parser Node} {closing : Symbol} (part : Option α)
    (hpart : ∀ x ∈ part, Reads nested depth (kinds x ++ .symbol closing :: rest) clause
        (fun node => node.shape = shape x) (.symbol closing :: rest) ∧
      (kinds x ++ .symbol closing :: rest).headD .eof ≠ .symbol closing) :
    Reads nested depth (Head.clauseKinds (part.map kinds) closing ++ rest)
      (forClause closing clause)
      (fun node => node.shape = Head.clauseShape (part.map shape)) rest := by
  rw [Head.clauseKinds, List.append_assoc]
  refine Reads.bind (p := fun node : Node => node.shape = Head.clauseShape (part.map shape)) ?_
    fun node hnode => Reads.bind (Reads.expect closing) fun _ _ => Reads.done hnode
  refine Reads.look fun o ho => ?_
  cases part with
  | none =>
      have hat : o.isAt closing = true := (ho.isAt_eq closing).trans (beq_self_eq_true _)
      rw [hat, if_pos rfl]
      exact Reads.placeholder .empty
  | some x =>
      obtain ⟨hreads, hne⟩ := hpart x rfl
      have hat : o.isAt closing = false := (ho.isAt_eq closing).trans (beq_eq_false_iff_ne.mpr hne)
      rw [hat, if_neg Bool.false_ne_true]
      exact hreads

theorem reads_termClause (part : Option Term) (closing : Symbol)
    (hlength : (Head.clauseKinds (part.map Term.kinds) closing).length ≤ bound)
    (hends : (Kind.symbol closing).endsExpression = true)
    (hbegins : (Kind.symbol closing).beginsExpression = false) :
    Reads nested depth (Head.clauseKinds (part.map Term.kinds) closing ++ rest)
      (forClause closing expression)
      (fun node => node.shape = Head.clauseShape (part.map Term.shape)) rest := by
  refine reads_forClause part fun test htest => ?_
  obtain rfl : part = some test := htest
  rw [Head.clauseKinds, Option.map_some, Option.getD_some, List.length_append] at hlength
  refine ⟨h.terms test (by omega) _ hends, ?_⟩
  exact Token.ne_of_holds (test.beginsExpression_head _) hbegins

theorem reads_startClause (part : Option Variable)
    (hlength : (Head.clauseKinds (part.map Variable.kinds) .semicolon).length ≤ bound) :
    Reads nested depth (Head.clauseKinds (part.map Variable.kinds) .semicolon ++ rest)
      (forClause .semicolon variableOrExpression)
      (fun node => node.shape = Head.clauseShape (part.map Variable.shape)) rest := by
  refine reads_forClause part fun v hv => ?_
  obtain rfl : part = some v := hv
  rw [Head.clauseKinds, Option.map_some, Option.getD_some, List.length_append] at hlength
  refine ⟨v.reads_variableOrExpression h (by omega) ⟨rfl, rfl⟩, ?_⟩
  obtain ⟨isNew, name, value⟩ := v
  cases isNew <;> exact ne_of_beq_false rfl

end Reading

end QoreSyntax

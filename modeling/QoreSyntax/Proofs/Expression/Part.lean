import QoreSyntax.Proofs.Expression.Power
import QoreSyntax.Proofs.Expression.Tokens
import QoreSyntax.Proofs.Grammar.Reading.Items

namespace QoreSyntax

open Grammar
open Grammar.Parser (Reads ReadsUpTo)
open Token (Kind)

namespace Grammar

variable {nested : Goal → State → Node × State} {depth power : Nat} {m : Mark} {left : Node}
  {before middle after : List Kind} {kind : Kind} {p q : Node → Prop}

theorem suffix?_eq_none {token : Token} (h : beginsSuffix token.kind = false) :
    suffix? m left token = none := by
  rw [suffix?]
  split <;> first
    | rfl
    | rename_i hkind
      rw [hkind] at h
      cases h

/-- What stands behind an operand widens it. -/
theorem reads_loop_suffix (honly : OnlyTakes nested) {suffix : Parser Node}
    (hsuffix : ∀ token : Token, token.kind = kind → suffix? m left token = some suffix)
    (hreads : Reads nested depth (kind :: before) suffix p middle)
    (hnext : ∀ node, p node →
      Reads nested depth middle (loop (expressionStep m power) node) q after) :
    Reads nested depth (kind :: before) (loop (expressionStep m power) left) q after := by
  refine Reads.loop_again (Parser.shrinks_expressionStep honly m power) honly ?_ hnext
  refine Reads.look_cons fun o hkind => ?_
  dsimp only
  rw [hsuffix o.current hkind]
  exact Reads.bind hreads fun node hnode => Reads.done ⟨node, rfl, hnode⟩

/-- An operator that binds tightly enough widens the operand before it. -/
theorem reads_loop_operator (honly : OnlyTakes nested) {binding : Power}
    (hbinding : power? kind = some binding) (hpower : power ≤ binding.left)
    (hreads : Reads nested depth (kind :: before) (rightOperand m left binding.right) p middle)
    (hnext : ∀ node, p node →
      Reads nested depth middle (loop (expressionStep m power) node) q after) :
    Reads nested depth (kind :: before) (loop (expressionStep m power) left) q after := by
  refine Reads.loop_again (Parser.shrinks_expressionStep honly m power) honly ?_ hnext
  refine Reads.look_cons fun o (hkind : o.current.kind = kind) => ?_
  dsimp only
  rw [suffix?_eq_none (hkind ▸ (beginsSuffix_of_power? hbinding).2), hkind, hbinding]
  dsimp only
  rw [if_neg (Nat.not_lt.mpr hpower)]
  exact Reads.bind hreads fun node hnode => Reads.done ⟨node, rfl, hnode⟩

/-- What ends the expression widens the operand no more. -/
theorem reads_loop_stops (honly : OnlyTakes nested) (h : Stops power (before.headD .eof)) :
    Reads nested depth before (loop (expressionStep m power) left) (· = left) before := by
  refine Reads.loop_done (Parser.shrinks_expressionStep honly m power) honly ?_
  refine Reads.look fun o ho => ?_
  have hkind : o.current.kind = before.headD .eof := ho.kind_eq
  dsimp only
  rw [suffix?_eq_none (hkind ▸ h.beginsSuffix_eq), hkind]
  cases hbinding : power? (before.headD .eof) with
  | none => exact Reads.done ⟨left, rfl, rfl⟩
  | some binding =>
      dsimp only
      rw [if_pos (h.left_lt hbinding)]
      exact Reads.done ⟨left, rfl, rfl⟩

theorem reads_prefixed (h : prefixNode? kind = none)
    (hreads : Reads nested depth (kind :: before) operand p after) :
    Reads nested depth (kind :: before) prefixed p after := by
  refine Reads.look_cons fun o hkind => ?_
  rw [hkind, h]
  exact hreads

theorem reads_identifier {text : String} (honly : OnlyTakes nested)
    (h : before.headD .eof ≠ .symbol .doubleColon) :
    Reads nested depth (.identifier text :: before) prefixed
      (fun node => node.shape = ⟨.name, .name text, []⟩) before := by
  refine reads_prefixed rfl (Reads.look_cons fun o hkind => ?_)
  rw [hkind]
  refine Reads.bind Reads.mark fun m _ => ?_
  have hname : Reads nested depth (.identifier text :: before) scopedName (· = text) before := by
    refine Reads.bind (Reads.eat_miss (by simp)) ?_
    rintro _ rfl
    have hfirst : Reads nested depth (.identifier text :: before) optionalIdentifier (· = text)
        before := by
      refine Reads.look_cons fun o hkind => ?_
      rw [hkind]
      exact Reads.bind (Reads.advance rfl) fun _ _ => Reads.done rfl
    refine Reads.bind hfirst ?_
    rintro _ rfl
    refine Reads.loop_done (Parser.shrinks_scopeStep honly) honly (Reads.look fun o ho => ?_)
    split
    · rename_i hcolon _
      exact absurd (ho.kind_eq.symm.trans hcolon) h
    · exact Reads.done ⟨_, rfl, by simp⟩
  refine Reads.bind hname ?_
  rintro _ rfl
  exact Reads.close m _ _ _

theorem reads_integer {value : Nat} :
    Reads nested depth (.integer value :: before) prefixed
      (fun node => node.shape = ⟨.integerLiteral, .integer value, []⟩) before := by
  refine reads_prefixed rfl (Reads.look_cons fun o hkind => ?_)
  rw [hkind]
  refine Reads.bind Reads.mark fun m _ => ?_
  exact Reads.bind (Reads.advance rfl) fun _ _ => Reads.close m _ _ _

end Grammar

namespace Expression

/-- Expressions of at most `bound` nodes are read where they are called for. -/
def ReadsWithin (nested : Goal → State → Node × State) (depth bound : Nat) : Prop :=
  ∀ (e : Expression) (power : Nat) (rest : List Kind), e.Fits → e.size ≤ bound →
    power ≤ leftPower e.level → Stops power (rest.headD .eof) →
      Reads nested depth (e.kinds ++ rest) (expressionFrom power) (fun node => node.shape = e.shape)
        rest

variable {nested : Goal → State → Node × State} {depth bound power : Nat} {m : Mark} {left : Node}
  {rest after : List Kind} {q : Node → Prop}

theorem isPrefixSymbol_of_mayLead {mark : Symbol} (h : mark.mayLead = true) :
    isPrefixSymbol mark = true := by
  revert h
  cases mark <;> decide

theorem isUnaryWord_of_isOperatorWord {word : Keyword} (h : isOperatorWord word = true) :
    isUnaryWord word = true := by
  revert h
  cases word <;> decide

theorem eq_of_mayTrail {mark : Symbol} (h : mark.mayTrail = true) :
    mark = .plusPlus ∨ mark = .minusMinus := by
  revert h
  cases mark <;> decide

theorem suffix?_of_mayTrail {mark : Symbol} (h : mark.mayTrail = true) {token : Token}
    (hkind : token.kind = .symbol mark) :
    suffix? m left token = some (operatorSuffix m mark left) := by
  rw [suffix?, hkind]
  rcases eq_of_mayTrail h with rfl | rfl <;> rfl

theorem reads_memberSuffix {title : String} {object : Expression}
    (hleft : left.shape = object.shape) :
    Reads nested depth (.symbol .dot :: wordKind title :: rest) (memberSuffix m left)
      (fun node => node.shape = (member object title).shape) rest := by
  refine Reads.bind (Reads.advance rfl) fun _ _ => ?_
  have hname : Reads nested depth (wordKind title :: rest) memberName? (· = some title) rest := by
    refine Reads.look_cons fun o hkind => ?_
    rw [hkind]
    cases hword : Keyword.ofWord? title with
    | some word =>
        rw [wordKind_of_some hword]
        refine Reads.bind (Reads.advance rfl) fun _ _ => Reads.done ?_
        rw [Token.spelling_of_ofWord? hword]
    | none =>
        rw [wordKind_of_none hword]
        exact Reads.bind (Reads.advance rfl) fun _ _ => Reads.done rfl
  refine Reads.bind hname ?_
  rintro _ rfl
  refine (Reads.close m _ _ _).weaken fun node hnode => ?_
  rw [hnode, Node.shapes, Node.shapes, hleft]
  rfl

theorem reads_operatorSuffix {mark : Symbol} {operand : Expression}
    (hleft : left.shape = operand.shape) :
    Reads nested depth (.symbol mark :: rest) (operatorSuffix m mark left)
      (fun node => node.shape = (trailing operand mark).shape) rest := by
  refine Reads.bind (Reads.advance rfl) fun _ _ => ?_
  refine (Reads.close m _ _ _).weaken fun node hnode => ?_
  rw [hnode, Node.shapes, Node.shapes, hleft]
  rfl

section Nested

variable (h : ReadsWithin nested depth bound)
include h

/-- Any expression is read up to a token before which every expression ends. -/
theorem ReadsWithin.expression {e : Expression} (hfits : e.Fits) (hsize : e.size ≤ bound) :
    ReadsUpTo nested depth e.kinds (fun kind => kind.endsExpression = true) Grammar.expression
      fun node => node.shape = e.shape :=
  fun rest hends => h e 0 rest hfits hsize (Nat.zero_le _) (stops_of_endsExpression hends 0)

theorem reads_paren {inner : Expression} (hfits : inner.Fits) (hsize : inner.size ≤ bound) :
    Reads nested depth ((paren inner).kinds ++ rest) prefixed
      (fun node => node.shape = (paren inner).shape) rest := by
  obtain ⟨kind, tail, hkinds, hbegins⟩ := exists_kinds_cons inner hfits
  rw [kinds, List.cons_append, List.append_assoc]
  refine reads_prefixed rfl (Reads.look_cons fun o hkind => ?_)
  rw [hkind]
  refine Reads.bind Reads.mark fun m _ => ?_
  refine Reads.bind (Reads.advance rfl) fun _ _ => ?_
  refine Reads.bind (Reads.eat_miss ?_) ?_
  · rw [hkinds]
    exact Token.ne_of_holds hbegins rfl
  rintro _ rfl
  refine Reads.bind Reads.mark fun start _ => ?_
  have hinner := h.expression hfits hsize (.symbol .rParen :: rest) rfl
  refine Reads.bind hinner fun first hfirst => ?_
  refine Reads.look_cons fun o hclosing => ?_
  rw [State.isAt, State.isAt, hclosing]
  refine Reads.bind (Reads.expect .rParen) fun _ _ => ?_
  refine (Reads.close m _ _ _).weaken fun node hnode => ?_
  rw [hnode, Node.shapes, Node.shapes, hfirst]
  rfl

/-- An operator before its operand. -/
theorem reads_leading {kind : Kind} {nodeKind : Node.Kind} {operator : String}
    {operand : Expression} (hoperator : prefixNode? kind = some (nodeKind, operator))
    (hfits : operand.Fits) (hlevel : prefixLevel ≤ operand.level) (hsize : operand.size ≤ bound)
    (hstops : Stops (rightPower prefixLevel) (rest.headD .eof)) :
    Reads nested depth (kind :: (operand.kinds ++ rest)) Grammar.prefixed
      (fun node => node.shape = ⟨nodeKind, .operator operator, [operand.shape]⟩) rest := by
  refine Reads.look_cons fun o hkind => ?_
  rw [hkind, hoperator]
  refine Reads.bind Reads.mark fun m _ => ?_
  have hvalid : kind.isValid = true := by
    cases kind with
    | invalid fault => cases hoperator
    | _ => rfl
  refine Reads.bind (Reads.advance hvalid) fun _ _ => ?_
  have hoperand := h operand prefixPower rest hfits hsize (leftPower_mono hlevel) hstops
  refine Reads.bind hoperand fun inner hinner => ?_
  refine (Reads.close m _ _ _).weaken fun node hnode => ?_
  rw [hnode, ← hinner]
  rfl

theorem reads_indexSuffix {object key : Expression} (hleft : left.shape = object.shape)
    (hfits : key.Fits) (hsize : key.size ≤ bound) :
    Reads nested depth (.symbol .lBracket :: (key.kinds ++ .symbol .rBracket :: rest))
      (indexSuffix m left) (fun node => node.shape = (index object key).shape) rest := by
  refine Reads.bind (Reads.advance rfl) fun _ _ => ?_
  have hkey := h.expression hfits hsize (.symbol .rBracket :: rest) rfl
  refine Reads.bind hkey fun inner hinner => ?_
  refine Reads.bind (Reads.expect .rBracket) fun _ _ => ?_
  refine (Reads.close m _ _ _).weaken fun node hnode => ?_
  rw [hnode, Node.shapes, Node.shapes, Node.shapes, hleft, hinner]
  rfl

theorem reads_arguments (honly : OnlyTakes nested) {arguments : List Expression}
    (hfit : AllFit arguments) (hsize : sizes arguments ≤ bound) :
    Reads nested depth (.symbol .lParen :: (argumentKinds arguments ++ .symbol .rParen :: rest))
      Grammar.arguments (fun node => node.shape = ⟨.argList, .none, shapes arguments⟩) rest := by
  rw [argumentKinds_eq_commas, shapes_eq_map]
  have hitems : ∀ e ∈ arguments, ReadsUpTo nested depth e.kinds
      (fun kind => kind.endsExpression = true) Grammar.expression
      fun node => node.shape = e.shape :=
    fun e he => h.expression (fits_of_mem hfit he) ((size_le_of_mem he).trans hsize)
  refine Reads.arguments honly hitems (fun e he behind => ?_) rfl rfl
  have hbegins := beginsExpression_head (fits_of_mem hfit he) behind
  exact ⟨Token.ne_of_holds hbegins rfl, Token.ne_of_holds hbegins rfl⟩

theorem reads_callSuffix (honly : OnlyTakes nested) {function : Expression}
    {arguments : List Expression} (hleft : left.shape = function.shape) (hfit : AllFit arguments)
    (hsize : sizes arguments ≤ bound) :
    Reads nested depth (.symbol .lParen :: (argumentKinds arguments ++ .symbol .rParen :: rest))
      (callSuffix m left) (fun node => node.shape = (call function arguments).shape) rest := by
  refine Reads.bind (reads_arguments h honly hfit hsize) fun values hvalues => ?_
  refine (Reads.close m _ _ _).weaken fun node hnode => ?_
  rw [hnode, Node.shapes, Node.shapes, Node.shapes, hleft, hvalues]
  rfl

theorem reads_binary {mark : Symbol} {level : Nat} {operand right : Expression}
    (hleft : left.shape = operand.shape) (hlevel : mark.level? = some level)
    (hfits : right.Fits) (hsize : right.size ≤ bound)
    (hpower : rightPower level ≤ leftPower right.level)
    (hstops : Stops (rightPower level) (rest.headD .eof)) :
    Reads nested depth (.symbol mark :: (right.kinds ++ rest))
      (rightOperand m left (rightPower level))
      (fun node => node.shape = (binary operand mark right).shape) rest := by
  refine Reads.bind (Reads.advance rfl) fun token htoken => ?_
  rw [htoken]
  split
  · rename_i hquestion
    obtain rfl : mark = .question := Kind.symbol.inj hquestion
    cases hlevel
  · rename_i hmark
    obtain rfl := Kind.symbol.inj hmark
    refine Reads.bind (h right _ rest hfits hsize hpower hstops) fun inner hinner => ?_
    refine (Reads.close m _ _ _).weaken fun node hnode => ?_
    rw [hnode, shape, isAssignment_eq hlevel, ← hleft, ← hinner]
    simp only [decide_eq_true_eq]
    rfl
  · rename_i hother
    exact absurd rfl (hother mark)

theorem reads_conditional {test yes no : Expression} (hleft : left.shape = test.shape)
    (hyes : yes.Fits) (hyesSize : yes.size ≤ bound) (hno : no.Fits) (hnoSize : no.size ≤ bound)
    (hpower : rightPower conditionalLevel ≤ leftPower no.level)
    (hstops : Stops (rightPower conditionalLevel) (rest.headD .eof)) :
    Reads nested depth (.symbol .question :: (yes.kinds ++ .symbol .colon :: (no.kinds ++ rest)))
      (rightOperand m left (rightPower conditionalLevel))
      (fun node => node.shape = (conditional test yes no).shape) rest := by
  refine Reads.bind (Reads.advance rfl) fun token htoken => ?_
  rw [htoken]
  have hmiddle := h.expression hyes hyesSize (.symbol .colon :: (no.kinds ++ rest)) rfl
  refine Reads.bind hmiddle fun middle hmiddle => ?_
  refine Reads.bind (Reads.expect .colon) fun _ _ => ?_
  refine Reads.bind (h no _ rest hno hnoSize hpower hstops) fun right hright => ?_
  refine (Reads.close m _ _ _).weaken fun node hnode => ?_
  rw [hnode, Node.shapes, Node.shapes, Node.shapes, Node.shapes, hleft, hmiddle, hright]
  rfl

end Nested

end Expression

end QoreSyntax

import QoreSyntax.Grammar.Expression
import QoreSyntax.Proofs.Node.Shape
import QoreSyntax.Proofs.Token.Written

/-!
Expressions as they are meant, apart from any text: the operators stand on levels, and the operands
of an operator are of its level or of a higher one, so that no parentheses are needed where there
are none.
-/

namespace QoreSyntax

namespace Symbol

/-- The level of an operator between two operands. Operators of a higher level bind more tightly;
the conditional operator stands on the same level as its shorter forms. -/
def level? : Symbol → Option Nat
  | .assign | .plusAssign | .minusAssign | .starAssign | .slashAssign | .percentAssign | .ampAssign
  | .pipeAssign | .caretAssign | .shlAssign | .shrAssign | .questionQuestionAssign => some 0
  | .questionColon | .questionQuestion => some 1
  | .orOr => some 2
  | .andAnd => some 3
  | .pipe => some 4
  | .caret => some 5
  | .amp => some 6
  | .eqEq | .notEq | .strictEq | .strictNotEq | .spaceship | .match | .noMatch => some 7
  | .lt | .gt | .lte | .gte => some 8
  | .shl | .shr => some 9
  | .plus | .minus => some 10
  | .star | .slash | .percent => some 11
  | _ => none

/-- The operators that may stand before an operand. -/
def mayLead : Symbol → Bool
  | .minus | .plus | .not | .tilde | .plusPlus | .minusMinus | .backslash => true
  | _ => false

/-- The operators that may stand behind an operand. -/
def mayTrail : Symbol → Bool
  | .plusPlus | .minusMinus => true
  | _ => false

end Symbol

/-- Operators of the two lowest levels take the longer operand to the right, others to the left. -/
def leansRight (level : Nat) : Bool :=
  level ≤ 1

/-- An operator of the level may stand between operands of the levels `left` and `right`. -/
def Admits (level left right : Nat) : Prop :=
  if leansRight level then level < left ∧ level ≤ right else level ≤ left ∧ level < right

instance (level left right : Nat) : Decidable (Admits level left right) :=
  inferInstanceAs (Decidable (if leansRight level then level < left ∧ level ≤ right
    else level ≤ left ∧ level < right))

def conditionalLevel : Nat := 1

def prefixLevel : Nat := 12

def suffixLevel : Nat := 13

def operandLevel : Nat := 14

inductive Expression where
  | name (text : String)
  | integer (value : Nat)
  | paren (inner : Expression)
  | member (object : Expression) (title : String)
  | index (object key : Expression)
  | call (function : Expression) (arguments : List Expression)
  | trailing (operand : Expression) (mark : Symbol)
  | leading (mark : Symbol) (operand : Expression)
  | worded (word : Keyword) (operand : Expression)
  | binary (left : Expression) (mark : Symbol) (right : Expression)
  | conditional (test yes no : Expression)

namespace Expression

def level : Expression → Nat
  | name _ | integer _ | paren _ => operandLevel
  | member _ _ | index _ _ | call _ _ | trailing _ _ => suffixLevel
  | leading _ _ | worded _ _ => prefixLevel
  | binary _ mark _ => mark.level?.getD 0
  | conditional _ _ _ => conditionalLevel

/-- The words that may stand before an operand like an operator. -/
def isOperatorWord : Keyword → Bool
  | .elements | .keys | .exists | .delete | .remove | .shift | .pop | .trim | .background => true
  | _ => false

mutual

/-- The number of nodes; the list of the arguments of a call is not one. -/
def size : Expression → Nat
  | name _ | integer _ => 1
  | paren inner => inner.size + 1
  | member object _ => object.size + 1
  | index object key => object.size + key.size + 1
  | call function arguments => function.size + sizes arguments + 1
  | trailing operand _ => operand.size + 1
  | leading _ operand | worded _ operand => operand.size + 1
  | binary left _ right => left.size + right.size + 1
  | conditional test yes no => test.size + yes.size + no.size + 1

def sizes : List Expression → Nat
  | [] => 0
  | e :: rest => e.size + sizes rest

end

theorem size_pos (e : Expression) : 0 < e.size := by
  cases e <;> exact Nat.succ_pos _

mutual

/-- The operands of each operator are of the levels that it allows. A name must not be a reserved
word, but for the name of a member. -/
def Fits : Expression → Prop
  | name text => Token.isName text.toList = true ∧ Keyword.ofWord? text = none
  | integer value => value < Nat.pow 2 63
  | paren inner => inner.Fits
  | member object title =>
      object.Fits ∧ suffixLevel ≤ object.level ∧ Token.isName title.toList = true
  | index object key => object.Fits ∧ suffixLevel ≤ object.level ∧ key.Fits
  | call function arguments =>
      function.Fits ∧ suffixLevel ≤ function.level ∧ AllFit arguments
  | trailing operand mark =>
      operand.Fits ∧ suffixLevel ≤ operand.level ∧ mark.mayTrail = true
  | leading mark operand => operand.Fits ∧ prefixLevel ≤ operand.level ∧ mark.mayLead = true
  | worded word operand =>
      operand.Fits ∧ prefixLevel ≤ operand.level ∧ isOperatorWord word = true
  | binary left mark right =>
      left.Fits ∧ right.Fits ∧ ∃ level ∈ mark.level?, Admits level left.level right.level
  | conditional test yes no =>
      test.Fits ∧ yes.Fits ∧ no.Fits ∧ Admits conditionalLevel test.level no.level

def AllFit : List Expression → Prop
  | [] => True
  | e :: rest => e.Fits ∧ AllFit rest

end

mutual

instance decidableFits : (e : Expression) → Decidable e.Fits
  | name _ => inferInstanceAs (Decidable (_ ∧ _))
  | integer _ => inferInstanceAs (Decidable (_ < _))
  | paren inner => decidableFits inner
  | member object _ =>
      have := decidableFits object
      inferInstanceAs (Decidable (_ ∧ _ ∧ _))
  | index object key =>
      have := decidableFits object
      have := decidableFits key
      inferInstanceAs (Decidable (_ ∧ _ ∧ _))
  | call function arguments =>
      have := decidableFits function
      have := decidableAllFit arguments
      inferInstanceAs (Decidable (_ ∧ _ ∧ _))
  | trailing operand _ | leading _ operand | worded _ operand =>
      have := decidableFits operand
      inferInstanceAs (Decidable (_ ∧ _ ∧ _))
  | binary left mark right =>
      have := decidableFits left
      have := decidableFits right
      inferInstanceAs (Decidable (_ ∧ _ ∧ ∃ level ∈ mark.level?, Admits level _ _))
  | conditional test yes no =>
      have := decidableFits test
      have := decidableFits yes
      have := decidableFits no
      inferInstanceAs (Decidable (_ ∧ _ ∧ _ ∧ _))

instance decidableAllFit : (es : List Expression) → Decidable (AllFit es)
  | [] => inferInstanceAs (Decidable True)
  | e :: rest =>
      have := decidableFits e
      have := decidableAllFit rest
      inferInstanceAs (Decidable (_ ∧ _))

end

mutual

/-- The tree that the expression is to be read as. -/
def shape : Expression → Node.Shape
  | name text => ⟨.name, .name text, []⟩
  | integer value => ⟨.integerLiteral, .integer value, []⟩
  | paren inner => ⟨.paren, .none, [inner.shape]⟩
  | member object title => ⟨.member, .name title, [object.shape]⟩
  | index object key => ⟨.index, .none, [object.shape, key.shape]⟩
  | call function arguments =>
      ⟨.call, .none, [function.shape, ⟨.argList, .none, shapes arguments⟩]⟩
  | trailing operand mark => ⟨.postfixOp, .operator mark.spelling, [operand.shape]⟩
  | leading mark operand => ⟨.unary, .operator mark.spelling, [operand.shape]⟩
  | worded word operand => ⟨.keywordOp, .operator word.spelling, [operand.shape]⟩
  | binary left mark right =>
      ⟨if mark.level? = some 0 then .assignment else .binary, .operator mark.spelling,
        [left.shape, right.shape]⟩
  | conditional test yes no => ⟨.ternary, .none, [test.shape, yes.shape, no.shape]⟩

def shapes : List Expression → List Node.Shape
  | [] => []
  | e :: rest => e.shape :: shapes rest

end

/-- The token that is read from a name. -/
def wordKind (name : String) : Token.Kind :=
  match Keyword.ofWord? name with
  | some word => .keyword word
  | none => .identifier name

mutual

/-- The tokens of the expression. -/
def kinds : Expression → List Token.Kind
  | name text => [.identifier text]
  | integer value => [.integer value]
  | paren inner => .symbol .lParen :: (inner.kinds ++ [.symbol .rParen])
  | member object title => object.kinds ++ [.symbol .dot, wordKind title]
  | index object key =>
      object.kinds ++ .symbol .lBracket :: (key.kinds ++ [.symbol .rBracket])
  | call function arguments =>
      function.kinds ++ .symbol .lParen :: (argumentKinds arguments ++ [.symbol .rParen])
  | trailing operand mark => operand.kinds ++ [.symbol mark]
  | leading mark operand => .symbol mark :: operand.kinds
  | worded word operand => .keyword word :: operand.kinds
  | binary left mark right => left.kinds ++ .symbol mark :: right.kinds
  | conditional test yes no =>
      test.kinds ++ .symbol .question :: (yes.kinds ++ .symbol .colon :: no.kinds)

/-- The tokens of the arguments of a call, with commas between them. -/
def argumentKinds : List Expression → List Token.Kind
  | [] => []
  | [e] => e.kinds
  | e :: e' :: rest => e.kinds ++ .symbol .comma :: argumentKinds (e' :: rest)

end

end Expression

end QoreSyntax

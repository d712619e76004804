import QoreSyntax.Proofs.Expression.Climbing
import QoreSyntax.Proofs.Grammar.Reading.Items

namespace QoreSyntax

open Grammar
open Grammar.Parser (Reads ReadsUpTo)
open Token (Kind Portable)

/-- A name that is no reserved word. -/
structure Identifier where
  text : String
  isName : Token.isName text.toList = true
  isFree : Keyword.ofWord? text = none

namespace Identifier

def kind (x : Identifier) : Kind :=
  .identifier x.text

theorem portable_cons (x : Identifier) {kinds : List Kind} (h : Portable kinds) :
    Portable (x.kind :: kinds) :=
  h.cons ⟨x.isName, x.isFree⟩ rfl

end Identifier

namespace Expression

mutual

/-- An expression has at least as many tokens as nodes. -/
theorem size_le_length : ∀ e : Expression, e.size ≤ e.kinds.length
  | name _ | integer _ => Nat.le_refl _
  | paren inner => by
      have hinner := size_le_length inner
      simp only [size, kinds, List.length_cons, List.length_append]
      omega
  | member object _ | trailing object _ => by
      have hobject := size_le_length object
      simp only [size, kinds, List.length_cons, List.length_append]
      omega
  | index left right | binary left _ right => by
      have hleft := size_le_length left
      have hright := size_le_length right
      simp only [size, kinds, List.length_cons, List.length_append]
      omega
  | call function arguments => by
      have hfunction := size_le_length function
      have harguments := sizes_le_length arguments
      simp only [size, kinds, List.length_cons, List.length_append]
      omega
  | leading _ operand | worded _ operand => by
      have hoperand := size_le_length operand
      simp only [size, kinds, List.length_cons]
      omega
  | conditional test yes no => by
      have htest := size_le_length test
      have hyes := size_le_length yes
      have hno := size_le_length no
      simp only [size, kinds, List.length_cons, List.length_append]
      omega

theorem sizes_le_length : ∀ arguments : List Expression,
    sizes arguments ≤ (argumentKinds arguments).length
  | [] => Nat.le_refl _
  | [e] => by
      have hfirst := size_le_length e
      simpa only [sizes, argumentKinds, Nat.add_zero] using hfirst
  | e :: e' :: rest => by
      have hfirst := size_le_length e
      have hrest := sizes_le_length (e' :: rest)
      rw [sizes, argumentKinds, List.length_append, List.length_cons]
      omega

end

end Expression

/-- An expression in which the operands of each operator are of the levels that it allows. -/
structure Term where
  expression : Expression
  fits : expression.Fits

namespace Term

def kinds (t : Term) : List Kind :=
  t.expression.kinds

def shape (t : Term) : Node.Shape :=
  t.expression.shape

/-- A variable as an operand. -/
def ofName (x : Identifier) : Term :=
  ⟨.name x.text, x.isName, x.isFree⟩

/-- The assignment of a value to a variable. -/
def assign (x : Identifier) (value : Term) : Term :=
  ⟨.binary (.name x.text) .assign value.expression, (ofName x).fits, value.fits, 0, rfl, by
    change 0 < operandLevel ∧ 0 ≤ value.expression.level
    exact ⟨by decide, Nat.zero_le _⟩⟩

theorem beginsExpression_head (t : Term) (behind : List Kind) :
    ((t.kinds ++ behind).headD .eof).beginsExpression = true :=
  Expression.beginsExpression_head t.fits behind

theorem portable (t : Term) : Portable t.kinds := by
  refine ⟨Expression.legible_kinds t.fits, ?_⟩
  obtain ⟨kind, rest, hkinds, hbegins⟩ := Expression.exists_kinds_cons t.expression t.fits
  intro next hnext
  rw [kinds, hkinds] at hnext
  obtain rfl := Option.some.inj hnext
  exact kind.beginsWithSlash_eq hbegins

/-- Terms of at most `bound` tokens are read where they are called for. -/
def ReadsWithin (nested : Goal → State → Node × State) (depth bound : Nat) : Prop :=
  ∀ t : Term, t.kinds.length ≤ bound → ReadsUpTo nested depth t.kinds
    (fun kind => kind.endsExpression = true) Grammar.expression fun node => node.shape = t.shape

theorem readsWithin_parse {limit room depth bound : Nat} (hroom : bound ≤ room)
    (hlimit : depth + bound ≤ limit) : ReadsWithin (Grammar.parse limit room) depth bound := by
  intro t hlength rest hends
  have hexpression : Expression.ReadsWithin (Grammar.parse limit room) depth bound :=
    Expression.readsWithin_parse hroom hlimit
  have hsize : t.expression.size ≤ bound := t.expression.size_le_length.trans hlength
  exact hexpression t.expression 0 rest t.fits hsize (Nat.zero_le _)
    (stops_of_endsExpression hends 0)

/-- The tokens of a value that may be given to something. -/
def valueKinds : Option Term → List Kind
  | none => []
  | some value => .symbol .assign :: value.kinds

def valueShapes (value : Option Term) : List Node.Shape :=
  (value.map shape).toList

theorem portable_valueKinds (value : Option Term) : Portable (valueKinds value) := by
  cases value with
  | none => exact Portable.nil
  | some value => exact value.portable.symbol .assign rfl

theorem portable_commas (values : List Term) : Portable (Token.commas (values.map kinds)) :=
  Portable.commas (Portable.of_map portable values)

/-- What several operands of a statement are read as: one alone stands for itself. -/
def operandShapes : List Term → List Node.Shape
  | [] => []
  | [value] => [value.shape]
  | values => [⟨.listLiteral, .none, values.map shape⟩]

section Reading

variable {nested : Goal → State → Node × State} {depth bound : Nat} {rest : List Kind}
  (h : ReadsWithin nested depth bound)
include h

/-- A value is read up to a token that ends it; without one there is nothing to be read. -/
theorem reads_initialiser (value : Option Term) (hlength : (valueKinds value).length ≤ bound)
    (hends : (rest.headD .eof).endsExpression = true)
    (hassign : rest.headD .eof ≠ .symbol .assign) :
    Reads nested depth (valueKinds value ++ rest) initialiser
      (fun nodes => Node.shapes nodes = valueShapes value) rest := by
  cases value with
  | none => exact Reads.optionally_eat_miss hassign
  | some value =>
      rw [valueKinds, List.length_cons] at hlength
      exact Reads.optionally_eat (Reads.single (h value (by omega) rest hends))

theorem reads_expressionList {value : Term} {values : List Term} (honly : OnlyTakes nested)
    (hlength : (Token.commas ((value :: values).map kinds)).length ≤ bound)
    (hends : (rest.headD .eof).endsExpression = true) (hcomma : rest.headD .eof ≠ .symbol .comma) :
    Reads nested depth (Token.commas ((value :: values).map kinds) ++ rest) (single expressionList)
      (fun nodes => Node.shapes nodes = operandShapes (value :: values)) rest := by
  refine Reads.bind (p := fun node => Node.shapes [node] = operandShapes (value :: values)) ?_
    fun node hnode => Reads.done hnode
  refine Reads.bind Reads.mark fun m _ => ?_
  cases values with
  | nil =>
      rw [List.map_singleton, Token.commas_singleton] at hlength ⊢
      refine Reads.bind (h value hlength rest hends) fun first hfirst => ?_
      refine Reads.bind (Reads.eat_miss hcomma) ?_
      rintro _ rfl
      exact Reads.done (congrArg ([·]) hfirst)
  | cons next values =>
      rw [List.map_cons, List.map_cons, Token.commas_cons_cons, ← List.map_cons] at hlength ⊢
      rw [List.length_append, List.length_cons] at hlength
      rw [List.append_assoc, List.cons_append]
      refine Reads.bind (h value (by omega) _ rfl) fun first hfirst => ?_
      refine Reads.bind (Reads.eat .comma) ?_
      rintro _ rfl
      have hitems : ∀ t ∈ next :: values, ReadsUpTo nested depth t.kinds
          (fun kind => kind.endsExpression = true) Grammar.expression
          fun node => node.shape = t.shape := by
        intro t ht
        have hle : t.kinds.length ≤ (Token.commas ((next :: values).map kinds)).length :=
          Token.length_le_commas (List.mem_map_of_mem ht)
        exact h t (by omega)
      refine Reads.bind (Reads.commaList honly hitems (List.cons_ne_nil next values) rfl hends
        hcomma) fun others hothers => ?_
      refine (Reads.close m _ _ _).weaken fun node hnode => ?_
      rw [Node.shapes, Node.shapes, hnode, Node.shapes, hfirst, hothers]
      rfl

end Reading

end Term

end QoreSyntax

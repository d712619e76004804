import QoreSyntax.Proofs.Expression.Part
import QoreSyntax.Proofs.Grammar.Reading.Script

/-!
Reading an expression from its tokens. The operand that comes first is read and then widened, by
what stands behind it and by operators with their right operands, as long as these bind tightly
enough; what widens it is what the expression holds around that operand, from the inside out.
-/

namespace QoreSyntax

open Grammar
open Grammar.Parser (Reads)
open Token (Kind)

namespace Expression

variable {nested : Goal → State → Node × State} {depth bound power : Nat} {m : Mark}

section Nested

variable (h : ReadsWithin nested depth bound)
include h

/-- The operand that stands first in an expression is read and widened to the expression, and then
to what is made of that. -/
theorem reads_climb (honly : OnlyTakes nested) : ∀ (e : Expression) {rest after : List Kind}
    {q : Node → Prop}, e.Fits → e.size ≤ bound + 1 → power ≤ leftPower e.level →
      Ends e.level (rest.headD .eof) →
      (∀ node, node.shape = e.shape →
        Reads nested depth rest (loop (expressionStep m power) node) q after) →
      Reads nested depth (e.kinds ++ rest) (prefixed >>= loop (expressionStep m power)) q after
  | .name text, rest, _, _, _, _, _, hends, hnext =>
      Reads.bind (reads_identifier honly hends.ne_doubleColon) hnext
  | .integer value, _, _, _, _, _, _, _, hnext => Reads.bind reads_integer hnext
  | .paren inner, _, _, _, hfits, hsize, _, _, hnext =>
      Reads.bind (reads_paren h hfits (by rw [size] at hsize; omega)) hnext
  | .member object title, rest, _, _, hfits, hsize, hpower, hends, hnext => by
      rw [size] at hsize
      rw [kinds, List.append_assoc]
      refine reads_climb honly object hfits.1 (by omega)
        (hpower.trans (leftPower_mono hfits.2.1))
        (ends_of_suffixLevel_le hfits.2.1 (by simp)) fun node hnode => ?_
      exact reads_loop_suffix honly (fun token hkind => by rw [suffix?, hkind])
        (reads_memberSuffix hnode) hnext
  | .index object key, rest, _, _, hfits, hsize, hpower, hends, hnext => by
      rw [size] at hsize
      rw [kinds, List.append_assoc, List.cons_append, List.append_assoc]
      refine reads_climb honly object hfits.1 (by omega)
        (hpower.trans (leftPower_mono hfits.2.1))
        (ends_of_suffixLevel_le hfits.2.1 (by simp)) fun node hnode => ?_
      exact reads_loop_suffix honly (fun token hkind => by rw [suffix?, hkind])
        (reads_indexSuffix h hnode hfits.2.2 (by omega)) hnext
  | .call function arguments, rest, _, _, hfits, hsize, hpower, hends, hnext => by
      rw [size] at hsize
      rw [kinds, List.append_assoc, List.cons_append, List.append_assoc]
      refine reads_climb honly function hfits.1 (by omega)
        (hpower.trans (leftPower_mono hfits.2.1))
        (ends_of_suffixLevel_le hfits.2.1 (by simp)) fun node hnode => ?_
      exact reads_loop_suffix honly (fun token hkind => by rw [suffix?, hkind])
        (reads_callSuffix h honly hnode hfits.2.2 (by omega)) hnext
  | .trailing operand mark, rest, _, _, hfits, hsize, hpower, hends, hnext => by
      rw [size] at hsize
      rw [kinds, List.append_assoc]
      have hcolon : Kind.symbol mark ≠ .symbol .doubleColon := by
        rcases eq_of_mayTrail hfits.2.2 with rfl | rfl <;> decide
      refine reads_climb honly operand hfits.1 (by omega)
        (hpower.trans (leftPower_mono hfits.2.1))
        (ends_of_suffixLevel_le hfits.2.1 hcolon) fun node hnode => ?_
      exact reads_loop_suffix honly (fun token => suffix?_of_mayTrail hfits.2.2)
        (reads_operatorSuffix hnode) hnext
  | .leading mark operand, rest, _, _, hfits, hsize, _, hends, hnext => by
      rw [size] at hsize
      have hoperator : prefixNode? (.symbol mark) = some (.unary, mark.spelling) := by
        rw [prefixNode?, isPrefixSymbol_of_mayLead hfits.2.2, if_pos rfl]
      exact Reads.bind (reads_leading h hoperator hfits.1 hfits.2.1 (by omega)
        (hends.stops (Nat.lt_succ_self _))) hnext
  | .worded word operand, rest, _, _, hfits, hsize, _, hends, hnext => by
      rw [size] at hsize
      have hoperator : prefixNode? (.keyword word) = some (.keywordOp, word.spelling) := by
        rw [prefixNode?, isUnaryWord_of_isOperatorWord hfits.2.2, if_pos rfl]
      exact Reads.bind (reads_leading h hoperator hfits.1 hfits.2.1 (by omega)
        (hends.stops (Nat.lt_succ_self _))) hnext
  | .binary left mark right, rest, _, _, hfits, hsize, hpower, hends, hnext => by
      rw [size] at hsize
      obtain ⟨hleft, hright, level, hlevel, hadmits⟩ := hfits
      have hbinding : power? (.symbol mark) = some ⟨leftPower level, rightPower level⟩ :=
        symbolPower?_of_level hlevel
      have hsame : (binary left mark right).level = level := by
        rw [Expression.level, hlevel, Option.getD_some]
      rw [hsame] at hpower hends
      rw [kinds, List.append_assoc]
      refine reads_climb honly left hleft (by omega)
        (hpower.trans (leftPower_mono hadmits.le_left))
        (hadmits.ends hbinding (lt_of_level hlevel)) fun node hnode => ?_
      exact reads_loop_operator honly hbinding hpower
        (reads_binary h hnode hlevel hright (by omega) hadmits.rightPower_le
          (hends.stops (Nat.lt_succ_of_lt (lt_of_level hlevel)))) hnext
  | .conditional test yes no, rest, _, _, hfits, hsize, hpower, hends, hnext => by
      rw [size] at hsize
      obtain ⟨htest, hyes, hno, hadmits⟩ := hfits
      have hbinding : power? (.symbol .question) =
          some ⟨leftPower conditionalLevel, rightPower conditionalLevel⟩ := rfl
      have hlt : (conditional test yes no).level < suffixLevel := by
        rw [Expression.level]
        decide
      rw [kinds, List.append_assoc, List.cons_append, List.append_assoc]
      refine reads_climb honly test htest (by omega)
        (hpower.trans (leftPower_mono hadmits.le_left))
        (hadmits.ends hbinding (by decide)) fun node hnode => ?_
      exact reads_loop_operator honly hbinding hpower
        (reads_conditional h hnode hyes (by omega) hno (by omega)
          hadmits.rightPower_le (hends.stops hlt)) hnext

/-- The rule for expressions reads one up to where it ends. -/
theorem reads_expressionRule (honly : OnlyTakes nested) {e : Expression} {rest : List Kind}
    (hfits : e.Fits) (hsize : e.size ≤ bound + 1) (hpower : power ≤ leftPower e.level)
    (hstops : Stops power (rest.headD .eof)) :
    Reads nested depth (e.kinds ++ rest) (expressionRule power)
      (fun node => node.shape = e.shape) rest := by
  refine Reads.bind Reads.mark fun m _ => ?_
  refine reads_climb h honly e hfits hsize hpower (hstops.ends hpower) fun node hnode => ?_
  refine (reads_loop_stops honly hstops).weaken ?_
  rintro _ rfl
  exact hnode

end Nested

/-- With enough room for nesting an expression is read where it is called for. -/
theorem readsWithin_parse {limit room depth bound : Nat} (hroom : bound ≤ room)
    (hlimit : depth + bound ≤ limit) : ReadsWithin (Grammar.parse limit room) depth bound := by
  refine Parser.parse_induction (P := ReadsWithin) ?_ ?_ hroom hlimit
  · intro nested depth e power rest _ hsize
    exact absurd hsize (Nat.not_le.mpr e.size_pos)
  · intro limit room depth bound hdepth _ _ hnested e power rest hfits hsize hpower hstops
    exact Reads.call hdepth
      (reads_expressionRule hnested (onlyTakes_parse limit room) hfits hsize hpower hstops)

/-- Any expression that is written with blanks between its tokens is read as it is meant, to the end
of the text and without a report, if constructs may nest as deeply as it has nodes. -/
theorem written_expression_is_read (e : Expression) (hfits : e.Fits) (options : Options)
    (hdepth : e.size + 1 ≤ options.maxNestingDepth) :
    let read := expression.runWithin options.limit (start (Token.written e.kinds) options)
    read.1.shape = e.shape ∧ read.2.isAtEnd = true ∧ read.2.diagnostics = [] := by
  have hlimit : 0 + e.size ≤ options.limit := by
    rw [Options.limit]
    omega
  have hwithin : ReadsWithin (Grammar.parse options.limit options.limit) 0 e.size :=
    readsWithin_parse (by omega) hlimit
  have hreads := hwithin e 0 [] hfits (Nat.le_refl _) (Nat.zero_le _)
    (stops_of_power?_eq_none 0 (by decide) rfl rfl)
  rw [List.append_nil] at hreads
  have hstart := clear_start (legible_kinds hfits) options
  obtain ⟨hshape, hclear⟩ := hreads _ hstart
  refine ⟨hshape, ?_, ?_⟩
  · exact State.isAtEnd_iff.mpr (List.map_eq_nil_iff.mp hclear.kinds_eq)
  · exact congrArg List.reverse hclear.reported_eq

/-- The expression `x += - a . keys [ 0 ] ( b , 1 + 2 * 3 ) ++ ? y = 4 : c ?? exists ( d =~ e )`. -/
def mixed : Expression :=
  let called := call (index (member (name "a") "keys") (integer 0))
    [name "b", binary (integer 1) .plus (binary (integer 2) .star (integer 3))]
  binary (name "x") .plusAssign
    (conditional (leading .minus (trailing called .plusPlus))
      (binary (name "y") .assign (integer 4))
      (binary (name "c") .questionQuestion
        (worded .exists (paren (binary (name "d") .match (name "e"))))))

theorem written_expression_is_read_mixed :
    mixed.Fits ∧ mixed.size + 1 ≤ Options.standard.maxNestingDepth ∧
      let read := expression.runWithin Options.standard.limit
        (start (Token.written mixed.kinds) Options.standard)
      read.1.shape = mixed.shape ∧ read.2.isAtEnd = true ∧ read.2.diagnostics = [] :=
  have hfits : mixed.Fits := by decide
  have hdepth : mixed.size + 1 ≤ Options.standard.maxNestingDepth := by decide
  ⟨hfits, hdepth, written_expression_is_read mixed hfits Options.standard hdepth⟩

end Expression

end QoreSyntax

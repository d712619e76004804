import QoreSyntax.Proofs.Expression.Tree
import QoreSyntax.Proofs.Token.Legible

namespace QoreSyntax

open Token (Kind)

namespace Token

/-- An expression may begin with the token. -/
def Kind.beginsExpression : Kind → Bool
  | .identifier _ | .integer _ => true
  | .symbol mark => mark == .lParen || mark.mayLead
  | .keyword word => Expression.isOperatorWord word
  | _ => false

theorem Kind.beginsWithSlash_eq {kind : Kind} (h : kind.beginsExpression = true) :
    kind.beginsWithSlash = false := by
  cases kind with
  | symbol mark =>
      revert h
      cases mark <;> decide
  | _ => rfl

end Token

namespace Expression

theorem wordKind_of_some {name : String} {word : Keyword} (h : Keyword.ofWord? name = some word) :
    wordKind name = .keyword word := by
  rw [wordKind, h]

theorem wordKind_of_none {name : String} (h : Keyword.ofWord? name = none) :
    wordKind name = .identifier name := by
  rw [wordKind, h]

theorem isPlain_wordKind {name : String} (h : Token.isName name.toList = true) :
    (wordKind name).IsPlain := by
  rw [wordKind]
  split
  · trivial
  · rename_i hword
    exact ⟨h, hword⟩

theorem isMatch_wordKind (name : String) : (wordKind name).isMatch = false := by
  rw [wordKind]
  split <;> rfl

/-- The first token of an expression. -/
theorem exists_kinds_cons : ∀ e : Expression, e.Fits →
    ∃ kind rest, e.kinds = kind :: rest ∧ kind.beginsExpression = true
  | .name _, _ | .integer _, _ | .paren _, _ => ⟨_, _, rfl, rfl⟩
  | .member object _, h | .index object _, h | .call object _, h | .trailing object _, h => by
      obtain ⟨kind, rest, hkinds, hbegins⟩ := exists_kinds_cons object h.1
      exact ⟨kind, _, by rw [kinds, hkinds, List.cons_append], hbegins⟩
  | .leading _ _, h => ⟨_, _, rfl, by
      rw [Kind.beginsExpression, h.2.2, Bool.or_true]⟩
  | .worded _ _, h => ⟨_, _, rfl, h.2.2⟩
  | .binary left _ _, h | .conditional left _ _, h => by
      obtain ⟨kind, rest, hkinds, hbegins⟩ := exists_kinds_cons left h.1
      exact ⟨kind, _, by rw [kinds, hkinds, List.cons_append], hbegins⟩

theorem beginsExpression_head {e : Expression} (h : e.Fits) (behind : List Kind) :
    ((e.kinds ++ behind).headD .eof).beginsExpression = true := by
  obtain ⟨kind, rest, hkinds, hbegins⟩ := exists_kinds_cons e h
  rw [hkinds]
  exact hbegins

theorem argumentKinds_eq_commas : ∀ arguments : List Expression,
    argumentKinds arguments = Token.commas (arguments.map kinds)
  | [] => rfl
  | [e] => (Token.commas_singleton e.kinds).symm
  | e :: e' :: rest => by
      rw [argumentKinds, argumentKinds_eq_commas (e' :: rest)]
      exact (Token.commas_cons_cons _ _ _).symm

theorem shapes_eq_map (arguments : List Expression) : shapes arguments = arguments.map shape := by
  induction arguments with
  | nil => rfl
  | cons e arguments ih => rw [shapes, ih, List.map_cons]

theorem fits_of_mem {arguments : List Expression} (h : AllFit arguments) {e : Expression}
    (hmem : e ∈ arguments) : e.Fits := by
  induction arguments with
  | nil => cases hmem
  | cons first arguments ih =>
      rcases List.mem_cons.mp hmem with rfl | hmem
      · exact h.1
      · exact ih h.2 hmem

theorem size_le_of_mem {arguments : List Expression} {e : Expression} (hmem : e ∈ arguments) :
    e.size ≤ sizes arguments := by
  induction arguments with
  | nil => cases hmem
  | cons first arguments ih =>
      rw [sizes]
      rcases List.mem_cons.mp hmem with rfl | hmem
      · omega
      · have hle := ih hmem
        omega

mutual

/-- Legible tokens stay so with an expression in front of them. -/
theorem legible_append : ∀ (e : Expression), e.Fits → ∀ {ks}, Token.Legible ks →
    Token.Legible (e.kinds ++ ks)
  | .name _, h, _, hks => hks.cons_of_isMatch_eq h rfl
  | .integer _, h, _, hks => hks.cons_of_isMatch_eq h rfl
  | .paren inner, h, ks, hks => by
      have hclose := hks.symbol .rParen rfl
      have hinner := legible_append inner h hclose
      rw [kinds, List.cons_append, List.append_assoc]
      exact hinner.symbol .lParen rfl
  | .member object title, h, ks, hks => by
      have htitle := hks.cons_of_isMatch_eq (isPlain_wordKind h.2.2) (isMatch_wordKind title)
      have hdot := htitle.symbol .dot rfl
      rw [kinds, List.append_assoc]
      exact legible_append object h.1 hdot
  | .index object key, h, ks, hks => by
      have hclose := hks.symbol .rBracket rfl
      have hkey := legible_append key h.2.2 hclose
      have hopen := hkey.symbol .lBracket rfl
      rw [kinds, List.append_assoc, List.cons_append, List.append_assoc]
      exact legible_append object h.1 hopen
  | .call function arguments, h, ks, hks => by
      have hclose := hks.symbol .rParen rfl
      have harguments := legible_arguments_append arguments h.2.2 hclose
      have hopen := harguments.symbol .lParen rfl
      rw [kinds, List.append_assoc, List.cons_append, List.append_assoc]
      exact legible_append function h.1 hopen
  | .trailing operand mark, h, ks, hks => by
      have hmatch : (Kind.symbol mark).isMatch = false := by
        have hmark := h.2.2
        revert hmark
        cases mark <;> decide
      rw [kinds, List.append_assoc]
      exact legible_append operand h.1 (hks.symbol mark hmatch)
  | .leading mark operand, h, ks, hks => by
      have hmatch : (Kind.symbol mark).isMatch = false := by
        have hmark := h.2.2
        revert hmark
        cases mark <;> decide
      exact (legible_append operand h.1 hks).symbol mark hmatch
  | .worded _ operand, h, _, hks =>
      (legible_append operand h.1 hks).cons_of_isMatch_eq trivial rfl
  | .binary left mark right, h, ks, hks => by
      obtain ⟨kind, rest, hkinds, hbegins⟩ := exists_kinds_cons right h.2.1
      have hright := legible_append right h.2.1 hks
      rw [kinds, List.append_assoc]
      refine legible_append left h.1 (hright.cons trivial fun _ next hnext => ?_)
      rw [hkinds] at hnext
      obtain rfl : kind = next := Option.some.inj hnext
      exact kind.beginsWithSlash_eq hbegins
  | .conditional test yes no, h, ks, hks => by
      have hno := legible_append no h.2.2.1 hks
      have hcolon := hno.symbol .colon rfl
      have hyes := legible_append yes h.2.1 hcolon
      have hquestion := hyes.symbol .question rfl
      rw [kinds, List.append_assoc, List.cons_append, List.append_assoc]
      exact legible_append test h.1 hquestion

theorem legible_arguments_append : ∀ (arguments : List Expression), AllFit arguments → ∀ {ks},
    Token.Legible ks → Token.Legible (argumentKinds arguments ++ ks)
  | [], _, _, hks => hks
  | [e], h, _, hks => legible_append e h.1 hks
  | e :: e' :: rest, h, ks, hks => by
      have hrest := legible_arguments_append (e' :: rest) h.2 hks
      have hcomma := hrest.symbol .comma rfl
      rw [argumentKinds, List.append_assoc]
      exact legible_append e h.1 hcomma

end

/-- The tokens of an expression are read back when they are written. -/
theorem legible_kinds {e : Expression} (h : e.Fits) : Token.Legible e.kinds := by
  have happend := legible_append e h Token.Legible.nil
  rwa [List.append_nil] at happend

end Expression

end QoreSyntax

import QoreSyntax.Proofs.Grammar.Cap
import QoreSyntax.Proofs.Grammar.Nesting.Statement

namespace QoreSyntax.Grammar

open Grammar.Parser (Yields)
open Node (nestings)

theorem nesting_rule {nested : Goal → State → Node × State} {n : Nat}
    (h : ∀ goal, Yields nested (.call goal .done) (·.nesting ≤ n)) (goal : Goal) :
    Yields nested goal.rule (·.nesting ≤ n + 4) := by
  cases goal with
  | statement => exact nesting_statementRule h
  | expression power =>
      exact (nesting_expressionRule h power).upTo (Nat.le_succ _)
  | type => exact (nesting_typeRule h).upTo (by omega)

theorem nesting_refuse (limit : Nat) (s : State) : (s.refuse limit).1.nesting ≤ 1 :=
  Node.nesting_le _ _ _ _

theorem nesting_parse (limit room : Nat) (goal : Goal) :
    Yields (parse limit room) (.call goal .done) (·.nesting ≤ 4 * room + 1) := by
  induction room generalizing goal with
  | zero => exact nesting_refuse limit
  | succ room ih =>
      intro s
      change (parse limit (room + 1) goal s).1.nesting ≤ _
      rw [parse]
      split_ifs
      · exact Nat.le_trans (nesting_refuse limit s) (by omega)
      · exact nesting_rule ih goal _

theorem nesting_script (options : Options) (s : State) {root : Node}
    (hroot : (script options s).1.root? = some root) : root.nesting ≤ 4 * options.limit + 2 := by
  rw [script] at hroot
  split_ifs at hroot
  · cases hroot
  · rw [← Option.some.inj hroot]
    have hitems : nestings ((sequence .endOfInput statement).runWithin options.limit s).1
        ≤ 4 * options.limit + 1 :=
      (nesting_parse options.limit options.limit .statement).sequence .endOfInput s
    exact Nat.le_trans (Node.nesting_le _ _ _ _) (Nat.succ_le_succ hitems)

/-- The tree nests as deeply as the limit allows. If the limit has cut something off, this has been
reported: without a report every greater limit gives the same. -/
theorem nesting_is_limited (text : List Char) (options : Options) :
    (∀ root, (QoreSyntax.parse text options).1.root? = some root →
      root.nesting ≤ 8 * (max options.maxNestingDepth 1 + 1)) ∧
    ((QoreSyntax.parse text options).2 = [] → ∀ depth, options.maxNestingDepth ≤ depth →
      QoreSyntax.parse text { options with maxNestingDepth := depth }
        = QoreSyntax.parse text options) := by
  refine ⟨fun root hroot => ?_, fun hclean depth hdepth =>
    parse_of_limit_le text options hdepth hclean⟩
  have hnesting := nesting_script options _ hroot
  rw [Options.limit] at hnesting
  omega

/-- The height of a tree is not limited: the chain of thirty suffixes in `x.a.a.a;` and so on is
read at the second level and without a report. -/
theorem height_is_not_limited :
    ¬∀ (text : List Char) (options : Options) (root : Node),
      (QoreSyntax.parse text options).1.root? = some root →
        root.height ≤ 8 * (max options.maxNestingDepth 1 + 1) := by
  intro h
  let text : List Char := 'x' :: (List.replicate 30 ['.', 'a']).flatten ++ [';']
  let options : Options := { Options.standard with maxNestingDepth := 2 }
  have hheight : (QoreSyntax.parse text options).1.root?.map Node.height = some 33 := by
    decide +kernel
  obtain ⟨root, hroot, hroot33⟩ := Option.map_eq_some_iff.mp hheight
  have hle := h text options root hroot
  rw [hroot33] at hle
  exact absurd hle (by decide)

end QoreSyntax.Grammar

import QoreSyntax.Grammar.Script
import QoreSyntax.Proofs.Grammar.Schema.Statement

namespace QoreSyntax.Grammar

open Node (Kind)
open Grammar.Parser (Yields)

namespace Schema

variable {nested : Goal → State → Node × State}

theorem rule_isRegular (h : Sound nested) (goal : Goal) :
    Yields nested goal.rule (·.IsRegular) := by
  cases goal with
  | statement => exact statementRule_isRegular h
  | expression power => exact expressionRule_isRegular h power
  | type => exact (typeRule_isOf h).regular

theorem refuse_isOf (limit : Nat) (s : State) : (s.refuse limit).1.IsOf Kind.isTypePlace :=
  ⟨Node.isRegular_of_children (List.forall_mem_nil _) rfl, rfl⟩

/-- What a run of the rule yields is what is read, if it is not refused. -/
theorem yields_parse {limit room : Nat} {goal : Goal} {P : Node → Prop}
    (hrefuse : ∀ s : State, P (s.refuse limit).1)
    (hrule : Yields (parse limit room) goal.rule P) :
    Yields (parse limit (room + 1)) (.call goal .done) P := by
  intro s
  change P (parse limit (room + 1) goal s).1
  rw [parse]
  split_ifs
  · exact hrefuse s
  · exact hrule _

theorem sound_parse (limit room : Nat) : Sound (parse limit room) := by
  induction room with
  | zero => exact ⟨fun _ s => (refuse_isOf limit s).1, refuse_isOf limit⟩
  | succ room ih =>
      refine ⟨fun goal => ?_, ?_⟩
      · exact yields_parse (fun s => (refuse_isOf limit s).1) (rule_isRegular ih goal)
      · exact yields_parse (refuse_isOf limit) (typeRule_isOf ih)

end Schema

/-- Each node of a tree has as many children as its kind promises, and of the kinds that it
promises, whatever mistakes there are in the text and however little may nest. -/
theorem children_are_as_promised (text : List Char) (options : Options) :
    (QoreSyntax.parse text options).1.walk.all Node.conforms = true := by
  rw [QoreSyntax.parse, script]
  split_ifs
  · rfl
  · rw [List.all_eq_true]
    intro node hmem
    change node ∈ Node.walk _ at hmem
    rw [Node.walk_eq_preorder] at hmem
    have hsound := Schema.sound_parse options.limit options.limit
    have hitems := (hsound.call .statement).each_sequence .endOfInput (start text options)
    exact Node.isRegular_of_children hitems rfl node hmem

end QoreSyntax.Grammar

import QoreSyntax.Proofs.Grammar.Account.Statement

namespace QoreSyntax.Grammar.Account

variable {A : Account} {nested : Goal → State → Node × State}

theorem lays_rule (h : A.Sound nested) (goal : Goal) : A.Lays nested goal.rule ([·]) := by
  cases goal with
  | statement => exact lays_statementRule h
  | expression power => exact lays_expressionRule h power
  | type => exact lays_typeRule h

/-- A construct beyond the limit is reported, which is the excuse for the node that stands for
it. -/
theorem holds_refuse (limit : Nat) {s : State} (hs : A.Ready s) :
    A.Holds s [(s.refuse limit).1] (s.refuse limit).2 := by
  have hreported := excused_report (A.nil hs) (.tooDeep limit)
  have hskipped : A.Follows (s.report (.tooDeep limit)) (s.refuse limit).2 :=
    A.isTrail.advanceMany _ _ (holds_ready hreported.1)
  exact A.close .none (A.extend hreported.1 hskipped)
    (fun _ => ⟨rfl, A.excuses_follows hreported.2 hskipped⟩) nofun

theorem sound_parse (A : Account) (limit room : Nat) : A.Sound (parse limit room) := by
  induction room with
  | zero => exact fun _ s hs => holds_refuse limit hs
  | succ room ih =>
      intro goal s hs
      rw [parse]
      split_ifs
      · exact holds_refuse limit hs
      · have hnest := A.isTrail.nest (s.depth + 1) s hs
        have hrule := lays_rule ih goal _ (A.ready hnest)
        have hnode := A.append (A.extend (A.nil hs) hnest) hrule
        exact A.extend hnode (A.isTrail.nest _ _ (holds_ready hnode))

/-- The account is kept of the statements of a text. -/
theorem holds_statements (A : Account) (limit : Nat) {s : State} (hs : A.Ready s) :
    let read := (sequence .endOfInput statement).runWithin limit s
    A.Holds s read.1 read.2 :=
  Lays.sequence (A.sound_parse limit limit) (lays_call (A.sound_parse limit limit) .statement)
    .endOfInput s hs

end QoreSyntax.Grammar.Account

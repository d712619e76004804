import QoreSyntax.Grammar.Script
import QoreSyntax.Proofs.Grammar.State

namespace QoreSyntax.Grammar

/-- The relation leads from a state to what comes after it, whatever the instructions are. -/
structure IsTrail (R : State → State → Prop) : Prop where
  refl (s : State) : R s s
  trans {s t u : State} : R s t → R t u → R s u
  advance (s : State) : R s s.advance
  splitShift (s : State) : R s s.splitShift
  report (problem : Problem) (s : State) : R s (s.report problem)
  resume (s : State) : R s s.resume
  nest (depth : Nat) (s : State) : R s { s with depth := depth }

namespace IsTrail

variable {R : State → State → Prop}

theorem run (hR : IsTrail R) {nested : Goal → State → Node × State}
    (hnested : ∀ goal s, R s (nested goal s).2) {α : Type} (parser : Parser α) (s : State) :
    R s (parser.run nested s).2 := by
  induction parser generalizing s with
  | done result => exact hR.refl s
  | look next ih => exact ih s s
  | advance next ih => exact hR.trans (hR.advance s) (ih s.current s.advance)
  | splitShift next ih => exact hR.trans (hR.splitShift s) (ih s.splitShift)
  | report problem next ih => exact hR.trans (hR.report problem s) (ih (s.report problem))
  | resume next ih => exact hR.trans (hR.resume s) (ih s.resume)
  | call goal next ih => exact hR.trans (hnested goal s) (ih _ _)

theorem advanceMany (hR : IsTrail R) (n : Nat) (s : State) : R s (s.advanceMany n) := by
  induction n generalizing s with
  | zero => exact hR.refl s
  | succ n ih => exact hR.trans (hR.advance s) (ih s.advance)

theorem refuse (hR : IsTrail R) (limit : Nat) (s : State) : R s (s.refuse limit).2 :=
  hR.trans (hR.report (.tooDeep limit) s) (hR.advanceMany _ _)

theorem parse (hR : IsTrail R) (limit room : Nat) (goal : Goal) (s : State) :
    R s (parse limit room goal s).2 := by
  induction room generalizing goal s with
  | zero => exact hR.refuse limit s
  | succ room ih =>
      rw [Grammar.parse]
      split_ifs
      · exact hR.refuse limit s
      · exact hR.trans (hR.nest _ s) (hR.trans (hR.run ih goal.rule _) (hR.nest _ _))

theorem runWithin (hR : IsTrail R) (limit : Nat) {α : Type} (parser : Parser α) (s : State) :
    R s (parser.runWithin limit s).2 :=
  hR.run (hR.parse limit limit) parser s

theorem expressions (hR : IsTrail R) (limit count : Nat) (s : State) :
    R s (expressions limit count s).2 := by
  induction count generalizing s with
  | zero => exact hR.refl s
  | succ count ih => exact hR.trans (hR.runWithin limit expression s) (ih _)

end IsTrail

namespace State

theorem isTrail_reaches : IsTrail Reaches where
  refl := Reaches.refl
  trans := Reaches.trans
  advance := Reaches.advance
  splitShift := Reaches.splitShift
  report := Reaches.report
  resume := Reaches.resume
  nest := Reaches.nest

end State

end QoreSyntax.Grammar

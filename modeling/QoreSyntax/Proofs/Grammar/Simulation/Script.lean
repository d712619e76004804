import QoreSyntax.Proofs.Grammar.Simulation.Statement

namespace QoreSyntax.Grammar.Simulation

variable {M : Simulation} {s t : State}

theorem Nesting.matches_rule (N : M.Nesting) (goal : Goal) :
    N.Matches goal.rule goal.rule M.Nodes := by
  cases goal with
  | statement => exact N.matches_statementRule
  | expression power => exact N.matches_expressionRule power
  | type => exact N.matches_typeRule

theorem lost_or_related_advanceMany (n : Nat) (hst : M.Related s t) :
    M.Lost (s.advanceMany n) ∨ M.Related (s.advanceMany n) (t.advanceMany n) := by
  induction n generalizing s t with
  | zero => exact Or.inr hst
  | succ n ih =>
      by_cases hlost : M.Lost s
      · exact Or.inl (M.isTrail_lost.advanceMany (n + 1) s hlost)
      · exact ih (M.advance hst hlost)

/-- A construct beyond the limit is passed over in both parses. -/
theorem outcome_refuse (limit : Nat) (hst : M.Related s t) :
    M.Outcome M.Nodes (s.refuse limit) (t.refuse limit) := by
  by_cases hlost : M.Lost s
  · exact Or.inl (M.isTrail_lost.refuse limit s hlost)
  · rcases M.report (.tooDeep limit) hst hlost with hreport | hreport
    · exact Or.inl (M.isTrail_lost.advanceMany _ _ hreport)
    · by_cases hlost' : M.Lost (s.report (.tooDeep limit))
      · exact Or.inl (M.isTrail_lost.advanceMany _ _ hlost')
      · have hskipped := (M.resembles hreport hlost').skipped rfl
        have hsame : (t.report (.tooDeep limit)).skipConstruct
            = (t.report (.tooDeep limit)).advanceMany
              (constructLength 0 0 (s.report (.tooDeep limit)).pending) := by
          rw [State.skipConstruct, Nesting.constructLength_eq hskipped]
        rcases lost_or_related_advanceMany _ hreport with hskip | hskip
        · exact Or.inl hskip
        · refine Or.inr ⟨?_, ?_⟩
          · rw [State.refuse, State.refuse, hsame]
            exact M.close .error .none hskip (M.mark hst hlost) .nil
          · rw [State.refuse, State.refuse, hsame]
            exact hskip

theorem lost_parse (limit room : Nat) (goal : Goal) (s : State) (h : M.Lost s) :
    M.Lost (Grammar.parse limit room goal s).2 :=
  M.isTrail_lost.parse limit room goal s h

section Limits

variable {limit room limit' room' : Nat}

/-- Both parses call for the constructs of the grammar. -/
def Nesting.ofParse
    (h : ∀ goal s t, M.Related s t →
      M.Outcome M.Nodes (Grammar.parse limit room goal s) (Grammar.parse limit' room' goal t)) :
    M.Nesting where
  one := Grammar.parse limit room
  other := Grammar.parse limit' room'
  onlyTakes_one := onlyTakes_parse limit room
  onlyTakes_other := onlyTakes_parse limit' room'
  lost := lost_parse limit room
  outcome := h

/-- A construct is read one level deeper than the one that calls for it. -/
theorem outcome_nested
    (h : ∀ goal s t, M.Related s t →
      M.Outcome M.Nodes (Grammar.parse limit room goal s) (Grammar.parse limit' room' goal t))
    (goal : Goal) (hst : M.Related s t) :
    M.Outcome M.Nodes
      (let (node, after) := goal.rule.run (Grammar.parse limit room) { s with depth := s.depth + 1 }
       (node, { after with depth := after.depth - 1 }))
      (let (node, after) :=
        goal.rule.run (Grammar.parse limit' room') { t with depth := t.depth + 1 }
       (node, { after with depth := after.depth - 1 })) := by
  rw [M.depth_eq hst]
  have hrule : M.Outcome M.Nodes
      (goal.rule.run (Grammar.parse limit room) { s with depth := s.depth + 1 })
      (goal.rule.run (Grammar.parse limit' room') { t with depth := s.depth + 1 }) :=
    (Nesting.ofParse h).matches_rule goal _ _ (M.nest (s.depth + 1) hst)
  generalize goal.rule.run (Grammar.parse limit room) { s with depth := s.depth + 1 } = one
    at hrule ⊢
  generalize goal.rule.run (Grammar.parse limit' room') { t with depth := s.depth + 1 } = other
    at hrule ⊢
  rcases hrule with hlost | ⟨hnode, hafter⟩
  · exact Or.inl (M.isTrail_lost.nest _ _ hlost)
  · refine Or.inr ⟨hnode, ?_⟩
    dsimp only
    rw [M.depth_eq hafter]
    exact M.nest _ hafter

end Limits

theorem outcome_parse (limit room : Nat) (goal : Goal) (s t : State) (hst : M.Related s t) :
    M.Outcome M.Nodes (Grammar.parse limit room goal s) (Grammar.parse limit room goal t) := by
  induction room generalizing goal s t with
  | zero => exact outcome_refuse limit hst
  | succ room ih =>
      rw [Grammar.parse, Grammar.parse]
      by_cases hdepth : limit ≤ s.depth
      · rw [if_pos hdepth, if_pos (M.depth_eq hst ▸ hdepth)]
        exact outcome_refuse limit hst
      · rw [if_neg hdepth, if_neg (M.depth_eq hst ▸ hdepth)]
        exact outcome_nested ih goal hst

/-- Where a report is reason enough to be lost, the second parse may have more room than the first
one. -/
theorem outcome_parse_of_le
    (hreport : ∀ s t problem, M.Related s t → M.Lost (s.report problem)) {limit limit' : Nat}
    (hlimit : limit ≤ limit') {room room' : Nat} (hroom : room ≤ room') (goal : Goal)
    (s t : State) (hst : M.Related s t) :
    M.Outcome M.Nodes (Grammar.parse limit room goal s)
      (Grammar.parse limit' room' goal t) := by
  have hrefuse : ∀ s t, M.Related s t → M.Lost (s.refuse limit).2 := fun s t h =>
    M.isTrail_lost.advanceMany _ _ (hreport s t _ h)
  induction room generalizing room' goal s t with
  | zero => exact Or.inl (hrefuse s t hst)
  | succ room ih =>
      obtain ⟨room', rfl⟩ : ∃ m, room' = m + 1 := Nat.exists_eq_succ_of_ne_zero (by omega)
      rw [Grammar.parse, Grammar.parse]
      by_cases hdepth : limit ≤ s.depth
      · rw [if_pos hdepth]
        exact Or.inl (hrefuse s t hst)
      · have hdepth' : ¬limit' ≤ t.depth := by
          rw [M.depth_eq hst]
          omega
        rw [if_neg hdepth, if_neg hdepth']
        exact outcome_nested
          (fun goal s t h => ih (Nat.le_of_succ_le_succ hroom) goal s t h) goal hst

/-- Both parses read the same statements. -/
theorem outcome_statements (limit : Nat) (hst : M.Related s t) :
    M.Outcome (List.Forall₂ M.Nodes)
      ((sequence .endOfInput statement).runWithin limit s)
      ((sequence .endOfInput statement).runWithin limit t) :=
  ((Nesting.ofParse (outcome_parse limit limit)).call .statement).sequence .endOfInput s t hst

theorem outcome_statements_of_le
    (hreport : ∀ s t problem, M.Related s t → M.Lost (s.report problem)) {limit limit' : Nat}
    (hlimit : limit ≤ limit') (hst : M.Related s t) :
    M.Outcome (List.Forall₂ M.Nodes)
      ((sequence .endOfInput statement).runWithin limit s)
      ((sequence .endOfInput statement).runWithin limit' t) :=
  ((Nesting.ofParse (outcome_parse_of_le hreport hlimit hlimit)).call .statement).sequence
    .endOfInput s t hst

end QoreSyntax.Grammar.Simulation

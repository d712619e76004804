import QoreSyntax.Proofs.Grammar.Closing

namespace QoreSyntax.Grammar

namespace Simulation.Nesting

variable {rest : List Token} {last : Token} {hlast : last.isEof = true}

theorem doomed_refuse (limit : Nat) {s : State} (hs : s.Honest) : (s.refuse limit).2.Doomed :=
  (State.isTrail_faulty.advanceMany _ _ (hs.faulty_report (.tooDeep limit))).doomed

/-- A statement ends if the rule for statements does, whether it may nest as deeply or not. -/
theorem ends_parse (limit room : Nat)
    (hrule : (Nesting.ofParse (M := continuation rest hlast) (outcome_parse limit room)).Ends
      statementRule) :
    (Nesting.ofParse (M := continuation rest hlast) (outcome_parse limit (room + 1))).Ends
      Grammar.statement := by
  intro s t
  constructor
  · intro hadrift
    change (Grammar.parse limit (room + 1) .statement s).2.Doomed
    rw [Grammar.parse]
    split_ifs
    · exact doomed_refuse limit hadrift.honest
    · have hnest := State.isTrail_adrift.nest (s.depth + 1) s hadrift
      exact ((hrule _ t).adrift hnest).nest _
  · intro hst _
    change (Grammar.parse limit (room + 1) .statement s).2.Doomed ∨
      (Grammar.parse limit (room + 1) .statement s).1
          = (Grammar.parse limit (room + 1) .statement t).1 ∧
        (continuation rest hlast).Related (Grammar.parse limit (room + 1) .statement s).2
          (Grammar.parse limit (room + 1) .statement t).2
    rw [Grammar.parse, Grammar.parse, ← hst.2]
    by_cases hdepth : limit ≤ s.depth
    · rw [if_pos hdepth]
      exact Or.inl (doomed_refuse limit hst.1)
    · have hnest := (continuation rest hlast).nest (s.depth + 1) hst
      rw [if_neg hdepth, if_neg (show ¬limit ≤ (s.followedBy rest last).depth from hdepth)]
      rcases hrule.concludes (hst.2 ▸ hnest) with hdoomed | ⟨hnode, hafter⟩
      · exact Or.inl (hdoomed.nest _)
      · refine Or.inr ⟨hnode, (State.isTrail_upholds.nest _ _ hafter.1).honest, ?_⟩
        exact congrArg (fun t : State => { t with depth := t.depth - 1 }) hafter.2

/-- However deeply statements may nest, they end. -/
theorem orderly_parse (hlast : last.isEof = true)
    (hbehind : (rest.head?.getD last).kind ≠ .keyword .else) (limit room : Nat) :
    (Nesting.ofParse (M := continuation rest hlast) (outcome_parse limit room)).Orderly := by
  induction room with
  | zero =>
      refine ⟨State.isTrail_faulty.parse limit 0, fun s t => ?_, hbehind⟩
      exact ⟨fun hadrift => doomed_refuse limit hadrift.honest,
        fun hst _ => Or.inl (doomed_refuse limit hst.1)⟩
  | succ room ih =>
      exact ⟨State.isTrail_faulty.parse limit (room + 1),
        ends_parse limit room ih.ends_statementRule, hbehind⟩

variable {N : (continuation rest hlast).Nesting} (h : N.Orderly)
include h

/-- What a sequence does behind an item: it makes sure that there is progress. -/
def settled (before : State) (node : Node) (items : List Node) : Parser (Step (List Node)) := do
  let after ← state
  settle
  ensureProgress before
  return .again (if before.consumed < after.consumed then node :: items else items)

omit h in
/-- Without a mistake nothing is done if there has been progress, and a report is made if there has
been none. -/
theorem run_settled {before : State} (hbefore : before.reported = []) (node : Node)
    (items : List Node) {s : State} (hrecovering : s.recovering = false)
    (hreported : s.reported = []) (nested : Goal → State → Node × State) :
    (settled before node items).run nested s =
      if s.consumed = before.consumed then
        (Grammar.advance >>= fun _ => Grammar.resume >>= fun _ => pure (Step.again
          (if before.consumed < s.consumed then node :: items else items))).run nested
          (s.report (.unexpected s.kind))
      else (.again (if before.consumed < s.consumed then node :: items else items), s) := by
  have hsettled : (settled before node items).run nested s
      = (ensureProgress before >>= fun _ => pure (Step.again
          (if before.consumed < s.consumed then node :: items else items))).run nested s := by
    change Parser.run nested ((if s.recovering = true then synchronize else pure ()) >>= _) s = _
    rw [hrecovering, if_neg Bool.false_ne_true]
    rfl
  rw [hsettled]
  by_cases hsame : s.consumed = before.consumed
  · rw [if_pos hsame, ensureProgress]
    have hlength : s.reported.length = before.reported.length := by rw [hreported, hbefore]
    simp only [Parser.run_bind, Grammar.state, Parser.run, hsame, hlength, beq_self_eq_true,
      if_true]
    rfl
  · rw [if_neg hsame]
    have hbeq : (s.consumed == before.consumed) = false := beq_eq_false_iff_ne.mpr hsame
    change Parser.run nested
      ((if (s.consumed == before.consumed) = true then _ else pure ()) >>= _) s = _
    rw [hbeq, if_neg Bool.false_ne_true]
    rfl

/-- What a sequence does behind an item goes unnoticed, unless there has been a mistake. -/
theorem follows_settled {before : State} (hbefore : before.reported = []) (node : Node)
    (items : List Node) : N.Follows (settled before node items) := by
  have hclean : ∀ {s : State}, s.Honest → ¬s.Blamed → s.recovering = false ∧ s.reported = [] := by
    intro s hs hblamed
    refine ⟨?_, by_contra fun hne => hblamed (Or.inl hne)⟩
    rw [← Bool.not_eq_true]
    exact fun hrecovering => hblamed (hs.blamed hrecovering)
  constructor
  · intro s hs
    by_cases hblamed : s.Blamed
    · exact h.doomed_run _ ⟨hs.honest, hblamed⟩
    · obtain ⟨hrecovering, hreported⟩ := hclean hs.honest hblamed
      rw [run_settled hbefore node items hrecovering hreported]
      by_cases hsame : s.consumed = before.consumed
      · rw [if_pos hsame]
        exact h.doomed_run _ (hs.honest.faulty_report _)
      · rw [if_neg hsame]
        exact hs
  · intro s t hst
    by_cases hblamed : s.Blamed
    · exact Or.inl (h.doomed_run _ ⟨hst.1, hblamed⟩)
    · obtain ⟨hrecovering, hreported⟩ := hclean hst.1 hblamed
      obtain ⟨hs, rfl⟩ := hst
      rw [run_settled hbefore node items hrecovering hreported,
        run_settled (s := s.followedBy rest last) hbefore node items hrecovering hreported]
      by_cases hsame : s.consumed = before.consumed
      · rw [if_pos hsame]
        exact Or.inl (h.doomed_run _ (hs.faulty_report _))
      · rw [if_neg hsame, if_neg (show ¬(s.followedBy rest last).consumed = _ from hsame)]
        exact Or.inr ⟨rfl, hs, rfl⟩

omit h in
/-- As long as there are tokens ahead, a step of a sequence reads a statement. -/
theorem run_sequenceStep {s : State} (hpending : s.pending ≠ []) (items : List Node)
    (nested : Goal → State → Node × State) :
    (sequenceStep .endOfInput Grammar.statement items).run nested s =
      if s.isAt .rBrace then
        (Grammar.advance >>= fun _ => Grammar.resume >>= fun _ =>
          pure (Step.again items)).run nested (s.report .unmatchedBrace)
      else (Grammar.statement >>= fun node => settled s node items).run nested s := by
  have hopen : Terminator.endOfInput.holds s = false := by
    rw [Terminator.holds.eq_def, Bool.or_false, State.isAtEnd]
    exact List.isEmpty_eq_false_iff.mpr hpending
  change Parser.run nested (if Terminator.endOfInput.holds s = true then _ else _) s = _
  rw [hopen, if_neg Bool.false_ne_true]
  split_ifs <;> rfl

omit h in
theorem run_sequenceStep_nil {s : State} (hpending : s.pending = []) (items : List Node)
    (nested : Goal → State → Node × State) :
    (sequenceStep .endOfInput Grammar.statement items).run nested s = (.done items, s) := by
  have hends : Terminator.endOfInput.holds s = true := by
    rw [Terminator.holds.eq_def, Bool.or_false, State.isAtEnd, hpending]
    rfl
  change Parser.run nested (if Terminator.endOfInput.holds s = true then _ else _) s = _
  rw [if_pos hends]
  rfl

omit h in
theorem exists_again {s : State} (hpending : s.pending ≠ []) (items : List Node)
    (nested : Goal → State → Node × State) :
    ∃ next, ((sequenceStep .endOfInput Grammar.statement items).run nested s).1 = .again next := by
  rw [run_sequenceStep hpending]
  split_ifs
  · exact ⟨items, rfl⟩
  · simp only [settled, Parser.run_bind]
    exact ⟨_, rfl⟩

theorem endsAt_sequenceStep {s t : State} (hpending : s.pending ≠ []) (items : List Node) :
    N.EndsAt s t (sequenceStep .endOfInput Grammar.statement items)
      (sequenceStep .endOfInput Grammar.statement items) := by
  have hstatement : s.reported = [] →
      N.Ends (Grammar.statement >>= fun node => settled s node items) :=
    fun hreported => h.statement.follows fun node => follows_settled h hreported node items
  constructor
  · intro hadrift
    rw [run_sequenceStep hpending]
    split_ifs
    · exact h.doomed_run _ (hadrift.honest.faulty_report _)
    · by_cases hreported : s.reported = []
      · exact (hstatement hreported s t).adrift hadrift
      · exact h.doomed_run _ ⟨hadrift.honest, Or.inl hreported⟩
  · rintro ⟨hs, rfl⟩ hadrift
    have hfollowed : (s.followedBy rest last).pending ≠ [] :=
      List.append_ne_nil_of_left_ne_nil hpending rest
    have hat : (s.followedBy rest last).isAt .rBrace = s.isAt .rBrace := by
      rw [State.isAt, State.isAt, State.kind, State.kind,
        State.current_followedBy rest last hpending]
    rw [run_sequenceStep hpending, run_sequenceStep hfollowed, hat]
    split_ifs
    · exact Or.inl (h.doomed_run _ (hs.faulty_report _))
    · by_cases hreported : s.reported = []
      · exact (hstatement hreported).concludes ⟨hs, rfl⟩
      · exact Or.inl (h.doomed_run _ ⟨hs, Or.inl hreported⟩)

/-- What is doomed stays so up to the end of a sequence. -/
theorem doomed_loop {s : State} (hs : s.Doomed) (items : List Node) :
    ((Grammar.loop (sequenceStep .endOfInput Grammar.statement) items).run N.one s).2.Doomed := by
  refine Parser.Ensures.loop (I := fun _ s => s.Doomed) (fun items s hs => ?_) items s hs
  by_cases hpending : s.pending = []
  · rw [run_sequenceStep_nil hpending]
    exact hs
  · exact (endsAt_sequenceStep h hpending items (t := s)).adrift hs.adrift

/-- A sequence that is read from the longer text reads what the shorter one holds, and then goes on
with the rest. -/
theorem exists_boundary {s t : State} (hst : (continuation rest hlast).Related s t)
    (items : List Node)
    (hsafe : ¬((Grammar.loop (sequenceStep .endOfInput Grammar.statement) items).run
      N.one s).2.Doomed) :
    let read := (Grammar.loop (sequenceStep .endOfInput Grammar.statement) items).run N.one s
    ∃ u, (continuation rest hlast).Related read.2 u ∧
      (Grammar.loop (sequenceStep .endOfInput Grammar.statement) items).run N.other t
        = (Grammar.loop (sequenceStep .endOfInput Grammar.statement) read.1).run N.other u := by
  induction hmeasure : s.remaining using Nat.strongRecOn generalizing s t items with
  | ind n ih =>
      have hone := Parser.shrinks_sequenceStep N.onlyTakes_one .endOfInput Grammar.statement
      have hother := Parser.shrinks_sequenceStep N.onlyTakes_other .endOfInput Grammar.statement
      have hfinal : t.final.isEof = true := hst.2 ▸ hlast
      have hless := hone items s hst.1.isEof_final
      rw [hone.run_loop N.onlyTakes_one items hst.1.isEof_final] at hsafe ⊢
      by_cases hpending : s.pending = []
      · rw [run_sequenceStep_nil hpending]
        exact ⟨t, hst, rfl⟩
      · obtain ⟨next, hnext⟩ := exists_again hpending items N.one
        rw [hother.run_loop N.onlyTakes_other items hfinal]
        have hstep := (endsAt_sequenceStep h hpending items).concludes_of_related hst
        generalize (sequenceStep .endOfInput Grammar.statement items).run N.one s = first
          at hnext hstep hless hsafe ⊢
        generalize (sequenceStep .endOfInput Grammar.statement items).run N.other t = first'
          at hstep ⊢
        obtain ⟨one, s'⟩ := first
        obtain ⟨other, t'⟩ := first'
        obtain rfl : one = .again next := hnext
        rcases hstep with hdoomed | ⟨hsame, hafter⟩
        · exact absurd (doomed_loop h hdoomed next) hsafe
        · obtain rfl : Step.again next = other := hsame
          exact ih s'.remaining (hmeasure ▸ hless next rfl) hafter next hsafe rfl

end Simulation.Nesting

end QoreSyntax.Grammar

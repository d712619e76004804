import QoreSyntax.Proofs.Grammar.Closing

namespace QoreSyntax.Grammar

theorem le_recoveryLength (depth count : Nat) (tokens : List Token) :
    count ≤ recoveryLength depth count tokens := by
  induction tokens generalizing depth count with
  | nil => exact Nat.le_refl count
  | cons t rest ih =>
      rw [recoveryLength]
      split_ifs
      · exact Nat.le_succ count
      · exact Nat.le_refl count
      · exact Nat.le_of_succ_le (ih _ _)
      · exact Nat.le_of_succ_le (ih _ _)
      · exact Nat.le_of_succ_le (ih _ _)

/-- Only a closing brace or a recovery point is not passed over. -/
theorem recoveryLength_pos {t : Token} (rest : List Token) (hbrace : t.kind ≠ .symbol .rBrace)
    (hpoint : isRecoveryPoint t = false) : 0 < recoveryLength 0 0 (t :: rest) := by
  have hstays : (t.kind == .symbol .rBrace || isRecoveryPoint t) = false := by
    rw [hpoint, Bool.or_false]
    exact beq_false_of_ne hbrace
  rw [recoveryLength, hstays]
  split_ifs
  · exact Nat.zero_lt_one
  · rename_i h
    cases h
  all_goals exact le_recoveryLength _ 1 rest

namespace State

/-- Passes over what stands before the place where the parse can go on. -/
def synchronize (s : State) : State :=
  (s.advanceMany (recoveryLength 0 0 s.pending)).resume

def settle (s : State) : State :=
  if s.recovering then s.synchronize else s

/-- Passes over the next token if none has been taken since the state `before`, and reports it
unless a report has been made since. -/
def ensureProgress (s before : State) : State :=
  if s.consumed = before.consumed then
    if s.reported.length = before.reported.length then
      (s.report (.unexpected s.kind)).advance.resume
    else s.advance.resume
  else s

/-- Passes over what is no arm of a switch. -/
def skipToArm (s : State) : State :=
  let found := (s.report (.expected .caseOrDefault s.kind)).synchronize
  if found.consumed = s.consumed then found.advance else found

/-- Passes over a closing brace that nothing has opened, and reports it. -/
def dropBrace (s : State) : State :=
  (s.report .unmatchedBrace).advance.resume

/-- The place behind the next statement where the parse goes on. -/
def afterStatement (limit : Nat) (s : State) : State :=
  (statement.runWithin limit s).2.settle.ensureProgress s

theorem recovering_settle (s : State) : s.settle.recovering = false := by
  rw [settle]
  split_ifs with h
  · rfl
  · exact Bool.eq_false_iff.mpr h

theorem recovering_ensureProgress {s : State} (h : s.recovering = false) (before : State) :
    (s.ensureProgress before).recovering = false := by
  rw [ensureProgress]
  split_ifs
  · rfl
  · rfl
  · exact h

theorem recovering_afterStatement (limit : Nat) (s : State) :
    (s.afterStatement limit).recovering = false :=
  recovering_ensureProgress (recovering_settle _) s

end State

section Runs

variable {nested : Goal → State → Node × State}

theorem run_mark (s : State) : mark.run nested s = (s.mark, s) :=
  rfl

theorem run_close (m : Mark) (kind : Node.Kind) (payload : Payload) (children : List Node)
    (s : State) : (close m kind payload children).run nested s
      = (s.close m kind payload children, s) :=
  rfl

theorem run_advanceMany (n : Nat) (s : State) :
    (advanceMany n).run nested s = ((), s.advanceMany n) := by
  induction n generalizing s with
  | zero => rfl
  | succ n ih => exact ih s.advance

theorem run_synchronize (s : State) : synchronize.run nested s = ((), s.synchronize) := by
  change (advanceMany (recoveryLength 0 0 s.pending) >>= fun _ => resume).run nested s = _
  rw [Parser.run_bind, run_advanceMany]
  rfl

theorem run_settle (s : State) : settle.run nested s = ((), s.settle) := by
  change Parser.run nested (if s.recovering then synchronize else pure ()) s = _
  rw [State.settle]
  split_ifs
  · exact run_synchronize s
  · rfl

theorem run_ensureProgress (before s : State) :
    (ensureProgress before).run nested s = ((), s.ensureProgress before) := by
  change Parser.run nested (if s.consumed == before.consumed then _ else pure ()) s = _
  rw [State.ensureProgress]
  simp only [beq_iff_eq]
  split_ifs <;> rfl

theorem run_skipToArm (s : State) : skipToArm.run nested s = ((), s.skipToArm) := by
  change Parser.run nested (synchronize >>= fun _ => state >>= fun after =>
    if after.consumed == s.consumed then advance >>= fun _ => pure () else pure ())
    (s.report (.expected .caseOrDefault s.kind)) = _
  rw [Parser.run_bind, run_synchronize, State.skipToArm]
  change Parser.run nested (if _ == s.consumed then _ else pure ()) _ = _
  simp only [beq_iff_eq]
  split_ifs <;> rfl

variable {terminator : Terminator} {item : Parser Node} {s : State}

theorem run_sequenceStep_of_holds (h : terminator.holds s = true) (items : List Node) :
    (sequenceStep terminator item items).run nested s = (.done items, s) := by
  change Parser.run nested (if terminator.holds s = true then _ else _) s = _
  rw [if_pos h]
  rfl

theorem run_sequenceStep_of_isAt (h : terminator.holds s = false) (hbrace : s.isAt .rBrace = true)
    (items : List Node) :
    (sequenceStep terminator item items).run nested s
      = (.again items, s.dropBrace) := by
  change Parser.run nested (if terminator.holds s = true then _ else
    if s.isAt .rBrace = true then _ else _) s = _
  rw [if_neg (by rw [h]; exact Bool.false_ne_true), if_pos hbrace]
  rfl

theorem run_sequenceStep_of_open (h : terminator.holds s = false) (hbrace : s.isAt .rBrace = false)
    (items : List Node) :
    (sequenceStep terminator item items).run nested s =
      let read := item.run nested s
      (.again (if s.consumed < read.2.consumed then read.1 :: items else items),
        read.2.settle.ensureProgress s) := by
  change Parser.run nested (if terminator.holds s = true then _ else
    if s.isAt .rBrace = true then _ else item >>= fun node => state >>= fun after =>
      settle >>= fun _ => ensureProgress s >>= fun _ =>
        pure (Step.again (if s.consumed < after.consumed then node :: items else items))) s = _
  rw [if_neg (by rw [h]; exact Bool.false_ne_true),
    if_neg (by rw [hbrace]; exact Bool.false_ne_true), Parser.run_bind]
  change Parser.run nested (settle >>= _) (item.run nested s).2 = _
  rw [Parser.run_bind, run_settle, Parser.run_bind, run_ensureProgress]
  rfl

/-- An item behind which nothing is to be passed over. -/
theorem run_sequenceStep_of_settled (h : terminator.holds s = false)
    (hbrace : s.isAt .rBrace = false) (hrecovering : (item.run nested s).2.recovering = false)
    (hconsumed : s.consumed < (item.run nested s).2.consumed) (items : List Node) :
    (sequenceStep terminator item items).run nested s =
      let read := item.run nested s
      (.again (read.1 :: items), read.2) := by
  rw [run_sequenceStep_of_open h hbrace]
  dsimp only
  rw [if_pos hconsumed, State.settle, hrecovering, if_neg Bool.false_ne_true,
    State.ensureProgress, if_neg (Nat.ne_of_gt hconsumed)]

end Runs

section Trails

variable {R : State → State → Prop}

theorem IsTrail.synchronize (hR : IsTrail R) (s : State) : R s s.synchronize :=
  hR.trans (hR.advanceMany _ s) (hR.resume _)

theorem IsTrail.settle (hR : IsTrail R) (s : State) : R s s.settle := by
  rw [State.settle]
  split_ifs
  · exact hR.synchronize s
  · exact hR.refl s

theorem IsTrail.ensureProgress (hR : IsTrail R) (before s : State) :
    R s (s.ensureProgress before) := by
  rw [State.ensureProgress]
  split_ifs
  · exact hR.trans (hR.report _ s) (hR.trans (hR.advance _) (hR.resume _))
  · exact hR.trans (hR.advance s) (hR.resume _)
  · exact hR.refl s

theorem IsTrail.skipToArm (hR : IsTrail R) (s : State) : R s s.skipToArm := by
  have hfound := hR.trans (hR.report (.expected .caseOrDefault s.kind) s) (hR.synchronize _)
  rw [State.skipToArm]
  split_ifs
  · exact hR.trans hfound (hR.advance _)
  · exact hfound

theorem IsTrail.dropBrace (hR : IsTrail R) (s : State) : R s s.dropBrace :=
  hR.trans (hR.report .unmatchedBrace s) (hR.trans (hR.advance _) (hR.resume _))

theorem IsTrail.afterStatement (hR : IsTrail R) (limit : Nat) (s : State) :
    R s (s.afterStatement limit) :=
  hR.trans (hR.runWithin limit statement s) (hR.trans (hR.settle _) (hR.ensureProgress s _))

end Trails

/-- What every step of the outermost sequence keeps holds at its end. -/
theorem holds_statements (limit : Nat) {I : List Node → State → Prop}
    (hfinal : ∀ items s, I items s → s.final.isEof = true)
    (hbrace : ∀ items s, I items s → s.isAt .rBrace = true → I items s.dropBrace)
    (hitem : ∀ items s, I items s → s.isAtEnd = false → s.isAt .rBrace = false →
      let read := statement.runWithin limit s
      I (if s.consumed < read.2.consumed then read.1 :: items else items)
        (s.afterStatement limit))
    {s : State} (hs : I [] s) :
    let read := (sequence .endOfInput statement).runWithin limit s
    I read.1.reverse read.2 ∧ read.2.isAtEnd = true := by
  have hnested := onlyTakes_parse limit limit
  have hloop := (Parser.shrinks_sequenceStep hnested .endOfInput statement).ensures_loop hnested
    (I := I) (Q := fun items t => I items t ∧ t.isAtEnd = true) hfinal (fun items t ht => ?_)
    [] s hs
  · dsimp only
    rw [Parser.runWithin, sequence, Parser.run_bind, Parser.run_pure, List.reverse_reverse]
    exact hloop
  · cases hend : t.isAtEnd with
    | true =>
        rw [run_sequenceStep_of_holds (by rw [Terminator.holds, hend, Bool.true_or])]
        exact ⟨ht, hend⟩
    | false =>
        have hholds : Terminator.endOfInput.holds t = false := by
          rw [Terminator.holds, hend, Bool.false_or]
        cases hat : t.isAt .rBrace with
        | true =>
            rw [run_sequenceStep_of_isAt hholds hat]
            exact hbrace items t ht hat
        | false =>
            rw [run_sequenceStep_of_open hholds hat]
            exact hitem items t ht hend hat

end QoreSyntax.Grammar

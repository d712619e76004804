import Mathlib.Tactic.Common
import QoreSyntax.Grammar.State

namespace QoreSyntax

namespace Token

/-- The token is not one at fault. -/
def Kind.isValid : Kind → Bool
  | .invalid _ => false
  | _ => true

/-- The number of times that something can be taken of the token. -/
def weight (t : Token) : Nat :=
  if t.kind = .symbol .shr then 2 else 1

/-- The number of times that something can be taken of the tokens. -/
def weights : List Token → Nat
  | [] => 0
  | t :: rest => t.weight + weights rest

theorem weight_pos (t : Token) : 0 < t.weight := by
  rw [weight]
  split_ifs <;> decide

theorem weight_of_shr {t : Token} (h : t.kind = .symbol .shr) : t.weight = 2 :=
  if_pos h

theorem weight_secondHalf (t : Token) : t.secondHalf.weight = 1 :=
  rfl

end Token

/-- Nothing is reported when a token is taken that is not at fault. -/
theorem LexicalError.ofToken?_eq_none_iff {t : Token} :
    LexicalError.ofToken? t = none ↔ t.kind.isValid = true := by
  obtain ⟨kind, span, range, newlineBefore⟩ := t
  cases kind <;> simp [ofToken?, Token.Kind.isValid]

namespace Grammar.State

/-- What is left of the text: the number of tokens still to be taken, where the symbol `>>` counts
twice. -/
def remaining (s : State) : Nat :=
  Token.weights s.pending

theorem isAtEnd_iff {s : State} : s.isAtEnd = true ↔ s.pending = [] :=
  List.isEmpty_iff

theorem current_of_pending {s : State} {t : Token} {rest : List Token}
    (h : s.pending = t :: rest) : s.current = t := by
  rw [current, h]
  rfl

theorem remaining_cons {s : State} {t : Token} {rest : List Token} (h : s.pending = t :: rest) :
    s.remaining = t.weight + Token.weights rest := by
  rw [remaining, h, Token.weights]

theorem advance_nil {s : State} (h : s.pending = []) : s.advance = s := by
  rw [advance, h]

@[simp] theorem advance_pending (s : State) : s.advance.pending = s.pending.tail := by
  rw [advance]
  split
  · rename_i h
    rw [h]
    rfl
  · rename_i h
    rw [h]
    rfl

@[simp] theorem advance_final (s : State) : s.advance.final = s.final := by
  rw [advance]
  split <;> rfl

theorem advance_cons {s : State} {t : Token} {rest : List Token} (h : s.pending = t :: rest) :
    s.advance =
      { s with
        pending := rest
        previousEnd := t.range.stop
        consumed := s.consumed + 1
        reported :=
          ((LexicalError.ofToken? t).map Diagnostic.ofLexicalError).toList ++ s.reported
        recovering := s.recovering || (LexicalError.ofToken? t).isSome } := by
  rw [advance, h]

theorem advance_previousEnd {s : State} {t : Token} {rest : List Token}
    (h : s.pending = t :: rest) : s.advance.previousEnd = t.range.stop := by
  rw [advance_cons h]

theorem advance_consumed {s : State} {t : Token} {rest : List Token}
    (h : s.pending = t :: rest) : s.advance.consumed = s.consumed + 1 := by
  rw [advance_cons h]

/-- Taking a token reports it if it is at fault, and nothing else. -/
theorem advance_reported {s : State} {t : Token} {rest : List Token} (h : s.pending = t :: rest) :
    s.advance.reported
      = ((LexicalError.ofToken? t).map Diagnostic.ofLexicalError).toList ++ s.reported := by
  rw [advance_cons h]

theorem splitShift_of_shr {s : State} {t : Token} {rest : List Token} (h : s.pending = t :: rest)
    (hshr : t.kind = .symbol .shr) :
    s.splitShift =
      { s with
        pending := t.secondHalf :: rest
        previousEnd := t.middle
        consumed := s.consumed + 1 } := by
  simp [splitShift, h, hshr]

/-- Either the symbol `>>` is split or nothing happens. -/
theorem splitShift_cases (s : State) :
    (∃ t rest, s.pending = t :: rest ∧ t.kind = .symbol .shr) ∨ s.splitShift = s := by
  cases h : s.pending with
  | nil =>
      right
      rw [splitShift, h]
  | cons t rest =>
      by_cases hshr : t.kind = .symbol .shr
      · exact Or.inl ⟨t, rest, rfl, hshr⟩
      · right
        simp [splitShift, h, hshr]

@[simp] theorem report_pending (problem : Problem) (s : State) :
    (s.report problem).pending = s.pending :=
  rfl

@[simp] theorem report_final (problem : Problem) (s : State) :
    (s.report problem).final = s.final :=
  rfl

@[simp] theorem report_previousEnd (problem : Problem) (s : State) :
    (s.report problem).previousEnd = s.previousEnd :=
  rfl

@[simp] theorem report_consumed (problem : Problem) (s : State) :
    (s.report problem).consumed = s.consumed :=
  rfl

/-- While the parse is recovering reports are dropped. -/
theorem report_of_recovering (problem : Problem) {s : State} (h : s.recovering = true) :
    s.report problem = s := by
  rw [report, h, Bool.true_or, if_pos rfl, ← h]

theorem kind_eq_kindAt (s : State) : s.kind = s.kindAt 0 := by
  rw [kind, current, kindAt, List.head?_eq_getElem?]

/-- The token behind the next one is what is next when that has been taken. -/
theorem kindAt_one (s : State) : s.kindAt 1 = s.advance.kind := by
  rw [kindAt, kind, current, advance_pending, advance_final]
  rcases s.pending with - | ⟨t, - | ⟨u, rest⟩⟩ <;> rfl

theorem advanceMany_pending (n : Nat) (s : State) :
    (s.advanceMany n).pending = s.pending.drop n := by
  induction n generalizing s with
  | zero => rfl
  | succ n ih =>
      refine (ih s.advance).trans ?_
      rw [advance_pending, List.drop_tail]

theorem advanceMany_add (m n : Nat) (s : State) :
    s.advanceMany (m + n) = (s.advanceMany m).advanceMany n := by
  induction m generalizing s with
  | zero => rw [Nat.zero_add]; rfl
  | succ m ih =>
      rw [Nat.add_right_comm]
      exact ih s.advance

theorem advance_nest (s : State) (depth : Nat) :
    State.advance { s with depth := depth } = { s.advance with depth := depth } := by
  obtain ⟨pending, final, previousEnd, consumed, reported, recovering, _⟩ := s
  cases pending <;> rfl

theorem advanceMany_nest (n : Nat) (s : State) (depth : Nat) :
    State.advanceMany n { s with depth := depth } = { s.advanceMany n with depth := depth } := by
  induction n generalizing s with
  | zero => rfl
  | succ n ih =>
      rw [State.advanceMany, advance_nest]
      exact ih s.advance

theorem advance_depth (s : State) : s.advance.depth = s.depth := by
  rw [advance]
  split <;> rfl

theorem splitShift_depth (s : State) : s.splitShift.depth = s.depth := by
  rcases splitShift_cases s with ⟨t, rest, hpending, hshr⟩ | hsame
  · rw [splitShift_of_shr hpending hshr]
  · rw [hsame]

theorem advanceMany_depth (n : Nat) (s : State) : (s.advanceMany n).depth = s.depth := by
  induction n generalizing s with
  | zero => rfl
  | succ n ih => exact (ih s.advance).trans s.advance_depth

/-- The state can be reached from the first one by taking tokens. What is taken is no longer there,
and as long as nothing is taken nothing changes about the tokens. -/
structure Reaches (s s' : State) : Prop where
  final_eq : s'.final = s.final
  consumed_le : s.consumed ≤ s'.consumed
  pending_eq : s'.consumed = s.consumed → s'.pending = s.pending
  previousEnd_eq : s'.consumed = s.consumed → s'.previousEnd = s.previousEnd
  remaining_le : s'.remaining + s'.consumed ≤ s.remaining + s.consumed

namespace Reaches

theorem of_same {s s' : State} (hpending : s'.pending = s.pending) (hfinal : s'.final = s.final)
    (hprevious : s'.previousEnd = s.previousEnd) (hconsumed : s'.consumed = s.consumed) :
    s.Reaches s' := by
  have hremaining : s'.remaining = s.remaining := by
    rw [remaining, remaining, hpending]
  refine ⟨hfinal, Nat.le_of_eq hconsumed.symm, fun _ => hpending, fun _ => hprevious, ?_⟩
  exact Nat.le_of_eq (by rw [hremaining, hconsumed])

theorem refl (s : State) : s.Reaches s :=
  of_same rfl rfl rfl rfl

theorem trans {s t u : State} (hst : s.Reaches t) (htu : t.Reaches u) : s.Reaches u := by
  have hsquash : u.consumed = s.consumed → t.consumed = s.consumed ∧ u.consumed = t.consumed := by
    have := hst.consumed_le
    have := htu.consumed_le
    omega
  refine ⟨htu.final_eq.trans hst.final_eq, Nat.le_trans hst.consumed_le htu.consumed_le, ?_, ?_,
    Nat.le_trans htu.remaining_le hst.remaining_le⟩
  · intro h
    exact (htu.pending_eq (hsquash h).2).trans (hst.pending_eq (hsquash h).1)
  · intro h
    exact (htu.previousEnd_eq (hsquash h).2).trans (hst.previousEnd_eq (hsquash h).1)

theorem advance (s : State) : s.Reaches s.advance := by
  cases h : s.pending with
  | nil =>
      rw [advance_nil h]
      exact refl s
  | cons t rest =>
      have hconsumed := advance_consumed h
      have hweight := t.weight_pos
      have hrest : s.advance.remaining = Token.weights rest := by
        rw [remaining, advance_pending, h, List.tail_cons]
      refine ⟨advance_final s, by omega, by omega, by omega, ?_⟩
      rw [remaining_cons h]
      omega

theorem splitShift (s : State) : s.Reaches s.splitShift := by
  rcases splitShift_cases s with ⟨t, rest, h, hshr⟩ | hsame
  · rw [splitShift_of_shr h hshr]
    refine ⟨rfl, Nat.le_succ _, ?_, ?_, ?_⟩
    · intro hconsumed
      simp at hconsumed
    · intro hconsumed
      simp at hconsumed
    · rw [remaining_cons h, remaining_cons rfl, Token.weight_of_shr hshr, Token.weight_secondHalf]
      dsimp only
      omega
  · rw [hsame]
    exact refl s

theorem report (problem : Problem) (s : State) : s.Reaches (s.report problem) :=
  of_same (report_pending problem s) (report_final problem s) (report_previousEnd problem s)
    (report_consumed problem s)

theorem resume (s : State) : s.Reaches s.resume :=
  of_same rfl rfl rfl rfl

theorem nest (depth : Nat) (s : State) : s.Reaches { s with depth := depth } :=
  of_same rfl rfl rfl rfl

/-- With a token taken there is less to be taken. -/
theorem remaining_lt {s s' : State} (h : s.Reaches s') (hconsumed : s.consumed < s'.consumed) :
    s'.remaining < s.remaining := by
  have := h.remaining_le
  omega

/-- As long as no token is taken the next one stays. -/
theorem current_eq {s s' : State} (h : s.Reaches s') (hconsumed : s'.consumed = s.consumed) :
    s'.current = s.current := by
  rw [current, current, h.pending_eq hconsumed, h.final_eq]

end Reaches

end Grammar.State

end QoreSyntax

import QoreSyntax.Proofs.Grammar.Contract

namespace QoreSyntax.Grammar

namespace State

/-- A token or half of one has been taken since the first state. -/
structure Beyond (s s' : State) : Prop where
  reaches : s.Reaches s'
  consumed_lt : s.consumed < s'.consumed

theorem Beyond.trans {s t u : State} (hst : s.Beyond t) (htu : t.Reaches u) : s.Beyond u :=
  ⟨hst.reaches.trans htu, Nat.lt_of_lt_of_le hst.consumed_lt htu.consumed_le⟩

theorem Reaches.trans_beyond {s t u : State} (hst : s.Reaches t) (htu : t.Beyond u) :
    s.Beyond u :=
  ⟨hst.trans htu.reaches, Nat.lt_of_le_of_lt hst.consumed_le htu.consumed_lt⟩

theorem Beyond.remaining_lt {s s' : State} (h : s.Beyond s') : s'.remaining < s.remaining :=
  h.reaches.remaining_lt h.consumed_lt

theorem beyond_advance {s : State} (h : s.pending ≠ []) : s.Beyond s.advance := by
  obtain ⟨t, rest, hpending⟩ := List.exists_cons_of_ne_nil h
  refine ⟨Reaches.advance s, ?_⟩
  rw [advance_consumed hpending]
  exact Nat.lt_succ_self _

theorem remaining_le (s : State) : s.remaining ≤ 2 * s.pending.length := by
  rw [remaining]
  induction s.pending with
  | nil => exact Nat.le_refl _
  | cons t rest ih =>
      have hweight : t.weight ≤ 2 := by
        rw [Token.weight]
        split_ifs <;> decide
      rw [Token.weights, List.length_cons]
      omega

/-- Behind the last token the end marker is next. -/
theorem pending_ne_nil {s : State} (hfinal : s.final.isEof = true) (h : s.kind ≠ .eof) :
    s.pending ≠ [] := by
  intro hnil
  apply h
  rw [kind, current, hnil]
  exact eq_of_beq hfinal

theorem pending_ne_nil_of_isAt {s : State} {symbol : Symbol} (hfinal : s.final.isEof = true)
    (h : s.isAt symbol = true) : s.pending ≠ [] := by
  apply pending_ne_nil hfinal
  rw [eq_of_beq h]
  intro hkind
  cases hkind

theorem pending_ne_nil_of_isAtKeyword {s : State} {word : Keyword}
    (hfinal : s.final.isEof = true) (h : s.isAtKeyword word = true) : s.pending ≠ [] := by
  apply pending_ne_nil hfinal
  rw [eq_of_beq h]
  intro hkind
  cases hkind

end State

section Repetition

variable {α : Type} {nested : Goal → State → Node × State} {step : α → Parser (Step α)}

/-- A step after which the repetition goes on leaves less to be taken. -/
def Shrinks (nested : Goal → State → Node × State) (step : α → Parser (Step α)) : Prop :=
  ∀ value s, s.final.isEof = true → ∀ next, ((step value).run nested s).1 = .again next →
    ((step value).run nested s).2.remaining < s.remaining

/-- The constructs that are called for only take tokens. -/
def OnlyTakes (nested : Goal → State → Node × State) : Prop :=
  ∀ goal (s : State), s.Reaches (nested goal s).2

/-- Repeats a step on a value as long as it says so, at most `n` times. -/
def times (step : α → Parser (Step α)) : Nat → α → Parser α
  | 0, value => pure value
  | n + 1, value => do
      match ← step value with
      | .done last => pure last
      | .again next => times step n next

theorem repeated_eq_times (bound : List Token) (value : α) :
    repeated step bound value = times step (2 * bound.length) value := by
  induction bound generalizing value with
  | nil => rfl
  | cons _ bound ih =>
      simp only [repeated, ih]
      rfl

theorem run_times_succ (n : Nat) (value : α) (s : State) :
    (times step (n + 1) value).run nested s =
      match (step value).run nested s with
      | (.done last, after) => (last, after)
      | (.again next, after) => (times step n next).run nested after := by
  rw [times, Parser.run_bind]
  rcases (step value).run nested s with ⟨result, after⟩
  cases result <;> rfl

/-- More repetitions than there is to be taken are as good as any number of them. -/
theorem Shrinks.run_times_eq (h : Shrinks nested step)
    (hnested : OnlyTakes nested) {n n' : Nat} {value : α} {s : State}
    (hfinal : s.final.isEof = true) (hn : s.remaining < n) (hn' : s.remaining < n') :
    (times step n value).run nested s = (times step n' value).run nested s := by
  induction n generalizing n' value s with
  | zero => omega
  | succ n ih =>
      obtain ⟨n', rfl⟩ : ∃ m, n' = m + 1 := Nat.exists_eq_succ_of_ne_zero (by omega)
      rw [run_times_succ, run_times_succ]
      have hreaches := State.isTrail_reaches.run hnested (step value) s
      have hshrinks := h value s hfinal
      rcases hrun : (step value).run nested s with ⟨next | last, after⟩
      · rw [hrun] at hreaches hshrinks
        have hlt : after.remaining < s.remaining := hshrinks next rfl
        have hafter : after.final = s.final := hreaches.final_eq
        exact ih (hafter ▸ hfinal) (by omega) (by omega)
      · rfl

/-- A repetition goes on until a step says that it is done. -/
theorem Shrinks.run_loop (h : Shrinks nested step)
    (hnested : OnlyTakes nested) (value : α) {s : State}
    (hfinal : s.final.isEof = true) :
    (loop step value).run nested s =
      match (step value).run nested s with
      | (.done last, after) => (last, after)
      | (.again next, after) => (loop step next).run nested after := by
  have hloop : ∀ value (s : State), (loop step value).run nested s =
      (times step (2 * s.pending.length + 1 + 1) value).run nested s := by
    intro value s
    have hbound : (loop step value).run nested s =
        (repeated step (s.final :: s.pending) value).run nested s := rfl
    rw [hbound, repeated_eq_times]
    rfl
  rw [hloop, run_times_succ]
  have hreaches := State.isTrail_reaches.run hnested (step value) s
  have hshrinks := h value s hfinal
  rcases hrun : (step value).run nested s with ⟨next | last, after⟩
  · rw [hrun] at hreaches hshrinks
    dsimp only
    have hlt : after.remaining < s.remaining := hshrinks next rfl
    have hle := s.remaining_le
    have hle' := after.remaining_le
    have hafter : after.final = s.final := hreaches.final_eq
    rw [hloop]
    exact h.run_times_eq hnested (hafter ▸ hfinal) (by omega) (by omega)
  · rfl

/-- What a step keeps until it is done holds when the repetition ends. -/
theorem Shrinks.ensures_loop (h : Shrinks nested step) (hnested : OnlyTakes nested)
    {I : α → State → Prop} {Q : α → State → Prop}
    (hfinal : ∀ value s, I value s → s.final.isEof = true)
    (hstep : ∀ value, Parser.Ensures nested (I value) (step value) fun result s =>
      match result with
      | .again next => I next s
      | .done last => Q last s)
    (value : α) : Parser.Ensures nested (I value) (loop step value) Q := by
  intro s hs
  induction hmeasure : s.remaining using Nat.strongRecOn generalizing s value with
  | ind n ih =>
      rw [h.run_loop hnested value (hfinal value s hs)]
      have hresult := hstep value s hs
      have hshrinks := h value s (hfinal value s hs)
      rcases hrun : (step value).run nested s with ⟨next | last, after⟩
      · rw [hrun] at hresult hshrinks
        exact ih after.remaining (hmeasure ▸ hshrinks next rfl) next after hresult rfl
      · rw [hrun] at hresult
        exact hresult

end Repetition

end QoreSyntax.Grammar

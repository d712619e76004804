import QoreSyntax.Proofs.Grammar.Run
import QoreSyntax.Proofs.Token.Stream

namespace QoreSyntax.Grammar.State

/-- The tokens that are still to be taken stand one after the other, behind the last one taken. -/
def Ordered (s : State) : Prop :=
  Token.Placed s.pending s.previousEnd s.final.range.start

theorem Ordered.previousEnd_le {s : State} (h : s.Ordered) :
    s.previousEnd ≤ s.current.range.start := by
  rcases hpending : s.pending with - | ⟨t, rest⟩
  · rw [Ordered, hpending] at h
    rw [current, hpending]
    exact h
  · rw [Ordered, hpending] at h
    rw [current, hpending]
    exact h.1

/-- The state comes after the first one in a text of which the tokens are in order. -/
structure Before (s s' : State) : Prop where
  reaches : s.Reaches s'
  ordered : s'.Ordered
  previousEnd_le : s.previousEnd ≤ s'.previousEnd
  start_le : s.consumed < s'.consumed → s.current.range.start ≤ s'.previousEnd

namespace Before

theorem of_same {s s' : State} (h : s.Ordered) (hreaches : s.Reaches s')
    (hconsumed : s'.consumed = s.consumed) : s.Before s' := by
  have hpending := hreaches.pending_eq hconsumed
  have hprevious := hreaches.previousEnd_eq hconsumed
  refine ⟨hreaches, ?_, hprevious.ge, ?_⟩
  · rw [Ordered, hpending, hprevious, hreaches.final_eq]
    exact h
  · intro hlt
    omega

theorem refl {s : State} (h : s.Ordered) : s.Before s :=
  of_same h (Reaches.refl s) rfl

theorem trans {s t u : State} (hst : s.Before t) (htu : t.Before u) : s.Before u := by
  refine ⟨hst.reaches.trans htu.reaches, htu.ordered,
    hst.previousEnd_le.trans htu.previousEnd_le, ?_⟩
  intro hlt
  rcases Nat.lt_or_eq_of_le hst.reaches.consumed_le with hfirst | hfirst
  · exact (hst.start_le hfirst).trans htu.previousEnd_le
  · -- Nothing is taken at first, so that the second part begins with the same token.
    have hstart := htu.start_le (by omega)
    rwa [hst.reaches.current_eq hfirst.symm] at hstart

theorem advance {s : State} (h : s.Ordered) : s.Before s.advance := by
  rcases hpending : s.pending with - | ⟨t, rest⟩
  · rw [advance_nil hpending]
    exact refl h
  · have hprevious := advance_previousEnd hpending
    rw [Ordered, hpending] at h
    obtain ⟨hstart, hsolid, hrest⟩ := h
    refine ⟨Reaches.advance s, ?_, ?_, ?_⟩
    · rw [Ordered, advance_pending, hprevious, advance_final, hpending]
      exact hrest
    · rw [hprevious]
      exact hstart.trans hsolid.start_lt_stop.le
    · intro _
      rw [hprevious, current, hpending]
      exact hsolid.start_lt_stop.le

theorem splitShift {s : State} (h : s.Ordered) : s.Before s.splitShift := by
  rcases splitShift_cases s with ⟨t, rest, hpending, hshr⟩ | hsame
  · have hmiddle : t.range.start ≤ t.middle :=
      Position.le_iff.mpr (Or.inr ⟨rfl, Nat.le_succ _⟩)
    have hreaches := Reaches.splitShift s
    rw [splitShift_of_shr hpending hshr] at hreaches ⊢
    rw [Ordered, hpending] at h
    obtain ⟨hstart, hsolid, hrest⟩ := h
    refine ⟨hreaches, ⟨le_rfl, ⟨hsolid.middle_lt_stop hshr, ?_⟩, hrest⟩, ?_, ?_⟩
    · intro hkind
      cases hkind
    · exact hstart.trans hmiddle
    · intro _
      rw [current, hpending]
      exact hmiddle
  · rw [hsame]
    exact refl h

end Before

theorem isTrail_before : IsTrail fun s s' => s.Ordered → s.Before s' where
  refl _ h := Before.refl h
  trans hst htu h := (hst h).trans (htu (hst h).ordered)
  advance _ h := Before.advance h
  splitShift _ h := Before.splitShift h
  report problem s h := Before.of_same h (Reaches.report problem s) (report_consumed problem s)
  resume s h := Before.of_same h (Reaches.resume s) rfl
  nest depth s h := Before.of_same h (Reaches.nest depth s) rfl

/-- At the beginning of a parse all tokens of the text are ahead. -/
theorem ordered_start (text : List Char) (options : Options) : (start text options).Ordered := by
  have h := Token.Stream.placed_ofText text options.firstLine
  have hline : max options.firstLine 1 = options.firstLine :=
    Nat.max_eq_left (Nat.le_max_right options.startLine 1)
  rw [hline] at h
  exact h

end QoreSyntax.Grammar.State

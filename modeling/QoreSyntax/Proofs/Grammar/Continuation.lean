import QoreSyntax.Proofs.Grammar.Cap

/-!
A text that goes on. Up to the last token of a text a parse does not notice whether there is more
behind it, as long as nothing goes wrong and that token closes a statement. Where no such token is
ahead any more, something that has been begun is still to be ended, and a report will be made.
-/

namespace QoreSyntax

theorem Token.AlikeAhead.append {ts : List Token} {t : Token} (hlast : ts.getLast? = some t)
    (hcloses : t.kind.closes = true) (rest : List Token) : AlikeAhead ts (ts ++ rest) := by
  induction ts with
  | nil => cases hlast
  | cons first ts ih =>
      rcases ts with - | ⟨second, ts⟩
      · rw [List.getLast?_singleton, Option.some.injEq] at hlast
        exact .closing (akin_self first) (hlast ▸ hcloses) [] rest
      · rw [List.getLast?_cons_cons] at hlast
        exact .cons (akin_self first) (ih hlast)

namespace Grammar

namespace State

/-- The same state in a text that goes on with the tokens `rest`. -/
def followedBy (rest : List Token) (last : Token) (s : State) : State :=
  { s with
    pending := s.pending ++ rest
    final := last }

/-- No token that closes a statement is the last one of the tokens ahead. -/
def Open (s : State) : Prop :=
  ∀ t, s.pending.getLast? = some t → t.kind.closes = false

/-- What is ahead cannot be told from what is ahead in a text that goes on. -/
structure Adrift (s : State) : Prop where
  honest : s.Honest
  blamed_or_open : s.Blamed ∨ s.Open

/-- There is a mistake in the text, or a token with which something is begun that nothing ends. -/
structure Doomed (s : State) : Prop where
  honest : s.Honest
  blamed_or_open : s.Blamed ∨ s.pending ≠ [] ∧ s.Open

theorem Doomed.adrift {s : State} (h : s.Doomed) : s.Adrift :=
  ⟨h.honest, h.blamed_or_open.imp_right And.right⟩

theorem Faulty.doomed {s : State} (h : s.Faulty) : s.Doomed :=
  ⟨h.1, Or.inl h.2⟩

theorem Doomed.blamed {s : State} (h : s.Doomed) (hend : s.isAtEnd = true) : s.Blamed :=
  h.blamed_or_open.resolve_right fun hopen => hopen.1 (isAtEnd_iff.mp hend)

theorem open_of_pending {s s' : State} (h : s.Open)
    (hpending : ∀ t, s'.pending.getLast? = some t → s.pending.getLast? = some t) : s'.Open :=
  fun t ht => h t (hpending t ht)

theorem Open.advance {s : State} (h : s.Open) : s.advance.Open := by
  refine open_of_pending h fun t ht => ?_
  rw [advance_pending] at ht
  rcases hpending : s.pending with - | ⟨first, - | ⟨second, tokens⟩⟩ <;> rw [hpending] at ht
  · cases ht
  · cases ht
  · rwa [List.getLast?_cons_cons]

theorem Open.splitShift {s : State} (h : s.Open) : s.splitShift.Open := by
  rcases splitShift_cases s with ⟨t, rest, hpending, hshr⟩ | hsame
  · rw [splitShift_of_shr hpending hshr]
    intro last hlast
    rcases rest with - | ⟨second, rest⟩
    · rw [List.getLast?_singleton, Option.some.injEq] at hlast
      exact hlast ▸ rfl
    · rw [List.getLast?_cons_cons] at hlast
      exact h last (by rw [hpending, List.getLast?_cons_cons, hlast])
  · rwa [hsame]

theorem isTrail_adrift : IsTrail fun s t => s.Adrift → t.Adrift where
  refl _ := id
  trans hst htu h := htu (hst h)
  advance s h :=
    have hup := isTrail_upholds.advance s h.honest
    ⟨hup.honest, h.blamed_or_open.imp hup.blamed Open.advance⟩
  splitShift s h :=
    have hup := isTrail_upholds.splitShift s h.honest
    ⟨hup.honest, h.blamed_or_open.imp hup.blamed Open.splitShift⟩
  report problem s h :=
    have hup := isTrail_upholds.report problem s h.honest
    ⟨hup.honest, h.blamed_or_open.imp_left hup.blamed⟩
  resume s h :=
    have hup := isTrail_upholds.resume s h.honest
    ⟨hup.honest, h.blamed_or_open.imp_left hup.blamed⟩
  nest depth s h :=
    have hup := isTrail_upholds.nest depth s h.honest
    ⟨hup.honest, h.blamed_or_open.imp_left hup.blamed⟩

/-- Where a state is not adrift, there is a token ahead that closes the last statement. -/
theorem exists_closing {s : State} (hs : s.Honest) (h : ¬s.Adrift) :
    ¬s.Blamed ∧ ∃ t, s.pending.getLast? = some t ∧ t.kind.closes = true := by
  refine ⟨fun hblamed => h ⟨hs, Or.inl hblamed⟩, ?_⟩
  by_contra hnone
  refine h ⟨hs, Or.inr fun t ht => ?_⟩
  rw [← Bool.not_eq_true]
  exact fun hcloses => hnone ⟨t, ht, hcloses⟩

theorem pending_ne_nil_of_not_adrift {s : State} (hs : s.Honest) (h : ¬s.Adrift) :
    s.pending ≠ [] := by
  obtain ⟨t, ht, -⟩ := (exists_closing hs h).2
  rintro hnil
  rw [hnil] at ht
  cases ht

section Followed

variable (rest : List Token) (last : Token) {s : State}

theorem current_followedBy (h : s.pending ≠ []) : (s.followedBy rest last).current = s.current := by
  obtain ⟨t, tokens, hpending⟩ := List.exists_cons_of_ne_nil h
  rw [current, current, followedBy, hpending]
  rfl

theorem advance_followedBy (h : s.pending ≠ []) :
    (s.followedBy rest last).advance = s.advance.followedBy rest last := by
  obtain ⟨t, tokens, hpending⟩ := List.exists_cons_of_ne_nil h
  have hfollowed : (s.followedBy rest last).pending = t :: (tokens ++ rest) := by
    rw [followedBy, hpending]
    rfl
  rw [advance_cons hpending, advance_cons hfollowed]
  rfl

theorem splitShift_followedBy (h : s.pending ≠ []) :
    (s.followedBy rest last).splitShift = s.splitShift.followedBy rest last := by
  obtain ⟨t, tokens, hpending⟩ := List.exists_cons_of_ne_nil h
  have hfollowed : (s.followedBy rest last).pending = t :: (tokens ++ rest) := by
    rw [followedBy, hpending]
    rfl
  rw [splitShift, splitShift, hpending, hfollowed]
  dsimp only
  split_ifs
  · rfl
  · rfl

theorem mark_followedBy (h : s.pending ≠ []) : (s.followedBy rest last).mark = s.mark := by
  rw [mark, mark, current_followedBy rest last h]
  rfl

theorem resembles_followedBy (hlast : last.isEof = true) (hs : s.Honest) (h : ¬s.Adrift) :
    s.Resembles (s.followedBy rest last) := by
  obtain ⟨hclean, t, ht, hcloses⟩ := exists_closing hs h
  exact ⟨Token.AlikeAhead.append ht hcloses rest, hs.isEof_final, hlast, rfl,
    fun hrecovering => absurd (hs.blamed hrecovering) hclean⟩

end Followed

end State

/-- A parse and the same parse of a text that goes on. -/
def continuation (rest : List Token) {last : Token} (hlast : last.isEof = true) : Simulation where
  Related s t := s.Honest ∧ s.followedBy rest last = t
  Lost := State.Adrift
  Marks := Eq
  Nodes := Eq
  offset := 0
  earlier := 0
  isTrail_lost := State.isTrail_adrift
  resembles h hadrift := h.2 ▸ State.resembles_followedBy rest last hlast h.1 hadrift
  consumed_eq h := h.2 ▸ rfl
  reported_eq h := h.2 ▸ rfl
  depth_eq h := h.2 ▸ rfl
  advance h hadrift := ⟨(State.Upholds.advance h.1).honest, h.2 ▸
    (State.advance_followedBy rest last (State.pending_ne_nil_of_not_adrift h.1 hadrift)).symm⟩
  splitShift h hadrift := ⟨(State.Upholds.splitShift h.1).honest, h.2 ▸
    (State.splitShift_followedBy rest last (State.pending_ne_nil_of_not_adrift h.1 hadrift)).symm⟩
  report problem _ _ h _ := Or.inl (h.1.faulty_report problem).doomed.adrift
  resume h := ⟨(State.isTrail_upholds.resume _ h.1).honest, h.2 ▸ rfl⟩
  nest depth _ _ h := ⟨(State.isTrail_upholds.nest depth _ h.1).honest, h.2 ▸ rfl⟩
  mark h hadrift := h.2 ▸
    (State.mark_followedBy rest last (State.pending_ne_nil_of_not_adrift h.1 hadrift)).symm
  close kind payload h hm hnodes := by
    rw [List.forall₂_eq_eq_eq] at hnodes
    rw [← h.2, hm, hnodes]
    rfl
  placeholder _ h := h.2 ▸ rfl
  name?_eq := name?_eq_of_eq

end Grammar

end QoreSyntax

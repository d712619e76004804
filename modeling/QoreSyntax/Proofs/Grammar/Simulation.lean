import QoreSyntax.Proofs.Grammar.Iteration
import QoreSyntax.Proofs.Grammar.Simulation.Lookahead

/-!
Two parses side by side. A simulation says when the states of two parses correspond to each other,
and what their marks and nodes have in common then. What each instruction keeps all rules of the
grammar keep: as long as the first parse is not lost, the second one goes the same way.
-/

namespace QoreSyntax.Grammar

structure Simulation where
  /-- The second parse is where the first one is. -/
  Related : State → State → Prop
  /-- The parses may go different ways from here. -/
  Lost : State → Prop
  Marks : Mark → Mark → Prop
  Nodes : Node → Node → Prop
  /-- The number of tokens that the second parse has taken before. -/
  offset : Nat
  /-- The number of reports that the second parse has made before. -/
  earlier : Nat
  isTrail_lost : IsTrail fun s t => Lost s → Lost t
  resembles {s t : State} : Related s t → ¬Lost s → s.Resembles t
  consumed_eq {s t : State} : Related s t → t.consumed = s.consumed + offset
  reported_eq {s t : State} : Related s t → t.reported.length = s.reported.length + earlier
  depth_eq {s t : State} : Related s t → t.depth = s.depth
  advance {s t : State} : Related s t → ¬Lost s → Related s.advance t.advance
  splitShift {s t : State} : Related s t → ¬Lost s → Related s.splitShift t.splitShift
  report (problem : Problem) {s t : State} : Related s t → ¬Lost s →
    Lost (s.report problem) ∨ Related (s.report problem) (t.report problem)
  resume {s t : State} : Related s t → Related s.resume t.resume
  nest (depth : Nat) {s t : State} :
    Related s t → Related { s with depth := depth } { t with depth := depth }
  mark {s t : State} : Related s t → ¬Lost s → Marks s.mark t.mark
  close {s t : State} {m m' : Mark} {children children' : List Node} (kind : Node.Kind)
    (payload : Payload) : Related s t → Marks m m' → List.Forall₂ Nodes children children' →
      Nodes (s.close m kind payload children) (t.close m' kind payload children')
  placeholder {s t : State} (kind : Node.Kind) :
    Related s t → Nodes (s.placeholder kind) (t.placeholder kind)
  name?_eq {node node' : Node} : Nodes node node' → node'.name? = node.name?

/-- Parses that go the same way from the beginning do so to the end. -/
theorem isTrail_false : IsTrail fun _ _ => False → False :=
  ⟨fun _ => id, fun hst htu h => htu (hst h), fun _ => id, fun _ => id, fun _ _ => id, fun _ => id,
    fun _ _ => id⟩

theorem name?_eq_of_eq {node node' : Node} (h : node = node') : node'.name? = node.name? :=
  h ▸ rfl

/-- Both repetitions go on, or both are done. -/
inductive Step.Both {α β : Type} (R : α → β → Prop) : Step α → Step β → Prop where
  | again {a : α} {b : β} (h : R a b) : Both R (.again a) (.again b)
  | done {a : α} {b : β} (h : R a b) : Both R (.done a) (.done b)

namespace Simulation

variable {M : Simulation} {α β γ δ : Type}

/-- What two parsers have come to. -/
def Outcome (M : Simulation) (R : α → β → Prop) (one : α × State) (other : β × State) : Prop :=
  M.Lost one.2 ∨ R one.1 other.1 ∧ M.Related one.2 other.2

/-- What two parses take for the constructs that are called for. -/
structure Nesting (M : Simulation) where
  one : Goal → State → Node × State
  other : Goal → State → Node × State
  onlyTakes_one : OnlyTakes one
  onlyTakes_other : OnlyTakes other
  lost (goal : Goal) (s : State) : M.Lost s → M.Lost (one goal s).2
  outcome (goal : Goal) (s t : State) :
    M.Related s t → M.Outcome M.Nodes (one goal s) (other goal t)

namespace Nesting

variable (N : M.Nesting)

/-- From the given states two parsers come to the same. -/
def MatchesAt (s t : State) (parser : Parser α) (other : Parser β) (R : α → β → Prop) : Prop :=
  M.Outcome R (parser.run N.one s) (other.run N.other t)

/-- From all states that correspond to each other two parsers come to the same. -/
def Matches (parser : Parser α) (other : Parser β) (R : α → β → Prop) : Prop :=
  ∀ s t, M.Related s t → N.MatchesAt s t parser other R

section Rules

variable {N} {s t : State} {parser : Parser α} {other : Parser β} {R : α → β → Prop}
  {next : α → Parser γ} {next' : β → Parser δ} {T : γ → δ → Prop}

theorem lost_run (parser : Parser α) (h : M.Lost s) : M.Lost (parser.run N.one s).2 :=
  M.isTrail_lost.run N.lost parser s h

theorem MatchesAt.of_not_lost (h : ¬M.Lost s → N.MatchesAt s t parser other R) :
    N.MatchesAt s t parser other R := by
  by_cases hlost : M.Lost s
  · exact Or.inl (lost_run parser hlost)
  · exact h hlost

/-- What comes next goes on from the state in which the first parser ends. -/
theorem MatchesAt.bind_run (h : N.MatchesAt s t parser other R)
    (hnext : ∀ a b t', R a b → M.Related (parser.run N.one s).2 t' →
      N.MatchesAt (parser.run N.one s).2 t' (next a) (next' b) T) :
    N.MatchesAt s t (parser >>= next) (other >>= next') T := by
  rw [MatchesAt, Parser.run_bind, Parser.run_bind]
  rcases h with hlost | ⟨hresult, hstates⟩
  · exact Or.inl (lost_run _ hlost)
  · exact hnext _ _ _ hresult hstates

theorem MatchesAt.bind (h : N.MatchesAt s t parser other R)
    (hnext : ∀ a b, R a b → N.Matches (next a) (next' b) T) :
    N.MatchesAt s t (parser >>= next) (other >>= next') T :=
  h.bind_run fun a b _ hab hstates => hnext a b hab _ _ hstates

theorem Matches.bind (h : N.Matches parser other R)
    (hnext : ∀ a b, R a b → N.Matches (next a) (next' b) T) :
    N.Matches (parser >>= next) (other >>= next') T :=
  fun s t hst => (h s t hst).bind hnext

theorem Matches.weaken {R' : α → β → Prop} (h : N.Matches parser other R)
    (himp : ∀ a b, R a b → R' a b) : N.Matches parser other R' :=
  fun s t hst => (h s t hst).imp_right fun hresult => ⟨himp _ _ hresult.1, hresult.2⟩

variable (N)

theorem done {a : α} {b : β} (h : R a b) : N.Matches (pure a) (pure b) R :=
  fun _ _ hst => Or.inr ⟨h, hst⟩

variable {N}

/-- The parsers go on with the same. -/
theorem Matches.skip {parser other : Parser α} {next : α → Parser γ} {next' : α → Parser δ}
    (h : N.Matches parser other Eq) (hnext : ∀ a, N.Matches (next a) (next' a) T) :
    N.Matches (parser >>= next) (other >>= next') T :=
  h.bind fun a _ hab => hab ▸ hnext a

variable (N)

theorem look {next : State → Parser γ} {next' : State → Parser δ}
    (h : ∀ s t, M.Related s t → s.Resembles t → N.MatchesAt s t (next s) (next' t) T) :
    N.Matches (state >>= next) (state >>= next') T :=
  fun s t hst => MatchesAt.of_not_lost fun hlost => h s t hst (M.resembles hst hlost)

variable {N} in
theorem MatchesAt.look {next : State → Parser γ} {next' : State → Parser δ}
    (h : N.MatchesAt s t (next s) (next' t) T) :
    N.MatchesAt s t (state >>= next) (state >>= next') T :=
  h

theorem take {next : Token → Parser γ} {next' : Token → Parser δ}
    (hnext : ∀ token token', token'.kind = token.kind → N.Matches (next token) (next' token') T) :
    N.Matches (Grammar.advance >>= next) (Grammar.advance >>= next') T := by
  refine fun s t hst => MatchesAt.of_not_lost fun hlost => ?_
  exact hnext _ _ (M.resembles hst hlost).kind_eq _ _ (M.advance hst hlost)

theorem mark {next : Mark → Parser γ} {next' : Mark → Parser δ}
    (hnext : ∀ m m', M.Marks m m' → N.Matches (next m) (next' m') T) :
    N.Matches (Grammar.mark >>= next) (Grammar.mark >>= next') T :=
  fun s t hst => MatchesAt.of_not_lost fun hlost => hnext _ _ (M.mark hst hlost) s t hst

theorem close {m m' : Mark} (hm : M.Marks m m') {children children' : List Node}
    (h : List.Forall₂ M.Nodes children children') {kind : Node.Kind} {payload : Payload} :
    N.Matches (Grammar.close m kind payload children) (Grammar.close m' kind payload children')
      M.Nodes :=
  fun _ _ hst => Or.inr ⟨M.close kind payload hst hm h, hst⟩

theorem placeholder (kind : Node.Kind) :
    N.Matches (Grammar.placeholder kind) (Grammar.placeholder kind) M.Nodes :=
  fun _ _ hst => Or.inr ⟨M.placeholder kind hst, hst⟩

theorem call (goal : Goal) : N.Matches (.call goal .done) (.call goal .done) M.Nodes :=
  N.outcome goal

theorem report (problem : Problem) :
    N.Matches (Grammar.report problem) (Grammar.report problem) Eq := by
  refine fun s t hst => MatchesAt.of_not_lost fun hlost => ?_
  exact (M.report problem hst hlost).imp_right fun hreported => ⟨rfl, hreported⟩

theorem resume : N.Matches Grammar.resume Grammar.resume Eq :=
  fun _ _ hst => Or.inr ⟨rfl, M.resume hst⟩

variable {N}

theorem Matches.single {parser other : Parser Node} (h : N.Matches parser other M.Nodes) :
    N.Matches (Grammar.single parser) (Grammar.single other) (List.Forall₂ M.Nodes) :=
  h.bind fun _ _ hnode => N.done (.cons hnode .nil)

theorem Matches.optionally {parser other : Parser (List Node)}
    (h : N.Matches parser other (List.Forall₂ M.Nodes)) (condition : Bool) :
    N.Matches (Grammar.optionally condition parser) (Grammar.optionally condition other)
      (List.Forall₂ M.Nodes) := by
  rw [Grammar.optionally, Grammar.optionally]
  split_ifs
  · exact h
  · exact N.done .nil

end Rules

theorem matches_reportExpected (wanted : Wanted) :
    N.Matches (reportExpected wanted) (reportExpected wanted) Eq := by
  refine N.look fun s t hst hlike => ?_
  rw [hlike.kind_eq]
  exact N.report _ s t hst

theorem matches_eat (symbol : Symbol) : N.Matches (eat symbol) (eat symbol) Eq := by
  refine N.look fun s t hst hlike => ?_
  rw [hlike.isAt]
  split_ifs
  · exact N.take (fun _ _ _ => N.done rfl) s t hst
  · exact N.done rfl s t hst

theorem matches_eatKeyword (word : Keyword) :
    N.Matches (eatKeyword word) (eatKeyword word) Eq := by
  refine N.look fun s t hst hlike => ?_
  rw [hlike.isAtKeyword]
  split_ifs
  · exact N.take (fun _ _ _ => N.done rfl) s t hst
  · exact N.done rfl s t hst

theorem matches_expect (symbol : Symbol) : N.Matches (expect symbol) (expect symbol) Eq := by
  refine (N.matches_eat symbol).skip fun found => ?_
  split_ifs
  · exact N.resume.skip fun _ => N.done rfl
  · exact N.done rfl
  · exact (N.matches_reportExpected _).skip fun _ => N.done rfl

theorem matches_expectKeyword (word : Keyword) :
    N.Matches (expectKeyword word) (expectKeyword word) Eq := by
  refine (N.matches_eatKeyword word).skip fun found => ?_
  split_ifs
  · exact N.done rfl
  · exact N.matches_reportExpected _

theorem matches_expectClosing (closing : Symbol) :
    N.Matches (expectClosing closing) (expectClosing closing) Eq := by
  refine (N.matches_eat closing).skip fun found => ?_
  split_ifs
  · exact N.done rfl
  · exact N.matches_reportExpected _

theorem matches_expectAngle : N.Matches expectAngle expectAngle Eq := by
  refine N.look fun s t hst hlike => ?_
  rw [hlike.kind_eq]
  split
  · exact N.take (fun _ _ _ => N.done rfl) s t hst
  · refine MatchesAt.of_not_lost fun hlost => ?_
    exact Or.inr ⟨rfl, M.splitShift hst hlost⟩
  · exact (N.matches_reportExpected _).skip (fun _ => N.done rfl) s t hst

theorem loop {step : α → Parser (Step α)} {step' : β → Parser (Step β)} {R : α → β → Prop}
    (hshrinks : Shrinks N.one step) (hshrinks' : Shrinks N.other step')
    (hstep : ∀ a b, R a b → N.Matches (step a) (step' b) (Step.Both R)) {a : α} {b : β}
    (hab : R a b) : N.Matches (Grammar.loop step a) (Grammar.loop step' b) R := by
  intro s t hst
  induction hmeasure : s.remaining using Nat.strongRecOn generalizing s t a b with
  | ind n ih =>
      refine MatchesAt.of_not_lost fun hlost => ?_
      have hlike := M.resembles hst hlost
      have hfirst := hstep a b hab s t hst
      have hless := hshrinks a s hlike.isEof_left
      rw [MatchesAt, hshrinks.run_loop N.onlyTakes_one a hlike.isEof_left,
        hshrinks'.run_loop N.onlyTakes_other b hlike.isEof_right]
      rw [MatchesAt] at hfirst
      generalize (step a).run N.one s = first at hfirst hless ⊢
      generalize (step' b).run N.other t = first' at hfirst ⊢
      rcases first with ⟨one, s'⟩
      rcases first' with ⟨other, t'⟩
      rcases hfirst with hlost' | ⟨hboth, hst'⟩
      · cases one with
        | again next => exact Or.inl (lost_run _ hlost')
        | done last => exact Or.inl hlost'
      · cases hboth with
        | again hab => exact ih s'.remaining (hmeasure ▸ hless _ rfl) hab s' t' hst' rfl
        | done hab => exact Or.inr ⟨hab, hst'⟩

section Lists

variable {N} {item item' : Parser Node} (hitem : N.Matches item item' M.Nodes)
include hitem

theorem Matches.separatedStep {stop : State → Bool}
    (hstop : ∀ s t : State, s.Resembles t → stop t = stop s) {items items' : List Node}
    (h : List.Forall₂ M.Nodes items items') :
    N.Matches (separatedStep stop item items) (separatedStep stop item' items')
      (Step.Both (List.Forall₂ M.Nodes)) := by
  refine N.look fun s t hst hlike => ?_
  rw [hstop s t hlike]
  split_ifs
  · exact N.done (.done h) s t hst
  · refine hitem.bind (fun node node' hnode => ?_) s t hst
    refine (N.matches_eat .comma).skip fun comma => ?_
    split_ifs
    · exact N.done (.again (.cons hnode h))
    · exact N.done (.done (.cons hnode h))

theorem Matches.separated {stop : State → Bool}
    (hstop : ∀ s t : State, s.Resembles t → stop t = stop s) :
    N.Matches (separated stop item) (separated stop item') (List.Forall₂ M.Nodes) := by
  refine Matches.bind (N.loop (Parser.shrinks_separatedStep N.onlyTakes_one stop item)
    (Parser.shrinks_separatedStep N.onlyTakes_other stop item')
    (fun _ _ => hitem.separatedStep hstop) .nil) fun items items' h => ?_
  exact N.done (List.rel_reverse h)

theorem Matches.commaList :
    N.Matches (commaList item) (commaList item') (List.Forall₂ M.Nodes) :=
  hitem.separated fun _ _ _ => rfl

end Lists

theorem isRecoveryPoint_eq {t u : Token} (h : t.Alike u) :
    isRecoveryPoint u = isRecoveryPoint t := by
  simp only [isRecoveryPoint.eq_def, h.kind_eq, h.newlineBefore_eq]

theorem recoveryLength_eq {ts us : List Token} (h : List.Forall₂ Token.Alike ts us)
    (depth count : Nat) : recoveryLength depth count us = recoveryLength depth count ts := by
  induction h generalizing depth count with
  | nil => rfl
  | cons h _ ih =>
      simp only [recoveryLength, h.kind_eq, isRecoveryPoint_eq h, ih]

theorem constructLength_eq {ts us : List Token} (h : List.Forall₂ Token.Alike ts us)
    (depth count : Nat) : constructLength depth count us = constructLength depth count ts := by
  induction h generalizing depth count with
  | nil => rfl
  | cons h _ ih => simp only [constructLength, h.kind_eq, ih]

theorem matches_advanceMany (n : Nat) : N.Matches (advanceMany n) (advanceMany n) Eq := by
  induction n with
  | zero => exact N.done rfl
  | succ n ih => exact N.take fun _ _ _ => ih

/-- How far to go is found out while the parse is recovering. -/
theorem matchesAt_synchronize {s t : State} (hst : M.Related s t) (h : s.recovering = true) :
    N.MatchesAt s t synchronize synchronize Eq := by
  refine MatchesAt.of_not_lost fun hlost => ?_
  have hskipped := (M.resembles hst hlost).skipped h
  have hrun : N.MatchesAt s t
      (advanceMany (recoveryLength 0 0 s.pending) >>= fun _ => Grammar.resume)
      (advanceMany (recoveryLength 0 0 t.pending) >>= fun _ => Grammar.resume) Eq := by
    rw [recoveryLength_eq hskipped]
    exact (N.matches_advanceMany _).skip (fun _ => N.resume) s t hst
  exact hrun

theorem matches_settle : N.Matches settle settle Eq := by
  refine N.look fun s t hst hlike => ?_
  rw [hlike.recovering_eq]
  split_ifs with hrecovering
  · exact N.matchesAt_synchronize hst hrecovering
  · exact N.done rfl s t hst

/-- Since the states have been related the parses have taken equally many tokens. -/
theorem consumed_beq {s t s' t' : State} (hst : M.Related s t) (hst' : M.Related s' t') :
    (t'.consumed == t.consumed) = (s'.consumed == s.consumed) := by
  rw [M.consumed_eq hst, M.consumed_eq hst', Bool.eq_iff_iff, beq_iff_eq, beq_iff_eq]
  exact Nat.add_right_cancel_iff

theorem reported_beq {s t s' t' : State} (hst : M.Related s t) (hst' : M.Related s' t') :
    (t'.reported.length == t.reported.length) = (s'.reported.length == s.reported.length) := by
  rw [M.reported_eq hst, M.reported_eq hst', Bool.eq_iff_iff, beq_iff_eq, beq_iff_eq]
  exact Nat.add_right_cancel_iff

theorem matches_ensureProgress {before before' : State} (h : M.Related before before') :
    N.Matches (ensureProgress before) (ensureProgress before') Eq := by
  have htake : N.Matches (Grammar.advance >>= fun _ => Grammar.resume)
      (Grammar.advance >>= fun _ => Grammar.resume) Eq :=
    N.take fun _ _ _ => N.resume
  refine N.look fun s t hst hlike => ?_
  rw [consumed_beq h hst, reported_beq h hst, hlike.kind_eq]
  split_ifs
  · exact (N.report _).skip (fun _ => htake) s t hst
  · exact htake s t hst
  · exact N.done rfl s t hst

section Sequences

variable {N} {item item' : Parser Node} (hitem : N.Matches item item' M.Nodes)
include hitem

/-- What is said of the items so far has to hold with one more item as well. -/
theorem Matches.sequenceStep (terminator : Terminator) {R : List Node → List Node → Prop}
    (hcons : ∀ {node node' items items'}, M.Nodes node node' → R items items' →
      R (node :: items) (node' :: items')) {items items' : List Node} (h : R items items') :
    N.Matches (sequenceStep terminator item items) (sequenceStep terminator item' items')
      (Step.Both R) := by
  refine N.look fun before before' hbefore hlike => ?_
  have hholds : terminator.holds before' = terminator.holds before := by
    simp only [Terminator.holds.eq_def, hlike.isAtEnd, hlike.isAt, hlike.isAtKeyword]
  rw [hholds, hlike.isAt]
  split_ifs
  · exact N.done (.done h) before before' hbefore
  · refine (N.report _).skip (fun _ => ?_) before before' hbefore
    refine N.take fun _ _ _ => ?_
    exact N.resume.skip fun _ => N.done (.again h)
  · refine hitem.bind (fun node node' hnode => ?_) before before' hbefore
    refine N.look fun after after' hafter _ => ?_
    refine N.matches_settle.skip (fun _ => ?_) after after' hafter
    refine (N.matches_ensureProgress hbefore).skip fun _ => N.done (.again ?_)
    simp only [M.consumed_eq hbefore, M.consumed_eq hafter, Nat.add_lt_add_iff_right]
    split_ifs
    · exact hcons hnode h
    · exact h

theorem Matches.items (terminator : Terminator) {R : List Node → List Node → Prop}
    (hcons : ∀ {node node' items items'}, M.Nodes node node' → R items items' →
      R (node :: items) (node' :: items')) {items items' : List Node} (h : R items items') :
    N.Matches (Grammar.loop (Grammar.sequenceStep terminator item) items)
      (Grammar.loop (Grammar.sequenceStep terminator item') items') R :=
  N.loop (Parser.shrinks_sequenceStep N.onlyTakes_one terminator item)
    (Parser.shrinks_sequenceStep N.onlyTakes_other terminator item')
    (fun _ _ => hitem.sequenceStep terminator hcons) h

theorem Matches.sequence (terminator : Terminator) :
    N.Matches (sequence terminator item) (sequence terminator item') (List.Forall₂ M.Nodes) :=
  (hitem.items terminator .cons .nil).bind fun _ _ h => N.done (List.rel_reverse h)

theorem Matches.braced : N.Matches (braced item) (braced item') (List.Forall₂ M.Nodes) :=
  (hitem.sequence .brace).bind fun _ _ h => (N.matches_expect .rBrace).skip fun _ => N.done h

end Sequences

theorem matches_block : N.Matches block block M.Nodes := by
  refine N.mark fun m m' hm => ?_
  refine (N.matches_expect .lBrace).skip fun opened => ?_
  split_ifs
  · exact (N.call _).braced.bind fun items items' hitems => N.close hm hitems
  · exact N.placeholder .missing

end Nesting

end Simulation

end QoreSyntax.Grammar

import QoreSyntax.Grammar.Script
import QoreSyntax.Proofs.Grammar.Construct
import QoreSyntax.Proofs.Grammar.Iteration

namespace QoreSyntax.Grammar

open Token (Kind)

namespace State

/-- Tokens of the given kinds are ahead, the last ones of a text without faults. Nothing has been
reported, or only that constructs nest too deeply; then the parse is recovering. -/
structure Quiet (limit : Nat) (all : List Token) (kinds : List Kind) (s : State) : Prop where
  kinds_eq : s.pending.map Token.kind = kinds
  isSuffix : s.pending <:+ all
  isValid (t : Token) (h : t ∈ all) : LexicalError.ofToken? t = none
  isEof_final : s.final.isEof = true
  reports : s.recovering = false ∧ s.reported = [] ∨
    s.recovering = true ∧ ∃ range, s.reported = [⟨.syntactic (.tooDeep limit), range⟩]

/-- The parse is quiet and drops all reports. -/
def Muted (limit : Nat) (all : List Token) (kinds : List Kind) (s : State) : Prop :=
  s.recovering = true ∧ s.Quiet limit all kinds

/-- The parse goes on before tokens of the given kinds, the last ones of a text. All that has been
reported is, once at most, that constructs nest too deeply. -/
structure Resumed (limit : Nat) (all : List Token) (kinds : List Kind) (s : State) : Prop where
  kinds_eq : s.pending.map Token.kind = kinds
  isSuffix : s.pending <:+ all
  isEof_final : s.final.isEof = true
  recovering_eq : s.recovering = false
  length_le : s.reported.length ≤ 1
  cause_eq (d : Diagnostic) (h : d ∈ s.reported) : d.cause = .syntactic (.tooDeep limit)

namespace Quiet

variable {limit : Nat} {all : List Token} {kind : Kind} {kinds : List Kind} {s : State}

theorem kind_eq (h : s.Quiet limit all kinds) : s.kind = kinds.headD .eof := by
  rw [← h.kinds_eq, State.kind, current]
  cases s.pending with
  | nil => exact eq_of_beq h.isEof_final
  | cons t rest => rfl

theorem isAt_eq (h : s.Quiet limit all kinds) (mark : Symbol) :
    s.isAt mark = (kinds.headD .eof == .symbol mark) := by
  rw [isAt, h.kind_eq]

theorem isAtEnd_eq (h : s.Quiet limit all (kind :: kinds)) : s.isAtEnd = false := by
  have hkinds := h.kinds_eq
  rw [isAtEnd]
  cases hpending : s.pending with
  | nil =>
      rw [hpending] at hkinds
      cases hkinds
  | cons t rest => rfl

theorem kindAt_eq (h : s.Quiet limit all kinds) (n : Nat) :
    s.kindAt n = kinds[n]?.getD .eof := by
  rw [kindAt, ← h.kinds_eq, List.getElem?_map]
  cases s.pending[n]? with
  | none => exact eq_of_beq h.isEof_final
  | some t => rfl

theorem ofToken?_eq (h : s.Quiet limit all kinds) {t : Token} (ht : t ∈ s.pending) :
    LexicalError.ofToken? t = none :=
  h.isValid t (h.isSuffix.subset ht)

/-- The end marker is not at fault either. -/
theorem ofToken?_current (h : s.Quiet limit all kinds) :
    LexicalError.ofToken? s.current = none := by
  rw [current]
  cases hpending : s.pending with
  | nil =>
      have hfinal : s.final.kind = .eof := eq_of_beq h.isEof_final
      rw [LexicalError.ofToken?, List.head?_nil, Option.getD_none, hfinal]
  | cons t rest =>
      have hmem : t ∈ s.pending := hpending ▸ List.mem_cons_self
      exact h.ofToken?_eq hmem

/-- To take a token changes nothing but the tokens ahead. -/
theorem advance (h : s.Quiet limit all kinds) : s.advance.Quiet limit all kinds.tail := by
  rcases hpending : s.pending with - | ⟨t, rest⟩
  · obtain rfl : [] = kinds := by
      have hkinds := h.kinds_eq
      rwa [hpending] at hkinds
    rw [advance_nil hpending]
    exact h
  · have herror := h.ofToken?_eq (hpending ▸ List.mem_cons_self)
    have hsuffix := h.isSuffix
    have hkinds := h.kinds_eq
    have hreports := h.reports
    rw [hpending] at hsuffix hkinds
    rw [advance_cons hpending, herror]
    refine ⟨?_, (List.suffix_cons t rest).trans hsuffix, h.isValid, h.isEof_final, ?_⟩
    · rw [← hkinds]
      rfl
    · simpa using hreports

theorem advanceMany (h : s.Quiet limit all kinds) (n : Nat) :
    (s.advanceMany n).Quiet limit all (kinds.drop n) := by
  induction n generalizing s kinds with
  | zero => exact h
  | succ n ih =>
      have hrest := ih h.advance
      rwa [List.drop_tail] at hrest

theorem recovering_advance (h : s.Quiet limit all kinds) : s.advance.recovering = s.recovering := by
  rcases hpending : s.pending with - | ⟨t, rest⟩
  · rw [advance_nil hpending]
  · rw [advance_cons hpending, h.ofToken?_eq (hpending ▸ List.mem_cons_self)]
    exact Bool.or_false _

theorem recovering_advanceMany (h : s.Quiet limit all kinds) (n : Nat) :
    (s.advanceMany n).recovering = s.recovering := by
  induction n generalizing s kinds with
  | zero => rfl
  | succ n ih => exact (ih h.advance).trans h.recovering_advance

theorem nest (h : s.Quiet limit all kinds) (depth : Nat) :
    Quiet limit all kinds { s with depth := depth } :=
  ⟨h.kinds_eq, h.isSuffix, h.isValid, h.isEof_final, h.reports⟩

/-- That constructs nest too deeply is reported once. -/
theorem report_tooDeep (h : s.Quiet limit all kinds) :
    (s.report (.tooDeep limit)).Quiet limit all kinds := by
  refine ⟨h.kinds_eq, h.isSuffix, h.isValid, h.isEof_final, Or.inr ⟨rfl, ?_⟩⟩
  rw [report, h.ofToken?_current]
  rcases h.reports with ⟨hrecovering, hreported⟩ | ⟨hrecovering, range, hreported⟩
  · exact ⟨_, by rw [hrecovering, hreported]; rfl⟩
  · exact ⟨range, by rw [hrecovering, hreported]; rfl⟩

/-- A construct that is refused is passed over. -/
theorem refuse (h : s.Quiet limit all kinds) :
    (s.refuse limit).2.Muted limit all (afterConstruct 0 kinds) := by
  have hreport := h.report_tooDeep
  have hpassed := map_kind_drop_constructLength 0 0 (s.report (.tooDeep limit)).pending
  rw [Nat.sub_zero, hreport.kinds_eq, List.map_drop, hreport.kinds_eq] at hpassed
  constructor
  · exact hreport.recovering_advanceMany _
  · have hmany := hreport.advanceMany
      (constructLength 0 0 (s.report (.tooDeep limit)).pending)
    rw [hpassed] at hmany
    exact hmany

/-- Once what has been missed is found the parse goes on. -/
theorem resume (h : s.Quiet limit all kinds) : s.resume.Resumed limit all kinds := by
  refine ⟨h.kinds_eq, h.isSuffix, h.isEof_final, rfl, ?_, ?_⟩
  all_goals
    rcases h.reports with ⟨-, hreported⟩ | ⟨-, range, hreported⟩
    all_goals simp [State.resume, hreported]

end Quiet

theorem Muted.nest {limit : Nat} {all : List Token} {kinds : List Kind} {s : State}
    (h : s.Muted limit all kinds) (depth : Nat) :
    Muted limit all kinds { s with depth := depth } :=
  ⟨h.1, h.2.nest depth⟩

theorem Resumed.nest {limit : Nat} {all : List Token} {kinds : List Kind} {s : State}
    (h : s.Resumed limit all kinds) (depth : Nat) :
    Resumed limit all kinds { s with depth := depth } :=
  ⟨h.kinds_eq, h.isSuffix, h.isEof_final, h.recovering_eq, h.length_le, h.cause_eq⟩

end State

/-- If the repetition goes on, the state is one of `I`, and else one of `Q`. -/
def Step.Keeps {α : Type} (I Q : State → Prop) : Step α → State → Prop
  | .again _, s => I s
  | .done _, s => Q s

namespace Parser

variable {α β : Type} {nested : Goal → State → Node × State} {P P' Q R : State → Prop}
  {p : α → Prop} {q : β → Prop}

/-- From each of the states `P` the parser gets to a result of which `p` holds and to one of the
states `Q`. -/
def Moves (nested : Goal → State → Node × State) (P : State → Prop) (parser : Parser α)
    (p : α → Prop) (Q : State → Prop) : Prop :=
  Ensures nested P parser fun value s => p value ∧ Q s

namespace Moves

variable {parser : Parser α} {next : α → Parser β}

theorem done {value : α} (h : p value) : Moves nested P (pure value) p P :=
  Ensures.done fun _ hs => ⟨h, hs⟩

theorem bind (h : Moves nested P parser p Q)
    (hnext : ∀ value, p value → Moves nested Q (next value) q R) :
    Moves nested P (parser >>= next) q R :=
  Ensures.bind h fun value s hs => hnext value hs.1 s hs.2

/-- What the first parser gets to does not matter. -/
theorem skip (h : Moves nested P parser p Q) (hnext : ∀ value, Moves nested Q (next value) q R) :
    Moves nested P (parser >>= next) q R :=
  h.bind fun value _ => hnext value

theorem or (h : Moves nested P parser p Q) (h' : Moves nested P' parser p Q) :
    Moves nested (fun s => P s ∨ P' s) parser p Q :=
  fun s hs => hs.elim (h s) (h' s)

theorem strengthen (h : Moves nested P parser p Q) (hpre : ∀ s, P' s → P s) :
    Moves nested P' parser p Q :=
  fun s hs => h s (hpre s hs)

theorem weaken (h : Moves nested P parser p Q) (hpost : ∀ s, Q s → R s) :
    Moves nested P parser p R :=
  fun s hs => (h s hs).imp_right (hpost _)

theorem look {next : State → Parser β} (h : ∀ o, P o → Moves nested P (next o) q R) :
    Moves nested P (Grammar.state >>= next) q R :=
  fun s hs => h s hs s hs

theorem keeps_again {parser : Parser (Step α)}
    (h : Moves nested P parser (fun result => ∃ next, result = .again next) Q) :
    Ensures nested P parser (Step.Keeps Q R) := by
  refine Ensures.weaken h ?_
  rintro _ s ⟨⟨next, rfl⟩, hs⟩
  exact hs

theorem keeps_done {parser : Parser (Step α)}
    (h : Moves nested P parser (fun result => ∃ last, result = .done last) R) :
    Ensures nested P parser (Step.Keeps Q R) := by
  refine Ensures.weaken h ?_
  rintro _ s ⟨⟨last, rfl⟩, hs⟩
  exact hs

/-- A repetition ends where a step of it does. -/
theorem loop {step : α → Parser (Step α)} (hshrinks : Shrinks nested step)
    (honly : OnlyTakes nested) (hfinal : ∀ s, P s → s.final.isEof = true)
    (hstep : ∀ value, Ensures nested P (step value) (Step.Keeps P Q)) (value : α) :
    Moves nested P (Grammar.loop step value) (fun _ => True) Q := by
  refine Ensures.weaken (hshrinks.ensures_loop honly (I := fun _ => P) (Q := fun _ => Q)
    (fun _ => hfinal) (fun value => (hstep value).weaken fun result s hs => ?_) value)
    fun _ _ hs => ⟨trivial, hs⟩
  cases result with
  | again next => exact hs
  | done last => exact hs

theorem mark : Moves nested P Grammar.mark (fun _ => True) P :=
  fun _ hs => ⟨trivial, hs⟩

theorem close (m : Mark) (kind : Node.Kind) (payload : Payload) (children : List Node) :
    Moves nested P (Grammar.close m kind payload children) (fun _ => True) P :=
  fun _ hs => ⟨trivial, hs⟩

section Quiet

variable {limit : Nat} {all : List Token} {kind : Kind} {kinds : List Kind}

theorem look_cons {next : State → Parser β}
    (h : ∀ o : State, o.kind = kind →
      Moves nested (State.Quiet limit all (kind :: kinds)) (next o) q R) :
    Moves nested (State.Quiet limit all (kind :: kinds)) (Grammar.state >>= next) q R :=
  look fun o ho => h o ho.kind_eq

theorem advance : Moves nested (State.Quiet limit all (kind :: kinds)) Grammar.advance
    (fun token => token.kind = kind) (State.Quiet limit all kinds) :=
  fun _ hs => ⟨hs.kind_eq, hs.advance⟩

theorem eat (mark : Symbol) : Moves nested (State.Quiet limit all (.symbol mark :: kinds))
    (Grammar.eat mark) (· = true) (State.Quiet limit all kinds) := by
  refine look fun o ho => ?_
  rw [ho.isAt_eq, if_pos (by exact beq_self_eq_true _)]
  exact advance.bind fun _ _ => done rfl

theorem eat_miss {mark : Symbol} (h : kinds.headD .eof ≠ .symbol mark) :
    Moves nested (State.Quiet limit all kinds) (Grammar.eat mark) (· = false)
      (State.Quiet limit all kinds) := by
  refine look fun o ho => ?_
  rw [ho.isAt_eq, if_neg (by rwa [beq_iff_eq])]
  exact done rfl

/-- A token with which the parse does not go on after a mistake is taken like any other. -/
theorem expect {mark : Symbol} (h : endsRecovery mark = false) :
    Moves nested (State.Quiet limit all (.symbol mark :: kinds)) (Grammar.expect mark)
      (· = true) (State.Quiet limit all kinds) := by
  refine (eat mark).bind ?_
  rintro _ rfl
  rw [if_pos rfl, h]
  exact done rfl

/-- With any other token that is found the parse goes on. -/
theorem expect_resumed {mark : Symbol} (h : endsRecovery mark = true) :
    Moves nested (State.Quiet limit all (.symbol mark :: kinds)) (Grammar.expect mark)
      (· = true) (State.Resumed limit all kinds) := by
  refine (eat mark).bind ?_
  rintro _ rfl
  rw [if_pos rfl, h]
  exact fun _ hs => ⟨rfl, hs.resume⟩

theorem expectClosing (mark : Symbol) :
    Moves nested (State.Quiet limit all (.symbol mark :: kinds)) (Grammar.expectClosing mark)
      (fun _ => True) (State.Quiet limit all kinds) := by
  refine (eat mark).bind ?_
  rintro _ rfl
  exact done trivial

/-- While reports are dropped a report changes nothing. -/
theorem report (problem : Problem) : Moves nested (State.Muted limit all kinds)
    (Grammar.report problem) (fun _ => True) (State.Muted limit all kinds) := by
  intro s hs
  refine ⟨trivial, ?_⟩
  change (s.report problem).Muted limit all kinds
  rwa [State.report_of_recovering problem hs.1]

theorem reportExpected (wanted : Wanted) : Moves nested (State.Muted limit all kinds)
    (Grammar.reportExpected wanted) (fun _ => True) (State.Muted limit all kinds) :=
  look fun _ _ => report _

theorem muted_eat_miss {mark : Symbol} (h : kinds.headD .eof ≠ .symbol mark) :
    Moves nested (State.Muted limit all kinds) (Grammar.eat mark) (· = false)
      (State.Muted limit all kinds) := by
  refine look fun o ho => ?_
  rw [ho.2.isAt_eq, if_neg (by rwa [beq_iff_eq])]
  exact done rfl

theorem muted_expect_miss {mark : Symbol} (h : kinds.headD .eof ≠ .symbol mark) :
    Moves nested (State.Muted limit all kinds) (Grammar.expect mark) (fun _ => True)
      (State.Muted limit all kinds) := by
  refine (muted_eat_miss h).bind ?_
  rintro _ rfl
  exact (reportExpected _).skip fun _ => done trivial

end Quiet

end Moves

end Parser

end QoreSyntax.Grammar

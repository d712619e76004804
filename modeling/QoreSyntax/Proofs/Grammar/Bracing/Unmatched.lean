import Mathlib.Data.List.Infix
import QoreSyntax.Proofs.Grammar.Beginning
import QoreSyntax.Proofs.Grammar.Bracing.Nested
import QoreSyntax.Proofs.Grammar.Extent.Script
import QoreSyntax.Proofs.Grammar.Report.Message
import QoreSyntax.Proofs.Grammar.Root

/-!
Braces that are found to be unmatched. In a text of which the braces are nested this is never the
first mistake, and what is read after a mistake is not to blame once the braces have been closed:
the statement behind them has to have a mistake of its own.
-/

namespace QoreSyntax

namespace Token

/-- Every brace that is closed has been opened before, and none is left open. -/
def AreNested (tokens : List Token) : Prop :=
  openBraces tokens = 0 ∧ ∀ before ∈ tokens.inits, 0 ≤ openBraces before

instance (tokens : List Token) : Decidable (AreNested tokens) :=
  inferInstanceAs (Decidable (_ ∧ _))

/-- From no token on are more braces opened than closed. -/
def AreClosing (tokens : List Token) : Prop :=
  ∀ rest, rest <:+ tokens → openBraces rest ≤ 0

/-- The tokens that end behind a position. -/
def endingBehind (p : Position) (tokens : List Token) : List Token :=
  tokens.filter fun t => p < t.range.stop

theorem openBraces_endingBehind_cons (p : Position) (t : Token) (rest : List Token) :
    openBraces (endingBehind p (t :: rest))
      = (if p < t.range.stop then t.kind.braces else 0) + openBraces (endingBehind p rest) := by
  rw [endingBehind, List.filter_cons]
  simp only [decide_eq_true_eq]
  split_ifs
  · exact openBraces_cons t _
  · exact (Int.zero_add _).symm

theorem openBraces_endingBehind (p : Position) (tokens : List Token) :
    openBraces (tokens.filter fun t => t.range.stop ≤ p) + openBraces (endingBehind p tokens)
      = openBraces tokens := by
  induction tokens with
  | nil => rfl
  | cons t rest ih =>
      rw [List.filter_cons, openBraces_endingBehind_cons, openBraces_cons, ← ih]
      by_cases hstop : t.range.stop ≤ p
      · rw [if_pos (decide_eq_true hstop), if_neg hstop.not_gt, openBraces_cons]
        omega
      · rw [if_neg (by simpa using hstop), if_pos (not_le.mp hstop)]
        omega

/-- Tokens behind a position end behind it. -/
theorem Placed.lt_stop {tokens : List Token} {p q : Position} (h : Placed tokens p q) {t : Token}
    (hmem : t ∈ tokens) : p < t.range.stop := by
  induction tokens generalizing p with
  | nil => cases hmem
  | cons first rest ih =>
      obtain ⟨hstart, hsolid, hrest⟩ := h
      have hfirst : p < first.range.stop := hstart.trans_lt hsolid.start_lt_stop
      rcases List.mem_cons.mp hmem with rfl | hmem
      · exact hfirst
      · exact hfirst.trans (ih hrest hmem)

variable {tokens : List Token}

theorem AreNested.areClosing (h : AreNested tokens) : AreClosing tokens := by
  rintro rest ⟨before, rfl⟩
  have hbefore := h.2 before ((List.mem_inits _ _).mpr (List.prefix_append before rest))
  have htotal := h.1
  rw [openBraces_append] at htotal
  omega

theorem AreClosing.tail (h : AreClosing tokens) : AreClosing tokens.tail :=
  fun rest hrest => h rest (hrest.trans tokens.tail_suffix)

/-- A token that is no brace may be replaced. -/
theorem AreClosing.replace {t u : Token} {rest : List Token} (h : AreClosing (t :: rest))
    (hu : u.kind.braces = 0) : AreClosing (u :: rest) := by
  intro part hpart
  rcases List.suffix_cons_iff.mp hpart with rfl | hpart
  · rw [openBraces_cons, hu, Int.zero_add]
    exact h rest (List.suffix_cons t rest)
  · exact h part (hpart.trans (List.suffix_cons t rest))

/-- The first token does not close a brace if as many are opened as closed. -/
theorem AreClosing.kind_ne {t : Token} {rest : List Token} (h : AreClosing (t :: rest))
    (hlevel : openBraces (t :: rest) = 0) : t.kind ≠ .symbol .rBrace := by
  intro hkind
  have hrest := h rest (List.suffix_cons t rest)
  rw [openBraces_cons, hkind] at hlevel
  change -1 + openBraces rest = 0 at hlevel
  omega

end Token

namespace Grammar

open Token (openBraces AreNested AreClosing endingBehind openBraces_endingBehind_cons)

namespace State

/-- The tokens ahead in the second state are those ahead in the first that have not been taken. -/
structure Ahead (s t : State) : Prop where
  before : s.Before t
  closing (h : AreClosing s.pending) : AreClosing t.pending
  behind (p : Position) (h : t.previousEnd ≤ p) :
    openBraces (endingBehind p s.pending) = openBraces (endingBehind p t.pending)

namespace Ahead

theorem of_same {s t : State} (h : s.Before t) (hpending : t.pending = s.pending) : s.Ahead t :=
  ⟨h, fun hs => hpending ▸ hs, fun _ _ => by rw [hpending]⟩

theorem trans {s t u : State} (hst : s.Ahead t) (htu : t.Ahead u) : s.Ahead u :=
  ⟨hst.before.trans htu.before, fun h => htu.closing (hst.closing h), fun p h =>
    (hst.behind p (htu.before.previousEnd_le.trans h)).trans (htu.behind p h)⟩

theorem advance {s : State} (h : s.Ordered) : s.Ahead s.advance := by
  refine ⟨Before.advance h, fun hs => ?_, fun p hp => ?_⟩
  · rw [advance_pending]
    exact hs.tail
  · rcases hpending : s.pending with - | ⟨t, rest⟩
    · rw [advance_nil hpending, hpending]
    · rw [advance_previousEnd hpending] at hp
      rw [advance_pending, hpending, List.tail_cons, openBraces_endingBehind_cons,
        if_neg hp.not_gt, Int.zero_add]

theorem splitShift {s : State} (h : s.Ordered) : s.Ahead s.splitShift := by
  have hbefore := Before.splitShift h
  rcases splitShift_cases s with ⟨t, rest, hpending, hshr⟩ | hsame
  · rw [splitShift_of_shr hpending hshr] at hbefore ⊢
    refine ⟨hbefore, fun hs => ?_, fun p _ => ?_⟩
    · rw [hpending] at hs
      exact hs.replace rfl
    · rw [hpending, openBraces_endingBehind_cons, openBraces_endingBehind_cons, hshr]
      rfl
  · rw [hsame] at hbefore ⊢
    exact of_same hbefore rfl

end Ahead

theorem isTrail_ahead : IsTrail fun s t => s.Ordered → s.Ahead t where
  refl _ h := Ahead.of_same (Before.refl h) rfl
  trans hst htu h := (hst h).trans (htu (hst h).before.ordered)
  advance _ h := Ahead.advance h
  splitShift _ h := Ahead.splitShift h
  report problem s h := Ahead.of_same (isTrail_before.report problem s h) rfl
  resume s h := Ahead.of_same (isTrail_before.resume s h) rfl
  nest depth s h := Ahead.of_same (isTrail_before.nest depth s h) rfl

/-- The parse is between two statements. The braces that have been found to be unmatched have been
taken. -/
structure AtRest (s : State) : Prop where
  isEof_final : s.final.isEof = true
  ordered : s.Ordered
  recovering_eq : s.recovering = false
  closing : AreClosing s.pending
  unmatched {d : Diagnostic} (hmem : d ∈ s.reported) (h : d.cause = .syntactic .unmatchedBrace) :
    d.range.start < s.previousEnd

/-- Since the state `b` no brace has been found to be unmatched before there was another mistake,
and without a mistake no brace is open. -/
structure Matches (b s : State) : Prop where
  before : b.Before s
  reported : ∃ more, s.reported = more ++ b.reported ∧
    (∀ d ∈ more, b.current.range.start ≤ d.range.start) ∧
    (∀ d ∈ more.getLast?, d.cause ≠ .syntactic .unmatchedBrace) ∧
    (more = [] → openBraces s.pending = 0)

theorem Matches.refl {s : State} (h : s.Ordered) (hlevel : openBraces s.pending = 0) :
    s.Matches s :=
  ⟨Before.refl h, [], rfl, List.forall_mem_nil _, fun _ hmem => absurd hmem (Option.not_mem_none _),
    fun _ => hlevel⟩

section Brace

variable {b s : State}

theorem AtRest.exists_pending (h : s.AtRest) (hat : s.isAt .rBrace = true) :
    ∃ t rest, s.pending = t :: rest ∧ t.kind = .symbol .rBrace := by
  obtain ⟨t, rest, hpending⟩ :=
    List.exists_cons_of_ne_nil (pending_ne_nil_of_isAt h.isEof_final hat)
  refine ⟨t, rest, hpending, ?_⟩
  rw [← eq_of_beq hat, kind, current_of_pending hpending]

theorem AtRest.reported_dropBrace (h : s.AtRest) (hat : s.isAt .rBrace = true) :
    s.dropBrace.reported = ⟨.syntactic .unmatchedBrace, s.current.range⟩ :: s.reported := by
  obtain ⟨t, rest, hpending, hkind⟩ := h.exists_pending hat
  have hvalid : LexicalError.ofToken? t = none := by
    rw [LexicalError.ofToken?, hkind]
  have hreport : (s.report .unmatchedBrace).reported
      = ⟨.syntactic .unmatchedBrace, s.current.range⟩ :: s.reported := by
    refine if_neg ?_
    rw [h.recovering_eq, current_of_pending hpending, hvalid]
    exact Bool.false_ne_true
  have hadvance := advance_reported (s := s.report .unmatchedBrace) hpending
  rw [hvalid, hreport] at hadvance
  exact hadvance

theorem AtRest.dropBrace (h : s.AtRest) (hat : s.isAt .rBrace = true) : s.dropBrace.AtRest := by
  have hahead := isTrail_ahead.dropBrace s h.ordered
  have hstart : s.current.range.start < s.dropBrace.previousEnd := by
    obtain ⟨t, rest, hpending, -⟩ := h.exists_pending hat
    have hordered := h.ordered
    rw [Ordered, hpending] at hordered
    have hprevious := advance_previousEnd (s := s.report .unmatchedBrace) hpending
    rw [show s.dropBrace.previousEnd = t.range.stop from hprevious, current_of_pending hpending]
    exact hordered.2.1.start_lt_stop
  refine ⟨?_, hahead.before.ordered, rfl, hahead.closing h.closing, fun {d} hmem hcause => ?_⟩
  · rw [hahead.before.reaches.final_eq]
    exact h.isEof_final
  · rw [h.reported_dropBrace hat] at hmem
    rcases List.mem_cons.mp hmem with rfl | hmem
    · exact hstart
    · exact (h.unmatched hmem hcause).trans_le hahead.before.previousEnd_le

/-- An unmatched brace is not the first mistake. -/
theorem Matches.dropBrace (h : b.Matches s) (hs : s.AtRest) (hat : s.isAt .rBrace = true) :
    b.Matches s.dropBrace := by
  obtain ⟨more, hmore, hbehind, hfirst, hlevel⟩ := h.reported
  obtain ⟨t, rest, hpending, hkind⟩ := hs.exists_pending hat
  have hne : more ≠ [] := by
    intro hnil
    have hclosing := hs.closing
    have hlevel := hlevel hnil
    rw [hpending] at hclosing hlevel
    exact hclosing.kind_ne hlevel hkind
  refine ⟨h.before.trans (isTrail_before.dropBrace s hs.ordered),
    ⟨.syntactic .unmatchedBrace, s.current.range⟩ :: more, ?_, ?_, ?_,
    fun hnil => by cases hnil⟩
  · rw [hs.reported_dropBrace hat, hmore]
    rfl
  · exact List.forall_mem_cons.mpr ⟨h.before.start_le_start, hbehind⟩
  · rwa [List.getLast?_cons_of_ne_nil hne]

end Brace

section Statement

variable {b s : State}

theorem balances_afterStatement (n limit : Nat) (hs : s.HonestSince n) (hopen : s.isAtEnd = false) :
    Balances n 0 s (s.afterStatement limit) :=
  have hcounts : Counts n 0 s (statement.runWithin limit s).2 :=
    (Bracing.sound_parse (Bracing.balance n) limit limit).keeps .statement s hs.isEof_final
  (hcounts.settle hopen).balances hs

theorem AtRest.honestSince (h : s.AtRest) {n : Nat} (hle : n ≤ s.reported.length) :
    s.HonestSince n :=
  ⟨h.isEof_final, hle, fun hrecovering =>
    absurd hrecovering (by rw [h.recovering_eq]; exact Bool.false_ne_true)⟩

theorem AtRest.afterStatement (h : s.AtRest) (limit : Nat) (hopen : s.isAtEnd = false) :
    (s.afterStatement limit).AtRest := by
  have hahead := isTrail_ahead.afterStatement limit s h.ordered
  have hbalances := balances_afterStatement 0 limit (h.honestSince (Nat.zero_le _)) hopen
  refine ⟨hbalances.honest.isEof_final, hahead.before.ordered,
    recovering_afterStatement limit s, hahead.closing h.closing, fun {d} hmem hcause => ?_⟩
  obtain ⟨more, hmore, hmatched⟩ := hbalances.reported
  rw [hmore] at hmem
  rcases List.mem_append.mp hmem with hmem | hmem
  · exact absurd hcause (hmatched d hmem)
  · exact (h.unmatched hmem hcause).trans_le hahead.before.previousEnd_le

/-- Statements close the braces that they open, unless there is a mistake in one of them. -/
theorem Matches.afterStatement (h : b.Matches s) (hs : s.AtRest) (limit : Nat)
    (hopen : s.isAtEnd = false) : b.Matches (s.afterStatement limit) := by
  obtain ⟨more, hmore, hbehind, hfirst, hlevel⟩ := h.reported
  have hle : b.reported.length ≤ s.reported.length := by
    rw [hmore, List.length_append]
    exact Nat.le_add_left _ _
  have hbalances := balances_afterStatement b.reported.length limit (hs.honestSince hle) hopen
  have hreports := isTrail_reportsBehind.afterStatement limit s hs.ordered
  obtain ⟨new, hnew, hmatched⟩ := hbalances.reported
  obtain ⟨new', hnew', hbehind'⟩ := hreports.reported
  obtain rfl : new' = new := List.append_cancel_right (hnew'.symm.trans hnew)
  refine ⟨h.before.trans hreports.before, new' ++ more, ?_, ?_, ?_, fun hnil => ?_⟩
  · rw [hnew, hmore, List.append_assoc]
  · refine List.forall_mem_append.mpr ⟨fun d hmem => ?_, hbehind⟩
    exact h.before.start_le_start.trans (hbehind' d hmem)
  · intro d hmem
    rw [List.getLast?_append] at hmem
    cases hlast : more.getLast? with
    | some e =>
        rw [hlast] at hmem
        exact hfirst d (hlast ▸ hmem)
    | none =>
        rw [hlast] at hmem
        exact hmatched d (List.mem_of_getLast? hmem)
  · obtain ⟨rfl, rfl⟩ := List.append_eq_nil_iff.mp hnil
    have hunexcused : ¬(s.afterStatement limit).Excused b.reported.length := by
      rw [Excused, hnew, hmore, recovering_afterStatement]
      rintro (hlt | ⟨hrecovering, -⟩)
      · exact Nat.lt_irrefl _ hlt
      · cases hrecovering
    have hbalance := hbalances.balance.resolve_left hunexcused
    rw [hlevel rfl, Int.zero_add] at hbalance
    exact hbalance.symm

end Statement

/-- The statements that have been read since the first state, each of them from a state at its
beginning. -/
structure Reads (o : State) (items : List Node) (s : State) : Prop where
  ahead : o.Ahead s
  atRest : s.AtRest
  matched : o.Matches s
  began (item : Node) (hmem : item ∈ items) : ∃ b : State, o.Ahead b ∧ b.AtRest ∧
    b.previousEnd ≤ item.range.start ∧ item.range.start ≤ b.current.range.start ∧
    (openBraces b.pending = 0 → b.Matches s)

namespace Reads

variable {o s : State} {items : List Node}

theorem nil (h : o.AtRest) (hlevel : openBraces o.pending = 0) : o.Reads [] o :=
  ⟨Ahead.of_same (Before.refl h.ordered) rfl, h, Matches.refl h.ordered hlevel,
    List.forall_mem_nil _⟩

theorem dropBrace (h : o.Reads items s) (hat : s.isAt .rBrace = true) :
    o.Reads items s.dropBrace := by
  refine ⟨h.ahead.trans (isTrail_ahead.dropBrace s h.atRest.ordered),
    h.atRest.dropBrace hat, h.matched.dropBrace h.atRest hat, fun item hmem => ?_⟩
  obtain ⟨b, hahead, hrest, hbehind, hbefore, hmatched⟩ := h.began item hmem
  exact ⟨b, hahead, hrest, hbehind, hbefore, fun hlevel => (hmatched hlevel).dropBrace h.atRest hat⟩

theorem statement (h : o.Reads items s) (limit : Nat) (hopen : s.isAtEnd = false) :
    let read := Grammar.statement.runWithin limit s
    o.Reads (if s.consumed < read.2.consumed then read.1 :: items else items)
      (s.afterStatement limit) := by
  intro read
  have hlast := h.atRest
  have hold : ∀ item ∈ items, ∃ b : State, o.Ahead b ∧ b.AtRest ∧
      b.previousEnd ≤ item.range.start ∧ item.range.start ≤ b.current.range.start ∧
      (openBraces b.pending = 0 → b.Matches (s.afterStatement limit)) := by
    intro item hmem
    obtain ⟨b, hahead, hrest, hbehind, hbefore, hmatched⟩ := h.began item hmem
    exact ⟨b, hahead, hrest, hbehind, hbefore,
      fun hlevel => (hmatched hlevel).afterStatement hlast limit hopen⟩
  refine ⟨h.ahead.trans (isTrail_ahead.afterStatement limit s hlast.ordered),
    hlast.afterStatement limit hopen, h.matched.afterStatement hlast limit hopen, ?_⟩
  split_ifs with hconsumed
  · have hspans : Spans s [read.1] read.2 :=
      Spans.account.sound_parse limit limit .statement s hlast.ordered
    refine List.forall_mem_cons.mpr ⟨⟨s, h.ahead, hlast, ?_, ?_, fun hlevel => ?_⟩, hold⟩
    · exact (hspans.placed.mem List.mem_cons_self).1
    · exact statement_start_le limit limit s hconsumed
    · exact (Matches.refl hlast.ordered hlevel).afterStatement hlast limit hopen
  · exact hold

end Reads

theorem reads_statements (limit : Nat) {o : State} (ho : o.AtRest)
    (hlevel : openBraces o.pending = 0) :
    let read := (sequence .endOfInput Grammar.statement).runWithin limit o
    o.Reads read.1.reverse read.2 :=
  (holds_statements limit (fun _ _ h => h.atRest.isEof_final) (fun _ _ h => h.dropBrace)
    (fun _ _ h hopen _ => h.statement limit hopen) (Reads.nil ho hlevel)).1

/-- Before a brace is found to be unmatched there is another mistake. -/
theorem Matches.exists_mistake {b s : State} (h : b.Matches s) {before after : List Diagnostic}
    {d : Diagnostic} (hsplit : s.diagnostics = before ++ d :: after)
    (hcause : d.cause = .syntactic .unmatchedBrace) (hnew : d ∉ b.reported) :
    ∃ e ∈ before, e.cause ≠ .syntactic .unmatchedBrace ∧
      b.current.range.start ≤ e.range.start := by
  obtain ⟨more, hmore, hbehind, hfirst, -⟩ := h.reported
  have holdest : ∀ {e rest}, more.reverse = e :: rest → more.getLast? = some e := by
    intro e rest hreverse
    rw [List.getLast?_eq_head?_reverse, hreverse]
    rfl
  have hne : ∀ {rest}, more.reverse ≠ d :: rest :=
    fun hreverse => hfirst d (holdest hreverse) hcause
  rw [diagnostics, hmore, List.reverse_append] at hsplit
  rcases List.append_eq_append_iff.mp hsplit with ⟨first, rfl, hnext⟩ | ⟨first, hold, hnext⟩
  · cases first with
    | nil => exact absurd hnext hne
    | cons e rest =>
        have hlast := holdest hnext
        refine ⟨e, List.mem_append_right _ List.mem_cons_self, hfirst e hlast, ?_⟩
        exact hbehind e (List.mem_of_getLast? hlast)
  · cases first with
    | nil => exact absurd hnext.symm hne
    | cons e rest =>
        obtain ⟨rfl, -⟩ := List.cons.inj hnext
        refine absurd (List.mem_reverse.mp ?_) hnew
        rw [hold]
        exact List.mem_append_right _ List.mem_cons_self

theorem endingBehind_pending {s : State} (h : s.Ordered) {p : Position}
    (hp : p ≤ s.current.range.start) : endingBehind p s.pending = s.pending := by
  refine List.filter_eq_self.mpr fun t hmem => decide_eq_true ?_
  rcases hpending : s.pending with - | ⟨first, rest⟩
  · rw [hpending] at hmem
    cases hmem
  · rw [Ordered, hpending] at h
    rw [current_of_pending hpending] at hp
    have hplaced : Token.Placed (first :: rest) p s.final.range.start := ⟨hp, h.2⟩
    exact hplaced.lt_stop (hpending ▸ hmem)

theorem Reads.exists_mistake {o s : State} {items : List Node} (h : o.Reads items s)
    (ho : o.reported = []) {before after : List Diagnostic} {d : Diagnostic}
    (hsplit : s.diagnostics = before ++ d :: after)
    (hcause : d.cause = .syntactic .unmatchedBrace) :
    (∃ e ∈ before, e.cause ≠ .syntactic .unmatchedBrace) ∧
      ∀ item ∈ items, item.range.start ≤ d.range.start →
        openBraces (endingBehind item.range.start o.pending) = 0 →
        ∃ e ∈ before, e.cause ≠ .syntactic .unmatchedBrace ∧
          item.range.start ≤ e.range.start := by
  constructor
  · have hnew : d ∉ o.reported := by
      rw [ho]
      exact List.not_mem_nil
    obtain ⟨e, hmem, hother, -⟩ := h.matched.exists_mistake hsplit hcause hnew
    exact ⟨e, hmem, hother⟩
  · intro item hmem hd hlevel
    obtain ⟨b, hahead, hrest, hbehind, hbefore, hmatched⟩ := h.began item hmem
    rw [hahead.behind _ hbehind, endingBehind_pending hrest.ordered hbefore] at hlevel
    have hnew : d ∉ b.reported := fun hold =>
      (hrest.unmatched hold hcause).not_ge (hbehind.trans hd)
    obtain ⟨e, hmem, hother, he⟩ := (hmatched hlevel).exists_mistake hsplit hcause hnew
    exact ⟨e, hmem, hother, hbefore.trans he⟩

theorem atRest_start (text : List Char) (options : Options)
    (h : AreNested (Token.Stream.ofText text options.firstLine).tokens) :
    (start text options).AtRest :=
  ⟨Token.Stream.isEof_ofText_final text options.firstLine, ordered_start text options, rfl,
    h.areClosing, fun hmem => absurd hmem List.not_mem_nil⟩

end State

/-- In a text of which the braces are nested no brace is found to be unmatched before there has been
another mistake. If the braces before a statement are nested as well, that mistake is not in front
of the statement. -/
theorem unmatched_brace_follows_mistake (text : List Char) (options : Options)
    (hnested : AreNested (Token.Stream.ofText text options.firstLine).tokens) :
    let tree := (QoreSyntax.parse text options).1
    let reports := (QoreSyntax.parse text options).2
    ∀ before d after, reports = before ++ d :: after → d.message = "Unmatched '\x7d'" →
      (∃ e ∈ before, e.message ≠ "Unmatched '\x7d'") ∧
        ∀ root, tree.root? = some root → ∀ item ∈ root.children,
          item.range.start ≤ d.range.start →
          openBraces ((Token.Stream.ofText text options.firstLine).tokens.filter
            fun t => t.range.stop ≤ item.range.start) = 0 →
          ∃ e ∈ before, e.message ≠ "Unmatched '\x7d'" ∧ item.range.start ≤ e.range.start := by
  intro tree reports before d after hsplit hmessage
  cases hend : (start text options).isAtEnd with
  | true =>
      have hparse : QoreSyntax.parse text options
          = (Tree.empty, (start text options).diagnostics) := by
        rw [QoreSyntax.parse, script, hend, if_pos rfl]
      rw [show reports = [] from congrArg Prod.snd hparse] at hsplit
      exact absurd hsplit.symm (List.append_ne_nil_of_right_ne_nil _ (List.cons_ne_nil _ _))
  | false =>
      have hparse := script_of_not_isAtEnd options hend
      have hreads := State.reads_statements options.limit (State.atRest_start text options hnested)
        hnested.1
      rw [show reports = _ from congrArg Prod.snd hparse] at hsplit
      have hmistake := hreads.exists_mistake rfl hsplit (Cause.message_eq_unmatched_iff.mp hmessage)
      have hother : ∀ {e : Diagnostic}, e.cause ≠ .syntactic .unmatchedBrace →
          e.message ≠ "Unmatched '\x7d'" :=
        fun hcause hsame => hcause (Cause.message_eq_unmatched_iff.mp hsame)
      refine ⟨hmistake.1.imp fun e he => ⟨he.1, hother he.2⟩, ?_⟩
      intro root hroot item hmem hd hlevel
      rw [show tree = _ from congrArg Prod.fst hparse] at hroot
      obtain rfl := Option.some.inj hroot
      have htotal := Token.openBraces_endingBehind item.range.start
        (Token.Stream.ofText text options.firstLine).tokens
      rw [hlevel, Int.zero_add, hnested.1] at htotal
      obtain ⟨e, he, hcause, hbehind⟩ :=
        hmistake.2 item (List.mem_reverse.mpr hmem) hd htotal
      exact ⟨e, he, hother hcause, hbehind⟩

/-- The second statement has the mistake behind which its brace is found to be unmatched. -/
theorem unmatched_brace_follows_missing_comma :
    let text := "f(); x = \x7ba : b c\x7d;".toList
    let tokens := (Token.Stream.ofText text Options.standard.firstLine).tokens
    let missing : Diagnostic :=
      ⟨.syntactic (.expected (.commaOr .rBrace) (.identifier "c")), ⟨⟨1, 17⟩, ⟨1, 18⟩⟩⟩
    let unmatched : Diagnostic := ⟨.syntactic .unmatchedBrace, ⟨⟨1, 18⟩, ⟨1, 19⟩⟩⟩
    AreNested tokens ∧ (QoreSyntax.parse text Options.standard).2 = [missing, unmatched] ∧
      (∃ e ∈ [missing], e.message ≠ "Unmatched '\x7d'") ∧
      ∃ root, (QoreSyntax.parse text Options.standard).1.root? = some root ∧
        ∃ item ∈ root.children,
          openBraces (tokens.filter fun t => t.range.stop ≤ item.range.start) = 0 ∧
          ∃ e ∈ [missing], e.message ≠ "Unmatched '\x7d'" ∧
            item.range.start ≤ e.range.start := by
  intro text tokens missing unmatched
  have hnested : AreNested tokens := by decide +kernel
  have hreports : (QoreSyntax.parse text Options.standard).2 = [missing] ++ unmatched :: [] := by
    decide +kernel
  have hmistake := unmatched_brace_follows_mistake text Options.standard hnested [missing]
    unmatched [] hreports rfl
  have hitem : ∃ root ∈ (QoreSyntax.parse text Options.standard).1.root?,
      ∃ item ∈ root.children, item.range.start ≤ unmatched.range.start ∧
        openBraces (tokens.filter fun t => t.range.stop ≤ item.range.start) = 0 := by
    decide +kernel
  obtain ⟨root, hroot, item, hmem, hd, hlevel⟩ := hitem
  refine ⟨hnested, hreports, hmistake.1, root, hroot, item, hmem, hlevel, ?_⟩
  exact hmistake.2 root hroot item hmem hd hlevel

/-- In a text of which the braces are nested a brace is found to be unmatched: what is left of the
hash behind the mistake is passed over up to the closing brace, but not the brace. -/
theorem nested_brace_is_found_unmatched :
    let text := "x = \x7ba : b c\x7d;".toList
    AreNested (Token.Stream.ofText text Options.standard.firstLine).tokens ∧
      ∃ d ∈ (QoreSyntax.parse text Options.standard).2, d.message = "Unmatched '\x7d'" := by
  refine ⟨by decide +kernel, ⟨.syntactic .unmatchedBrace, ⟨⟨1, 13⟩, ⟨1, 14⟩⟩⟩, ?_, rfl⟩
  decide +kernel

end Grammar

end QoreSyntax

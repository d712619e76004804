import Mathlib.Data.List.Infix
import QoreSyntax.Proofs.Grammar.Iteration
import QoreSyntax.Proofs.Grammar.Order

namespace QoreSyntax

/-- The reports are in the order of the places that they are about. -/
def Diagnostic.InTextOrder (reports : List Diagnostic) : Prop :=
  reports.Pairwise fun d e => d.range.start ≤ e.range.start

/-- A token at fault is reported where it stands. -/
theorem LexicalError.range_eq {t : Token} {e : LexicalError}
    (h : LexicalError.ofToken? t = some e) : e.range = t.range := by
  rw [LexicalError.ofToken?] at h
  split at h
  · rw [← Option.some.inj h]
  · cases h

namespace Grammar

namespace State

theorem Before.start_le_start {s t : State} (h : s.Before t) :
    s.current.range.start ≤ t.current.range.start := by
  rcases Nat.lt_or_eq_of_le h.reaches.consumed_le with hconsumed | hconsumed
  · exact (h.start_le hconsumed).trans h.ordered.previousEnd_le
  · rw [h.reaches.current_eq hconsumed.symm]

/-- The reports are in the order of the text, and none is about what comes after the start of the
next token. -/
structure Sorted (s : State) : Prop where
  ordered : s.Ordered
  inTextOrder : Diagnostic.InTextOrder s.diagnostics
  start_le : ∀ d ∈ s.reported, d.range.start ≤ s.current.range.start

namespace Sorted

variable {s t : State}

theorem keep (h : s.Sorted) (hst : s.Before t) (hreported : t.reported = s.reported) :
    t.Sorted := by
  refine ⟨hst.ordered, ?_, fun d hmem => ?_⟩
  · rw [diagnostics, hreported]
    exact h.inTextOrder
  · rw [hreported] at hmem
    exact (h.start_le d hmem).trans hst.start_le_start

/-- A report about the token that is next may be added. -/
theorem push (h : s.Sorted) (hst : s.Before t) {d : Diagnostic}
    (hreported : t.reported = d :: s.reported) (hstart : d.range.start = s.current.range.start) :
    t.Sorted := by
  refine ⟨hst.ordered, ?_, fun e hmem => ?_⟩
  · rw [diagnostics, hreported, List.reverse_cons]
    refine List.pairwise_append.mpr ⟨h.inTextOrder, List.pairwise_singleton _ _, ?_⟩
    intro e hmem f hf
    obtain rfl := List.mem_singleton.mp hf
    rw [hstart]
    exact h.start_le e (List.mem_reverse.mp hmem)
  · rw [hreported] at hmem
    rcases List.mem_cons.mp hmem with rfl | hmem
    · rw [hstart]
      exact hst.start_le_start
    · exact (h.start_le e hmem).trans hst.start_le_start

theorem advance (h : s.Sorted) : s.advance.Sorted := by
  rcases hpending : s.pending with - | ⟨u, rest⟩
  · rw [advance_nil hpending]
    exact h
  · have hreported := advance_reported hpending
    cases herror : LexicalError.ofToken? u with
    | none =>
        rw [herror] at hreported
        exact h.keep (Before.advance h.ordered) hreported
    | some e =>
        rw [herror] at hreported
        refine h.push (Before.advance h.ordered) hreported ?_
        rw [current, hpending, Diagnostic.ofLexicalError, LexicalError.range_eq herror]
        rfl

theorem splitShift (h : s.Sorted) : s.splitShift.Sorted := by
  refine h.keep (Before.splitShift h.ordered) ?_
  rcases splitShift_cases s with ⟨u, rest, hpending, hshr⟩ | hsame
  · rw [splitShift_of_shr hpending hshr]
  · rw [hsame]

theorem report (h : s.Sorted) (problem : Problem) : (s.report problem).Sorted := by
  have hbefore : s.Before (s.report problem) :=
    Before.of_same h.ordered (Reaches.report problem s) (report_consumed problem s)
  by_cases hquiet : (s.recovering || (LexicalError.ofToken? s.current).isSome) = true
  · exact h.keep hbefore (if_pos hquiet)
  · exact h.push hbefore (if_neg hquiet) rfl

end Sorted

theorem isTrail_sorted : IsTrail fun s t => s.Sorted → t.Sorted where
  refl _ h := h
  trans hst htu h := htu (hst h)
  advance _ h := h.advance
  splitShift _ h := h.splitShift
  report problem _ h := h.report problem
  resume s h := h.keep (Before.of_same h.ordered (Reaches.resume s) rfl) rfl
  nest depth s h := h.keep (Before.of_same h.ordered (Reaches.nest depth s) rfl) rfl

/-- No report is taken back or changed. -/
theorem isTrail_reported : IsTrail fun s t => s.reported <:+ t.reported where
  refl _ := List.suffix_rfl
  trans hst htu := hst.trans htu
  advance s := by
    rcases hpending : s.pending with - | ⟨u, rest⟩
    · rw [advance_nil hpending]
    · rw [advance_reported hpending]
      exact List.suffix_append _ _
  splitShift s := by
    rcases splitShift_cases s with ⟨u, rest, hpending, hshr⟩ | hsame
    · rw [splitShift_of_shr hpending hshr]
    · rw [hsame]
  report problem s := by
    rw [State.report]
    dsimp only
    split_ifs
    · exact List.suffix_rfl
    · exact List.suffix_cons _ _
  resume _ := List.suffix_rfl
  nest _ _ := List.suffix_rfl

/-- What has been reported since the first state is about its next token or a later one. -/
structure ReportsBehind (s t : State) : Prop where
  before : s.Before t
  reported : ∃ more, t.reported = more ++ s.reported ∧
    ∀ d ∈ more, s.current.range.start ≤ d.range.start

namespace ReportsBehind

variable {s t u : State}

theorem of_same (h : s.Before t) (hreported : t.reported = s.reported) : s.ReportsBehind t :=
  ⟨h, [], hreported, List.forall_mem_nil _⟩

theorem trans (hst : s.ReportsBehind t) (htu : t.ReportsBehind u) : s.ReportsBehind u := by
  obtain ⟨first, hfirst, hbehind⟩ := hst.reported
  obtain ⟨more, hmore, hbehind'⟩ := htu.reported
  refine ⟨hst.before.trans htu.before, more ++ first, ?_, ?_⟩
  · rw [hmore, hfirst, List.append_assoc]
  · refine List.forall_mem_append.mpr ⟨fun d hmem => ?_, hbehind⟩
    exact hst.before.start_le_start.trans (hbehind' d hmem)

theorem advance (h : s.Ordered) : s.ReportsBehind s.advance := by
  have hbefore := Before.advance h
  rcases hpending : s.pending with - | ⟨t, rest⟩
  · rw [advance_nil hpending] at hbefore ⊢
    exact of_same hbefore rfl
  · refine ⟨hbefore, _, advance_reported hpending, fun d hmem => ?_⟩
    obtain ⟨e, herror, rfl⟩ := Option.map_eq_some_iff.mp (Option.mem_toList.mp hmem)
    rw [Diagnostic.ofLexicalError, LexicalError.range_eq herror, current, hpending]
    exact le_rfl

theorem splitShift (h : s.Ordered) : s.ReportsBehind s.splitShift := by
  refine of_same (Before.splitShift h) ?_
  rcases splitShift_cases s with ⟨t, rest, hpending, hshr⟩ | hsame
  · rw [splitShift_of_shr hpending hshr]
  · rw [hsame]

theorem report (problem : Problem) (h : s.Ordered) : s.ReportsBehind (s.report problem) := by
  have hbefore := isTrail_before.report problem s h
  by_cases hquiet : (s.recovering || (LexicalError.ofToken? s.current).isSome) = true
  · exact of_same hbefore (if_pos hquiet)
  · refine ⟨hbefore, [⟨.syntactic problem, s.current.range⟩], if_neg hquiet, fun d hmem => ?_⟩
    obtain rfl := List.mem_singleton.mp hmem
    exact le_rfl

end ReportsBehind

theorem isTrail_reportsBehind : IsTrail fun s t => s.Ordered → s.ReportsBehind t where
  refl _ h := ReportsBehind.of_same (Before.refl h) rfl
  trans hst htu h := (hst h).trans (htu (hst h).before.ordered)
  advance _ h := ReportsBehind.advance h
  splitShift _ h := ReportsBehind.splitShift h
  report problem _ h := ReportsBehind.report problem h
  resume s h := ReportsBehind.of_same (isTrail_before.resume s h) rfl
  nest depth s h := ReportsBehind.of_same (isTrail_before.nest depth s h) rfl

theorem sorted_start (text : List Char) (options : Options) : (start text options).Sorted :=
  ⟨ordered_start text options, List.Pairwise.nil, fun _ hmem => absurd hmem List.not_mem_nil⟩

end State

theorem inTextOrder_script (options : Options) {s : State} (hfinal : s.final.isEof = true)
    (h : s.Sorted) :
    Diagnostic.InTextOrder (script options s).2 ∧ s.diagnostics <+: (script options s).2 := by
  obtain ⟨after, -, hreports, htrail⟩ := exists_script_end options hfinal
  rw [hreports]
  refine ⟨(htrail _ State.isTrail_sorted h).inTextOrder, ?_⟩
  exact List.reverse_prefix.mpr (htrail _ State.isTrail_reported)

/-- The reports about a text are in its order, and so are those that are made when any number of
expressions are read first: the reports about these come first, and those about the rest are added
behind them. -/
theorem reports_are_in_text_order (text : List Char) (options : Options) (count : Nat) :
    let s := (expressions options.limit count (start text options)).2
    Diagnostic.InTextOrder (QoreSyntax.parse text options).2 ∧
      Diagnostic.InTextOrder (script options s).2 ∧ s.diagnostics <+: (script options s).2 := by
  intro s
  have hfinal : (start text options).final.isEof = true :=
    Token.Stream.isEof_ofText_final text options.firstLine
  have hsorted := State.sorted_start text options
  have hreaches := State.isTrail_reaches.expressions options.limit count (start text options)
  refine ⟨(inTextOrder_script options hfinal hsorted).1, ?_⟩
  refine inTextOrder_script options ?_ (State.isTrail_sorted.expressions _ count _ hsorted)
  rw [hreaches.final_eq]
  exact hfinal

end Grammar

end QoreSyntax

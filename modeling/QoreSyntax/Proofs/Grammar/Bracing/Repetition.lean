import QoreSyntax.Proofs.Grammar.Bracing.Statement
import QoreSyntax.Proofs.Grammar.Report.Message
import QoreSyntax.Proofs.Grammar.Report.Order

/-!
Reports that are made twice. After a mistake the parse may go on at the token that it has found to
be wrong, and find it wrong again: this happens at a token with which a statement or declaration
can begin, and at the end of the text, where a closing brace may be missed any number of times.
Elsewhere the token is passed over, or is the brace that is looked for.
-/

namespace QoreSyntax

namespace Diagnostic

/-- The reports about a stretch of the text. -/
def about (r : Range) (reports : List Diagnostic) : List Diagnostic :=
  reports.filter fun d => d.range = r

theorem about_append (r : Range) (reports more : List Diagnostic) :
    about r (reports ++ more) = about r reports ++ about r more :=
  List.filter_append _ _

theorem about_eq_nil {r : Range} {reports : List Diagnostic} (h : ∀ d ∈ reports, d.range ≠ r) :
    about r reports = [] :=
  List.filter_eq_nil_iff.mpr fun d hmem => by simpa using h d hmem

/-- No report about the stretch of the text is repeated, unless it is one of the `points`, about
which there are two reports at most. -/
def Distinct (points : Range → Prop) (r : Range) (reports : List Diagnostic) : Prop :=
  ((about r reports).map message).Nodup ∨ (about r reports).length ≤ 2 ∧ points r

theorem nodup_of_length_le {reports : List Diagnostic} (h : reports.length ≤ 1) :
    (reports.map message).Nodup := by
  rcases reports with - | ⟨d, rest⟩
  · exact List.nodup_nil
  · rw [List.length_cons, Nat.succ_le_succ_iff, Nat.le_zero, List.length_eq_zero_iff] at h
    rw [h]
    exact List.nodup_cons.mpr ⟨List.not_mem_nil, List.nodup_nil⟩

/-- Of reports with different messages one at most says something. -/
theorem length_filter_message_le {reports : List Diagnostic} (h : (reports.map message).Nodup)
    (m : String) : (reports.filter fun e => e.message = m).length ≤ 1 := by
  have hnodup := h.sublist (List.filter_sublist (p := fun e => e.message = m).map message)
  have hsame : ∀ e ∈ reports.filter fun e => e.message = m, e.message = m := by simp
  rcases hreports : reports.filter fun e => e.message = m with - | ⟨d, - | ⟨e, rest⟩⟩
  · exact hreports ▸ Nat.zero_le 1
  · exact hreports ▸ Nat.le_refl 1
  · rw [hreports] at hnodup hsame
    refine absurd ?_ (List.nodup_cons.mp hnodup).1
    rw [hsame d List.mem_cons_self, List.map_cons, hsame e (by simp)]
    exact List.mem_cons_self

theorem distinct_of_length_le {points : Range → Prop} {r : Range} {reports : List Diagnostic}
    (h : (about r reports).length ≤ 1) : Distinct points r reports :=
  Or.inl (nodup_of_length_le h)

theorem distinct_of_nil {points : Range → Prop} {r : Range} {reports : List Diagnostic}
    (h : about r reports = []) : Distinct points r reports :=
  distinct_of_length_le (by rw [h]; exact Nat.zero_le 1)

end Diagnostic

namespace Grammar

open Diagnostic (about Distinct distinct_of_length_le distinct_of_nil)

namespace State

/-- The reports about the next token. -/
def here (s : State) : List Diagnostic :=
  about s.current.range s.reported

/-- All is well with the reports about what has been taken. The recovery points ahead are among
the `points`. -/
structure Tidy (points : Range → Prop) (s : State) : Prop where
  isEof_final : s.final.isEof = true
  ordered : s.Ordered
  located {d : Diagnostic} (hmem : d ∈ s.reported) :
    d.range = s.current.range ∨ d.range.start < s.current.range.start
  recovery {t : Token} (hmem : t ∈ s.pending) (h : isRecoveryPoint t = true) : points t.range
  distinct {r : Range} (h : r.start < s.current.range.start) : Distinct points r s.reported

/-- The next token may be reported, if reports are not dropped: it has not been yet, or is a
recovery point. -/
structure Poised (points : Range → Prop) (s : State) : Prop where
  tidy : s.Tidy points
  valid (h : (LexicalError.ofToken? s.current).isSome = true) : s.here = []
  matched {d : Diagnostic} (hmem : d ∈ s.here) : d.cause ≠ .syntactic .unmatchedBrace
  few (h : s.isAtEnd = false) : s.here = [] ∨
    s.here.length = 1 ∧ (s.recovering = true ∨ isRecoveryPoint s.current = true) ∨
    s.here.length = 2 ∧ s.recovering = true ∧ isRecoveryPoint s.current = true
  atEnd (h : s.isAtEnd = true) :
    (s.here.filter fun d => d.cause ≠ .syntactic (.expected (.symbol .rBrace) .eof)).length ≤ 1 ∧
      (s.recovering = false → s.here = [])

/-- Between the items of a sequence the next token has been reported at most once. -/
structure Paused (points : Range → Prop) (s : State) : Prop where
  tidy : s.Tidy points
  valid (h : (LexicalError.ofToken? s.current).isSome = true) : s.here = []
  matched {d : Diagnostic} (hmem : d ∈ s.here) : d.cause ≠ .syntactic .unmatchedBrace
  few (h : s.isAtEnd = false) : s.here = [] ∨ s.here.length = 1 ∧
    (s.recovering = true ∨ s.isAt .rBrace = true ∨ isRecoveryPoint s.current = true)
  atEnd (h : s.isAtEnd = true) :
    (s.here.filter fun d => d.cause ≠ .syntactic (.expected (.symbol .rBrace) .eof)).length ≤ 1

section

variable {points : Range → Prop} {s t : State}

theorem Tidy.resume (h : s.Tidy points) : s.resume.Tidy points :=
  ⟨h.isEof_final, h.ordered, h.located, h.recovery, h.distinct⟩

theorem Poised.of_clear (htidy : s.Tidy points) (hclear : s.here = []) : s.Poised points where
  tidy := htidy
  valid _ := hclear
  matched hmem := absurd (hclear ▸ hmem) List.not_mem_nil
  few _ := Or.inl hclear
  atEnd _ := by
    rw [hclear]
    exact ⟨Nat.zero_le 1, fun _ => rfl⟩

theorem Poised.paused (h : s.Poised points) (hle : s.isAtEnd = false → s.here.length ≤ 1) :
    s.Paused points where
  tidy := h.tidy
  valid := h.valid
  matched := h.matched
  few hopen := by
    rcases h.few hopen with hnil | ⟨hone, hflag⟩ | ⟨htwo, -⟩
    · exact Or.inl hnil
    · exact Or.inr ⟨hone, hflag.imp_right Or.inr⟩
    · have hle := hle hopen
      omega
  atEnd hend := (h.atEnd hend).1

theorem Paused.of_clear (htidy : s.Tidy points) (hclear : s.here = []) : s.Paused points :=
  (Poised.of_clear htidy hclear).paused fun _ => by
    rw [hclear]
    exact Nat.zero_le 1

theorem Paused.length_le (h : s.Paused points) (hopen : s.isAtEnd = false) : s.here.length ≤ 1 := by
  rcases h.few hopen with hnil | ⟨hone, -⟩
  · rw [hnil]
    exact Nat.zero_le 1
  · exact hone.le

/-- Where no brace is next an item may begin. -/
theorem Paused.poised (h : s.Paused points) (hopen : s.isAtEnd = false)
    (hbrace : s.isAt .rBrace = false) : s.Poised points where
  tidy := h.tidy
  valid := h.valid
  matched := h.matched
  few _ := by
    refine (h.few hopen).imp_right fun hone => Or.inl ⟨hone.1, ?_⟩
    rw [hbrace] at hone
    simpa using hone.2
  atEnd hend := absurd hend (by rw [hopen]; exact Bool.false_ne_true)

/-- What is said about the next token is left behind with it. -/
theorem Tidy.move (h : s.Tidy points) {more : List Diagnostic}
    (hreported : t.reported = more ++ s.reported) (hmore : ∀ d ∈ more, d.range = s.current.range)
    (hdistinct : Distinct points s.current.range t.reported)
    (hlt : s.current.range.start < t.current.range.start) (hfinal : t.final.isEof = true)
    (hordered : t.Ordered)
    (hrecovery : ∀ u ∈ t.pending, isRecoveryPoint u = true → points u.range) :
    t.Tidy points ∧ t.here = [] := by
  have hbefore : ∀ d ∈ t.reported, d.range.start < t.current.range.start := by
    rw [hreported]
    refine List.forall_mem_append.mpr ⟨fun d hmem => ?_, fun d hmem => ?_⟩
    · rwa [hmore d hmem]
    · rcases h.located hmem with hrange | hstart
      · rwa [hrange]
      · exact hstart.trans hlt
  refine ⟨⟨hfinal, hordered, fun hmem => Or.inr (hbefore _ hmem), fun {u} => hrecovery u,
    fun {r} hr => ?_⟩, Diagnostic.about_eq_nil fun d hmem hrange => ?_⟩
  · by_cases hrange : r = s.current.range
    · rw [hrange]
      exact hdistinct
    · have hnone : about r more = [] :=
        Diagnostic.about_eq_nil fun d hmem hd => hrange (hd ▸ hmore d hmem)
      rw [Distinct, hreported, Diagnostic.about_append, hnone, List.nil_append]
      by_cases hstart : r.start < s.current.range.start
      · exact h.distinct hstart
      · refine distinct_of_nil (Diagnostic.about_eq_nil fun d hmem hd => ?_)
        subst hd
        exact (h.located hmem).elim hrange hstart
  · rw [← hrange] at hbefore
    exact (hbefore d hmem).false

theorem exists_pending (hopen : s.isAtEnd = false) :
    ∃ u rest, s.pending = u :: rest ∧ s.current = u := by
  obtain ⟨u, rest, hpending⟩ := List.exists_cons_of_ne_nil (List.isEmpty_eq_false_iff.mp hopen)
  exact ⟨u, rest, hpending, current_of_pending hpending⟩

theorem start_lt_advance (h : s.Ordered) (hopen : s.isAtEnd = false) :
    s.current.range.start < s.advance.current.range.start := by
  obtain ⟨u, rest, hpending, hcurrent⟩ := exists_pending hopen
  have hbefore := (Before.advance h).ordered.previousEnd_le
  rw [advance_previousEnd hpending] at hbefore
  rw [Ordered, hpending] at h
  rw [hcurrent]
  exact h.2.1.start_lt_stop.trans_le hbefore

theorem Tidy.advance (h : s.Tidy points) (hopen : s.isAtEnd = false)
    (hvalid : (LexicalError.ofToken? s.current).isSome = true → s.here = [])
    (hdistinct : Distinct points s.current.range s.reported) :
    s.advance.Tidy points ∧ s.advance.here = [] := by
  obtain ⟨u, rest, hpending, hcurrent⟩ := exists_pending hopen
  have hreported := advance_reported hpending
  refine h.move hreported (fun d hmem => ?_) ?_ (start_lt_advance h.ordered hopen)
    (by rw [advance_final]; exact h.isEof_final) (Before.advance h.ordered).ordered fun v hmem => ?_
  · obtain ⟨e, herror, rfl⟩ := Option.map_eq_some_iff.mp (Option.mem_toList.mp hmem)
    rw [hcurrent]
    exact LexicalError.range_eq herror
  · rw [hreported]
    cases herror : LexicalError.ofToken? u with
    | none => exact hdistinct
    | some e =>
        have hclear : about s.current.range s.reported = [] :=
          hvalid (by rw [hcurrent, herror]; rfl)
        refine distinct_of_length_le ?_
        rw [Diagnostic.about_append, hclear, List.append_nil]
        exact List.length_filter_le _ _
  · rw [advance_pending] at hmem
    exact h.recovery (List.mem_of_mem_tail hmem)

theorem Tidy.splitShift (h : s.Tidy points) {u : Token} {rest : List Token}
    (hpending : s.pending = u :: rest) (hshr : u.kind = .symbol .shr)
    (hdistinct : Distinct points s.current.range s.reported) :
    s.splitShift.Tidy points ∧ s.splitShift.here = [] := by
  have hordered := (Before.splitShift h.ordered).ordered
  have hcurrent := current_of_pending hpending
  have hreported : s.splitShift.reported = [] ++ s.reported := by
    rw [splitShift_of_shr hpending hshr]
    rfl
  rw [splitShift_of_shr hpending hshr] at hordered hreported ⊢
  refine h.move hreported (List.forall_mem_nil _) hdistinct ?_ h.isEof_final hordered
    fun v hmem => ?_
  · rw [hcurrent]
    exact Position.lt_iff.mpr (Or.inr ⟨rfl, Nat.lt_succ_self _⟩)
  · rcases List.mem_cons.mp hmem with rfl | hmem
    · exact fun hpoint => Bool.noConfusion hpoint
    · exact h.recovery (hpending ▸ List.mem_cons_of_mem u hmem)

/-- What has been said about the next token may be left behind. -/
theorem Poised.distinct (h : s.Poised points) (hopen : s.isAtEnd = false) :
    Distinct points s.current.range s.reported := by
  rcases h.few hopen with hnil | ⟨hone, -⟩ | ⟨htwo, -, hpoint⟩
  · exact distinct_of_nil hnil
  · exact distinct_of_length_le hone.le
  · obtain ⟨u, rest, hpending, hcurrent⟩ := exists_pending hopen
    have hmem : s.current ∈ s.pending := by
      rw [hpending, hcurrent]
      exact List.mem_cons_self
    exact Or.inr ⟨htwo.le, h.tidy.recovery hmem hpoint⟩

theorem Poised.advance (h : s.Poised points) (hopen : s.isAtEnd = false) :
    s.advance.Tidy points ∧ s.advance.here = [] :=
  h.tidy.advance hopen h.valid (h.distinct hopen)

theorem Paused.advance (h : s.Paused points) (hopen : s.isAtEnd = false) :
    s.advance.Tidy points ∧ s.advance.here = [] :=
  h.tidy.advance hopen h.valid (distinct_of_length_le (h.length_le hopen))

end

section

variable {points : Range → Prop} {s t : State}

theorem here_report_of_dropped (problem : Problem)
    (h : (s.recovering || (LexicalError.ofToken? s.current).isSome) = true) :
    (s.report problem).here = s.here :=
  congrArg (about s.current.range) (if_pos h)

theorem here_report (problem : Problem)
    (h : (s.recovering || (LexicalError.ofToken? s.current).isSome) = false) :
    (s.report problem).here = ⟨.syntactic problem, s.current.range⟩ :: s.here := by
  have hreported : (s.report problem).reported
      = ⟨.syntactic problem, s.current.range⟩ :: s.reported :=
    if_neg (by rw [h]; exact Bool.false_ne_true)
  change about s.current.range (s.report problem).reported = _
  rw [hreported]
  exact List.filter_cons_of_pos (decide_eq_true rfl)

theorem length_here_report_le (problem : Problem) (s : State) :
    (s.report problem).here.length ≤ s.here.length + 1 := by
  cases hdropped : s.recovering || (LexicalError.ofToken? s.current).isSome with
  | true =>
      rw [here_report_of_dropped problem hdropped]
      exact Nat.le_succ _
  | false => rw [here_report problem hdropped, List.length_cons]

theorem Tidy.report (h : s.Tidy points) (problem : Problem) :
    (s.report problem).Tidy points := by
  cases hdropped : s.recovering || (LexicalError.ofToken? s.current).isSome with
  | true =>
      have hreported : (s.report problem).reported = s.reported := if_pos hdropped
      refine ⟨h.isEof_final, h.ordered, fun hmem => ?_, h.recovery, fun hr => ?_⟩
      · exact h.located (hreported ▸ hmem)
      · rw [hreported]
        exact h.distinct hr
  | false =>
      have hreported : (s.report problem).reported
          = ⟨.syntactic problem, s.current.range⟩ :: s.reported :=
        if_neg (by rw [hdropped]; exact Bool.false_ne_true)
      refine ⟨h.isEof_final, h.ordered, fun hmem => ?_, h.recovery, fun {r} hr => ?_⟩
      · rw [hreported] at hmem
        rcases List.mem_cons.mp hmem with rfl | hmem
        · exact Or.inl rfl
        · exact h.located hmem
      · have hother : s.current.range ≠ r := fun hsame => hr.ne (congrArg Range.start hsame.symm)
        rw [hreported, Distinct, about, List.filter_cons_of_neg (by simpa using hother)]
        exact h.distinct hr

/-- At a recovery point a second report may be made. -/
theorem Poised.report (h : s.Poised points) {problem : Problem}
    (hproblem : problem ≠ .unmatchedBrace) : (s.report problem).Poised points := by
  cases hrecovering : s.recovering with
  | true =>
      rw [report_of_recovering problem hrecovering]
      exact h
  | false =>
      have htidy := h.tidy.report problem
      cases hfault : (LexicalError.ofToken? s.current).isSome with
      | true =>
          refine Poised.of_clear htidy ?_
          rw [here_report_of_dropped problem (by rw [hfault, Bool.or_true])]
          exact h.valid hfault
      | false =>
          have hhere := here_report problem (s := s) (by rw [hrecovering, hfault, Bool.or_false])
          refine ⟨htidy, fun h => Bool.noConfusion (hfault.symm.trans h), fun {d} hmem => ?_,
            fun hopen => ?_, fun hend => ?_⟩
          · rw [hhere] at hmem
            rcases List.mem_cons.mp hmem with rfl | hmem
            · exact fun hcause => hproblem (Cause.syntactic.inj hcause)
            · exact h.matched hmem
          · rw [hhere, List.length_cons]
            rcases h.few hopen with hnil | ⟨hone, hflag⟩ | ⟨-, hflag, -⟩
            · exact Or.inr (Or.inl ⟨by rw [hnil, List.length_nil], Or.inl rfl⟩)
            · have hpoint := hflag.resolve_left (by rw [hrecovering]; exact Bool.false_ne_true)
              exact Or.inr (Or.inr ⟨by rw [hone], rfl, hpoint⟩)
            · exact Bool.noConfusion (hrecovering.symm.trans hflag)
          · rw [hhere, (h.atEnd hend).2 hrecovering]
            exact ⟨List.length_filter_le _ _, fun h => Bool.noConfusion h⟩

/-- At the end of the text every brace that is still open is missed. -/
theorem Paused.unclosed (h : s.Paused points) (hend : s.isAtEnd = true) :
    (s.report (.expected (.symbol .rBrace) s.kind)).Poised points := by
  have htidy := h.tidy.report (.expected (.symbol .rBrace) s.kind)
  have hkind : s.kind = .eof := by
    rw [kind, current, isAtEnd_iff.mp hend]
    exact eq_of_beq h.tidy.isEof_final
  have hopen : ∀ {P : Prop}, s.isAtEnd = false → P := fun hopen =>
    Bool.noConfusion (hend.symm.trans hopen)
  cases hrecovering : s.recovering with
  | true =>
      rw [report_of_recovering _ hrecovering]
      exact ⟨h.tidy, h.valid, h.matched, hopen,
        fun _ => ⟨h.atEnd hend, fun hfalse => Bool.noConfusion (hrecovering.symm.trans hfalse)⟩⟩
  | false =>
      have hvalid : LexicalError.ofToken? s.current = none := by
        rw [LexicalError.ofToken?, show s.current.kind = .eof from hkind]
      have hhere := here_report (.expected (.symbol .rBrace) s.kind) (s := s)
        (by rw [hrecovering, hvalid]; rfl)
      rw [hkind] at hhere htidy ⊢
      refine ⟨htidy, fun hfault => ?_, fun {d} hmem => ?_, hopen,
        fun _ => ⟨?_, fun h => Bool.noConfusion h⟩⟩
      · have hsome : (LexicalError.ofToken? s.current).isSome = true := hfault
        rw [hvalid] at hsome
        cases hsome
      · rw [hhere] at hmem
        rcases List.mem_cons.mp hmem with rfl | hmem
        · exact fun hcause => by cases hcause
        · exact h.matched hmem
      · rw [hhere, List.filter_cons_of_neg (by simp)]
        exact h.atEnd hend

end

theorem Reaches.isAtEnd_eq {s t : State} (h : s.Reaches t) (heq : t.consumed = s.consumed) :
    t.isAtEnd = s.isAtEnd := by
  rw [isAtEnd, isAtEnd, h.pending_eq heq]

/-- No report is taken back on the way to the state. -/
structure Extends (s t : State) : Prop where
  reaches : s.Reaches t
  reported : s.reported <:+ t.reported

theorem isTrail_extends : IsTrail Extends where
  refl s := ⟨Reaches.refl s, isTrail_reported.refl s⟩
  trans hst htu := ⟨hst.reaches.trans htu.reaches, hst.reported.trans htu.reported⟩
  advance s := ⟨Reaches.advance s, isTrail_reported.advance s⟩
  splitShift s := ⟨Reaches.splitShift s, isTrail_reported.splitShift s⟩
  report problem s := ⟨Reaches.report problem s, isTrail_reported.report problem s⟩
  resume s := ⟨Reaches.resume s, isTrail_reported.resume s⟩
  nest depth s := ⟨Reaches.nest depth s, isTrail_reported.nest depth s⟩

/-- What comes after a state in which the next token may be reported. As long as no token is taken
there is one more report at most. -/
structure LeadsTo (points : Range → Prop) (s t : State) : Prop where
  goes : s.Extends t
  poised (h : s.Poised points) : t.Poised points
  taken (h : s.Poised points) (hlt : s.consumed < t.consumed) :
    (t.recovering = false → t.here = []) ∧ (t.isAtEnd = false → t.here.length ≤ 1)
  same (h : s.Poised points) (heq : t.consumed = s.consumed) :
    t.here = s.here ∧ t.recovering = s.recovering ∨
      s.recovering = false ∧ t.recovering = true ∧ t.here.length ≤ s.here.length + 1

namespace LeadsTo

variable {points : Range → Prop} {s t u : State}

theorem refl (s : State) : s.LeadsTo points s :=
  ⟨isTrail_extends.refl s, id, fun _ hlt => absurd hlt (Nat.lt_irrefl _),
    fun _ _ => Or.inl ⟨rfl, rfl⟩⟩

/-- Behind a token of which nothing has been said anything may come. -/
theorem of_clear (hgoes : s.Extends t) (hlt : s.consumed < t.consumed)
    (hclear : s.Poised points → t.Tidy points ∧ t.here = []) : s.LeadsTo points t := by
  refine ⟨hgoes, fun h => ?_, fun h _ => ⟨fun _ => (hclear h).2, fun _ => ?_⟩,
    fun _ heq => absurd heq hlt.ne'⟩
  · exact Poised.of_clear (hclear h).1 (hclear h).2
  · rw [(hclear h).2]
    exact Nat.zero_le 1

theorem trans (hst : s.LeadsTo points t) (htu : t.LeadsTo points u) : s.LeadsTo points u := by
  refine ⟨isTrail_extends.trans hst.goes htu.goes, fun h => htu.poised (hst.poised h),
    fun h hlt => ?_, fun h heq => ?_⟩
  · rcases Nat.lt_or_eq_of_le htu.goes.reaches.consumed_le with htaken | heq
    · exact htu.taken (hst.poised h) htaken
    · obtain ⟨hclear, hle⟩ := hst.taken h (heq ▸ hlt)
      rcases htu.same (hst.poised h) heq.symm with ⟨hhere, hrecovering⟩ | ⟨hopen, hrecovering, hone⟩
      · rw [hhere, hrecovering, htu.goes.reaches.isAtEnd_eq heq.symm]
        exact ⟨hclear, hle⟩
      · rw [hclear hopen] at hone
        exact ⟨fun hfalse => Bool.noConfusion (hrecovering.symm.trans hfalse), fun _ => hone⟩
  · have hle := hst.goes.reaches.consumed_le
    have hle' := htu.goes.reaches.consumed_le
    have hfirst := hst.same h (by omega)
    have hsecond := htu.same (hst.poised h) (by omega)
    rcases hsecond with ⟨hhere, hrecovering⟩ | ⟨hopen, hrecovering, hone⟩
    · rw [hhere, hrecovering]
      exact hfirst
    · rcases hfirst with ⟨hhere, hrecovering'⟩ | ⟨-, hrecovering', -⟩
      · rw [← hhere, ← hrecovering']
        exact Or.inr ⟨hopen, hrecovering, hone⟩
      · exact Bool.noConfusion (hopen.symm.trans hrecovering')

theorem advance (s : State) : s.LeadsTo points s.advance := by
  cases hend : s.isAtEnd with
  | true =>
      rw [advance_nil (isAtEnd_iff.mp hend)]
      exact refl s
  | false =>
      have hbeyond := beyond_advance (List.isEmpty_eq_false_iff.mp hend)
      exact of_clear (isTrail_extends.advance s) hbeyond.consumed_lt fun h => h.advance hend

/-- Only a state in which the next token may be reported counts. -/
theorem of_not_poised (hgoes : s.Extends t) (h : ¬s.Poised points) : s.LeadsTo points t :=
  ⟨hgoes, fun hs => absurd hs h, fun hs => absurd hs h, fun hs => absurd hs h⟩

theorem proceed {symbol : Symbol} (hat : s.isAt symbol = true) :
    s.LeadsTo points s.advance.resume := by
  have hgoes := isTrail_extends.trans (isTrail_extends.advance s) (isTrail_extends.resume _)
  cases hend : s.isAtEnd with
  | true =>
      refine of_not_poised hgoes fun h => ?_
      exact pending_ne_nil_of_isAt h.tidy.isEof_final hat (isAtEnd_iff.mp hend)
  | false =>
      have hbeyond := beyond_advance (List.isEmpty_eq_false_iff.mp hend)
      exact of_clear hgoes hbeyond.consumed_lt fun h =>
        ⟨(h.advance hend).1.resume, (h.advance hend).2⟩

theorem splitShift (s : State) : s.LeadsTo points s.splitShift := by
  have hgoes := isTrail_extends.splitShift s
  rcases splitShift_cases s with ⟨u, rest, hpending, hshr⟩ | hsame
  · have hopen : s.isAtEnd = false := by
      rw [isAtEnd, hpending]
      rfl
    have hlt : s.consumed < s.splitShift.consumed := by
      rw [splitShift_of_shr hpending hshr]
      exact Nat.lt_succ_self _
    exact of_clear hgoes hlt fun h => h.tidy.splitShift hpending hshr (h.distinct hopen)
  · rw [hsame]
    exact refl s

theorem nest (depth : Nat) (s : State) : s.LeadsTo points { s with depth := depth } := by
  refine ⟨isTrail_extends.nest depth s, fun h => ?_, fun _ hlt => absurd hlt (Nat.lt_irrefl _),
    fun _ _ => Or.inl ⟨rfl, rfl⟩⟩
  exact ⟨⟨h.tidy.isEof_final, h.tidy.ordered, h.tidy.located, h.tidy.recovery, h.tidy.distinct⟩,
    h.valid, h.matched, h.few, h.atEnd⟩

theorem report {problem : Problem} (hproblem : problem ≠ .unmatchedBrace) (s : State) :
    s.LeadsTo points (s.report problem) := by
  refine ⟨isTrail_extends.report problem s, fun h => h.report hproblem,
    fun _ hlt => absurd hlt (Nat.lt_irrefl _), fun _ _ => ?_⟩
  cases hrecovering : s.recovering with
  | true =>
      rw [report_of_recovering problem hrecovering]
      exact Or.inl ⟨rfl, hrecovering⟩
  | false => exact Or.inr ⟨rfl, rfl, length_here_report_le problem s⟩

end LeadsTo

section

variable {points : Range → Prop} {o s t u : State}

theorem Tidy.advanceMany (h : s.Tidy points) (hclear : s.here = []) (n : Nat) :
    (s.advanceMany n).Tidy points ∧ (s.advanceMany n).here = [] := by
  induction n generalizing s with
  | zero => exact ⟨h, hclear⟩
  | succ n ih =>
      cases hend : s.isAtEnd with
      | true =>
          rw [State.advanceMany, advance_nil (isAtEnd_iff.mp hend)]
          exact ih h hclear
      | false =>
          obtain ⟨htidy, hnext⟩ := h.advance hend (fun _ => hclear) (distinct_of_nil hclear)
          exact ih htidy hnext

/-- Where no token is passed over, the parse stands at a brace or a recovery point. -/
theorem synchronize_cases (s : State) :
    (s.isAtEnd = false ∧ ∃ n, s.synchronize = (s.advanceMany (n + 1)).resume) ∨
      (s.synchronize = s.resume ∧ (s.isAtEnd = false →
        s.isAt .rBrace = true ∨ isRecoveryPoint s.current = true)) := by
  rcases hlength : recoveryLength 0 0 s.pending with - | n
  · right
    refine ⟨by rw [synchronize, hlength]; rfl, fun hopen => ?_⟩
    obtain ⟨u, rest, hpending, hcurrent⟩ := exists_pending hopen
    by_contra hother
    rw [not_or, Bool.not_eq_true, Bool.not_eq_true, isAt, kind, hcurrent] at hother
    rw [hpending] at hlength
    exact (recoveryLength_pos rest (ne_of_beq_false hother.1) hother.2).ne' hlength
  · left
    refine ⟨?_, n, by rw [synchronize, hlength]⟩
    refine List.isEmpty_eq_false_iff.mpr fun hnil => ?_
    rw [hnil] at hlength
    cases hlength

/-- Either tokens are passed over, or there is no need to. -/
theorem Poised.settle_cases (h : s.Poised points) :
    (s.consumed < s.settle.consumed ∧ s.settle.Tidy points ∧ s.settle.here = []) ∨
      (s.settle = s.resume ∧ (s.recovering = true → s.isAtEnd = false →
        s.isAt .rBrace = true ∨ isRecoveryPoint s.current = true)) := by
  cases hrecovering : s.recovering with
  | true =>
      rw [settle, hrecovering, if_pos rfl]
      rcases synchronize_cases s with ⟨hopen, n, hpassed⟩ | ⟨hstays, hpoint⟩
      · obtain ⟨htidy, hclear⟩ := h.advance hopen
        obtain ⟨htidy', hclear'⟩ := htidy.advanceMany hclear n
        rw [hpassed]
        refine Or.inl ⟨?_, htidy'.resume, hclear'⟩
        exact (beyond_advance (List.isEmpty_eq_false_iff.mp hopen)).consumed_lt.trans_le
          (isTrail_reaches.advanceMany n s.advance).consumed_le
      · exact Or.inr ⟨hstays, fun _ => hpoint⟩
  | false =>
      rw [settle, hrecovering, if_neg Bool.false_ne_true]
      refine Or.inr ⟨?_, fun hfalse => absurd hfalse Bool.false_ne_true⟩
      rw [resume, ← hrecovering]

/-- Once reports are made again there may be one more, unless the next token has been reported. -/
theorem Poised.resume (h : s.Poised points) (hopen : s.isAtEnd = false) (hle : s.here.length ≤ 1)
    (hpoint : s.here ≠ [] → isRecoveryPoint s.current = true) : s.resume.Poised points := by
  refine ⟨h.tidy.resume, h.valid, h.matched, fun _ => ?_,
    fun hend => absurd (hopen.symm.trans hend) Bool.false_ne_true⟩
  rcases h.few hopen with hnil | ⟨hone, -⟩ | ⟨htwo, -⟩
  · exact Or.inl hnil
  · refine Or.inr (Or.inl ⟨hone, Or.inr (hpoint fun hnil => ?_)⟩)
    rw [hnil] at hone
    cases hone
  · omega

/-- Behind an item that has taken a token its sequence goes on. -/
theorem Poised.paused_resume (h : s.Poised points) (hclear : s.recovering = false → s.here = [])
    (hle : s.isAtEnd = false → s.here.length ≤ 1)
    (hpoint : s.recovering = true → s.isAtEnd = false →
      s.isAt .rBrace = true ∨ isRecoveryPoint s.current = true) : s.resume.Paused points := by
  refine ⟨h.tidy.resume, h.valid, h.matched, fun hopen => ?_, fun hend => (h.atEnd hend).1⟩
  rcases h.few hopen with hnil | ⟨hone, -⟩ | ⟨htwo, -⟩
  · exact Or.inl hnil
  · cases hrecovering : s.recovering with
    | true => exact Or.inr ⟨hone, Or.inr (hpoint hrecovering hopen)⟩
    | false => exact Or.inl (hclear hrecovering)
  · have hle := hle hopen
    omega

/-- An item that takes no token may report the next one again, at a recovery point alone. -/
theorem Poised.isRecoveryPoint (h : s.Poised points) (hopen : s.isAtEnd = false)
    (hbrace : s.isAt .rBrace = false) (hpoint : s.recovering = true → s.isAtEnd = false →
      s.isAt .rBrace = true ∨ isRecoveryPoint s.current = true) (hhere : s.here ≠ []) :
    Grammar.isRecoveryPoint s.current = true := by
  cases hrecovering : s.recovering with
  | true =>
      refine (hpoint hrecovering hopen).resolve_left ?_
      rw [hbrace]
      exact Bool.false_ne_true
  | false =>
      rcases (h.few hopen).resolve_left hhere with ⟨-, hflag⟩ | ⟨-, hflag, -⟩
      · refine hflag.resolve_left ?_
        rw [hrecovering]
        exact Bool.false_ne_true
      · exact absurd (hrecovering.symm.trans hflag) Bool.false_ne_true

/-- Behind an item the next token has been reported once at most. -/
theorem Paused.settle (h : s.Paused points) (hopen : s.isAtEnd = false)
    (hbrace : s.isAt .rBrace = false) (hst : s.LeadsTo points t) :
    (t.settle.ensureProgress s).Paused points := by
  have hs := h.poised hopen hbrace
  have ht := hst.poised hs
  rcases ht.settle_cases with ⟨hlt, htidy, hclear⟩ | ⟨hstays, hpoint⟩
  · have hprogress := hst.goes.reaches.consumed_le.trans_lt hlt
    rw [ensureProgress, if_neg hprogress.ne']
    exact Paused.of_clear htidy hclear
  · rw [hstays, ensureProgress]
    rcases Nat.lt_or_eq_of_le hst.goes.reaches.consumed_le with hlt | heq
    · obtain ⟨hclear, hle⟩ := hst.taken hs hlt
      rw [if_neg (show t.resume.consumed ≠ s.consumed from hlt.ne')]
      exact ht.paused_resume hclear hle hpoint
    · have hcurrent : t.current = s.current := hst.goes.reaches.current_eq heq.symm
      have hopen' : t.isAtEnd = false := by
        rw [hst.goes.reaches.isAtEnd_eq heq.symm]
        exact hopen
      have hbrace' : t.isAt .rBrace = false := by
        rw [isAt, kind, hcurrent]
        exact hbrace
      rw [if_pos (show t.resume.consumed = s.consumed from heq.symm)]
      split_ifs with hlength
      · have hreported : s.reported = t.reported := hst.goes.reported.eq_of_length hlength.symm
        have hhere : t.here = s.here := by
          rw [here, here, hcurrent, hreported]
        have hresume := ht.resume hopen' (hhere ▸ h.length_le hopen)
          (ht.isRecoveryPoint hopen' hbrace' hpoint)
        have hreport : (t.resume.report (.unexpected t.resume.kind)).Poised points :=
          hresume.report (by simp)
        obtain ⟨htidy, hclear⟩ := hreport.advance hopen'
        exact Paused.of_clear htidy.resume hclear
      · obtain ⟨htidy, hclear⟩ := ht.tidy.resume.advance hopen' ht.valid (ht.distinct hopen')
        exact Paused.of_clear htidy.resume hclear

theorem Paused.skipToArm (h : s.Paused points) (hopen : s.isAtEnd = false)
    (hbrace : s.isAt .rBrace = false) : s.skipToArm.Paused points := by
  have hreport : (s.report (.expected .caseOrDefault s.kind)).Poised points :=
    (h.poised hopen hbrace).report (by simp)
  have hsettle : (s.report (.expected .caseOrDefault s.kind)).settle
      = (s.report (.expected .caseOrDefault s.kind)).synchronize := if_pos rfl
  rcases hreport.settle_cases with ⟨hlt, htidy, hclear⟩ | ⟨hstays, -⟩
  · rw [hsettle] at hlt htidy hclear
    rw [report_consumed] at hlt
    rw [State.skipToArm, if_neg hlt.ne']
    exact Paused.of_clear htidy hclear
  · rw [hsettle] at hstays
    rw [State.skipToArm, hstays]
    split_ifs with hsame
    · obtain ⟨htidy, hclear⟩ := hreport.tidy.resume.advance hopen hreport.valid
        (hreport.distinct hopen)
      exact Paused.of_clear htidy hclear
    · exact absurd rfl hsame

/-- A closing brace that nothing has opened is reported at most once after another report. -/
theorem Paused.dropBrace (h : s.Paused points) (hat : s.isAt .rBrace = true)
    (hrecovering : s.recovering = false) : s.dropBrace.Paused points := by
  have hopen : s.isAtEnd = false :=
    List.isEmpty_eq_false_iff.mpr (pending_ne_nil_of_isAt h.tidy.isEof_final hat)
  have hvalid : LexicalError.ofToken? s.current = none := by
    rw [LexicalError.ofToken?, show s.current.kind = .symbol .rBrace from eq_of_beq hat]
  have hhere := here_report .unmatchedBrace (s := s) (by rw [hrecovering, hvalid]; rfl)
  have hdistinct : Distinct points s.current.range (s.report .unmatchedBrace).reported := by
    left
    change ((s.report .unmatchedBrace).here.map Diagnostic.message).Nodup
    rw [hhere, List.map_cons, List.nodup_cons]
    refine ⟨fun hmem => ?_, Diagnostic.nodup_of_length_le (h.length_le hopen)⟩
    obtain ⟨d, hd, hmessage⟩ := List.mem_map.mp hmem
    exact h.matched hd (Cause.message_eq_unmatched_iff.mp hmessage)
  obtain ⟨htidy, hclear⟩ := (h.tidy.report .unmatchedBrace).advance hopen
    (fun hfault => by
      have hsome : (LexicalError.ofToken? s.current).isSome = true := hfault
      rw [hvalid] at hsome
      cases hsome) hdistinct
  exact Paused.of_clear htidy.resume hclear

/-- Between the items of a sequence, since a state in which the next token may be reported. -/
structure Stays (points : Range → Prop) (o s : State) : Prop where
  goes : o.Extends s
  consumed_lt : o.consumed < s.consumed
  paused (h : o.Poised points) : s.Paused points

theorem LeadsTo.stays (h : o.LeadsTo points s) (hlt : o.consumed < s.consumed) :
    o.Stays points s :=
  ⟨h.goes, hlt, fun ho => (h.poised ho).paused (h.taken ho hlt).2⟩

namespace Stays

theorem extend (h : o.Stays points s) (hst : s.Extends t)
    (hpaused : s.Paused points → t.Paused points) : o.Stays points t :=
  ⟨isTrail_extends.trans h.goes hst, h.consumed_lt.trans_le hst.reaches.consumed_le,
    fun ho => hpaused (h.paused ho)⟩

theorem leave (h : o.Stays points s) (hopen : s.isAtEnd = false) (hbrace : s.isAt .rBrace = false)
    (hst : s.LeadsTo points t) (hlt : s.consumed < t.consumed) : o.LeadsTo points t := by
  have hall := h.consumed_lt.trans hlt
  refine ⟨isTrail_extends.trans h.goes hst.goes,
    fun ho => hst.poised ((h.paused ho).poised hopen hbrace),
    fun ho _ => hst.taken ((h.paused ho).poised hopen hbrace) hlt, fun _ heq => absurd heq hall.ne'⟩

theorem settle (h : o.Stays points s) (hopen : s.isAtEnd = false) (hbrace : s.isAt .rBrace = false)
    (hst : s.LeadsTo points t) : o.Stays points (t.settle.ensureProgress s) :=
  h.extend (isTrail_extends.trans hst.goes (isTrail_extends.trans (isTrail_extends.settle t)
    (isTrail_extends.ensureProgress s _))) fun hs => hs.settle hopen hbrace hst

theorem skipToArm (h : o.Stays points s) (hopen : s.isAtEnd = false)
    (hbrace : s.isAt .rBrace = false) : o.Stays points s.skipToArm :=
  h.extend (isTrail_extends.skipToArm s) fun hs => hs.skipToArm hopen hbrace

theorem close (h : o.Stays points s) (hat : s.isAt .rBrace = true) :
    o.LeadsTo points s.advance.resume := by
  have hgoes := isTrail_extends.trans (isTrail_extends.advance s) (isTrail_extends.resume _)
  have hlt := h.consumed_lt.trans_le hgoes.reaches.consumed_le
  refine LeadsTo.of_clear (isTrail_extends.trans h.goes hgoes) hlt fun ho => ?_
  have hs := h.paused ho
  have hopen : s.isAtEnd = false :=
    List.isEmpty_eq_false_iff.mpr (pending_ne_nil_of_isAt hs.tidy.isEof_final hat)
  exact ⟨(hs.advance hopen).1.resume, (hs.advance hopen).2⟩

theorem unclosed (h : o.Stays points s) (hend : s.isAtEnd = true) :
    o.LeadsTo points (s.report (.expected (.symbol .rBrace) s.kind)) :=
  ⟨isTrail_extends.trans h.goes (isTrail_extends.report _ s), fun ho => (h.paused ho).unclosed hend,
    fun _ _ => ⟨fun h => Bool.noConfusion h, fun hopen => Bool.noConfusion (hend.symm.trans hopen)⟩,
    fun _ heq => absurd heq h.consumed_lt.ne'⟩

end Stays

end

end State

open State

/-- What is kept about repeated reports. How many braces are open does not matter. -/
def Bracing.repetition (points : Range → Prop) : Bracing where
  Leads _ := LeadsTo points
  Rests _ := Stays points
  reaches h := h.goes.reaches
  refl := LeadsTo.refl
  trans := LeadsTo.trans
  advance := LeadsTo.advance
  proceed _ := LeadsTo.proceed
  splitShift := LeadsTo.splitShift
  report hproblem _ := LeadsTo.report hproblem
  nest := LeadsTo.nest
  reaches_rests h := h.goes.reaches
  rests := LeadsTo.stays
  leave := Stays.leave
  settle := Stays.settle
  skipToArm := Stays.skipToArm
  close := Stays.close
  unclosed h hend _ := h.unclosed hend

namespace State

variable {points : Range → Prop} {s : State}

theorem Paused.afterStatement (h : s.Paused points) (limit : Nat) (hopen : s.isAtEnd = false)
    (hbrace : s.isAt .rBrace = false) : (s.afterStatement limit).Paused points :=
  h.settle hopen hbrace ((Bracing.sound_parse (Bracing.repetition points) limit limit).keeps
    .statement s h.tidy.isEof_final)

theorem paused_statements (limit : Nat) (h : s.Paused points) (hrecovering : s.recovering = false) :
    let after := ((sequence .endOfInput statement).runWithin limit s).2
    after.Paused points ∧ after.isAtEnd = true := by
  have hall := holds_statements limit (I := fun _ s => s.Paused points ∧ s.recovering = false)
    (fun _ _ hs => hs.1.tidy.isEof_final) (fun _ s hs hat => ⟨hs.1.dropBrace hat hs.2, rfl⟩)
    (fun _ s hs hopen hbrace =>
      ⟨hs.1.afterStatement limit hopen hbrace, recovering_afterStatement limit s⟩)
    ⟨h, hrecovering⟩
  exact ⟨hall.1.1, hall.2⟩

theorem paused_start (text : List Char) (options : Options) :
    (start text options).Paused fun r =>
      ∃ t ∈ (Token.Stream.ofText text options.firstLine).tokens,
        isRecoveryPoint t = true ∧ r = t.range := by
  refine Paused.of_clear ⟨Token.Stream.isEof_ofText_final text options.firstLine,
    ordered_start text options, fun hmem => absurd hmem List.not_mem_nil, fun {t} hmem h => ?_,
    fun _ => distinct_of_nil rfl⟩ rfl
  exact ⟨t, hmem, h, rfl⟩

end State

/-- What is reported about a text is known at its end. -/
theorem exists_paused_end (text : List Char) (options : Options) :
    let stream := Token.Stream.ofText text options.firstLine
    ∃ after : State, (QoreSyntax.parse text options).2 = after.diagnostics ∧
      after.current = stream.final ∧ after.isAtEnd = true ∧
      after.Paused fun r => ∃ t ∈ stream.tokens, isRecoveryPoint t = true ∧ r = t.range := by
  have hstart := State.paused_start text options
  obtain ⟨hpaused, hend⟩ := State.paused_statements options.limit hstart rfl
  rw [QoreSyntax.parse, script]
  split_ifs with hempty
  · refine ⟨start text options, rfl, ?_, hempty, hstart⟩
    rw [State.current, State.isAtEnd_iff.mp hempty]
    rfl
  · refine ⟨_, rfl, ?_, hend, hpaused⟩
    rw [State.current, State.isAtEnd_iff.mp hend,
      (State.isTrail_reaches.runWithin options.limit _ _).final_eq]
    rfl

/-- No report is made twice, with the same message about the same stretch of the text, but for two
kinds: a brace that is missing at the end of the text may be missed any number of times, and a token
at which the parse goes on after a mistake may be reported twice. -/
theorem reports_are_made_once (text : List Char) (options : Options) :
    let stream := Token.Stream.ofText text options.firstLine
    let reports := (QoreSyntax.parse text options).2
    ∀ d ∈ reports,
      let same := reports.filter fun e => e.message = d.message ∧ e.range = d.range
      same.length = 1 ∨
        (d.message = "Expected '\x7d', found end of input" ∧ d.range = stream.final.range) ∨
        (same.length = 2 ∧
          ∃ t ∈ stream.tokens, isRecoveryPoint t = true ∧ d.range = t.range) := by
  intro stream reports d hmem same
  obtain ⟨after, hreports, hcurrent, hend, hpaused⟩ := exists_paused_end text options
  have hdiagnostics : reports = after.reported.reverse := hreports
  have hmem' : d ∈ after.reported := by
    rw [hdiagnostics] at hmem
    exact List.mem_reverse.mp hmem
  have hpos : 0 < same.length :=
    List.length_pos_of_mem (List.mem_filter.mpr ⟨hmem, decide_eq_true ⟨rfl, rfl⟩⟩)
  have hlength : same.length
      = ((about d.range after.reported).filter fun e => e.message = d.message).length := by
    simp only [same, about, List.filter_filter, hdiagnostics, List.filter_reverse,
      List.length_reverse, Bool.decide_and]
  rcases hpaused.tidy.located hmem' with hrange | hstart
  · by_cases hmessage : d.message = "Expected '\x7d', found end of input"
    · exact Or.inr (Or.inl ⟨hmessage, hrange.trans (congrArg Token.range hcurrent)⟩)
    · have hothers : ∀ e : Diagnostic, decide (e.message = d.message) = true →
          decide (e.cause ≠ .syntactic (.expected (.symbol .rBrace) .eof)) = true := by
        intro e hsame
        refine decide_eq_true fun hcause => hmessage ?_
        rw [← of_decide_eq_true hsame, Diagnostic.message, hcause]
        rfl
      have hle := (List.monotone_filter_right after.here hothers).length_le
      have hone := hpaused.atEnd hend
      left
      rw [State.here, ← hrange] at hle hone
      omega
  · rcases hpaused.tidy.distinct hstart with hnodup | ⟨htwo, hpoint⟩
    · have hle := Diagnostic.length_filter_message_le hnodup d.message
      left
      omega
    · have hle := List.length_filter_le (fun e : Diagnostic => decide (e.message = d.message))
        (about d.range after.reported)
      have hcases : same.length = 1 ∨ same.length = 2 := by omega
      exact hcases.imp_right fun hsame => Or.inr ⟨hsame, hpoint⟩

/-- A keyword is missed as an expression, and again where the parse goes on: it is a recovery
point. -/
theorem keyword_is_reported_twice :
    let text := "x = sub;\x7b\x7b".toList
    let reports := (QoreSyntax.parse text Options.standard).2
    let d : Diagnostic :=
      ⟨.syntactic (.expected .expression (.keyword .sub)), ⟨⟨1, 5⟩, ⟨1, 8⟩⟩⟩
    d ∈ reports ∧ ∃ t ∈ (Token.Stream.ofText text Options.standard.firstLine).tokens,
      isRecoveryPoint t = true ∧ d.range = t.range := by
  intro text reports d
  have hmem : d ∈ reports := by decide +kernel
  have htwice : (reports.filter fun e => e.message = d.message ∧ e.range = d.range).length ≠ 1 := by
    decide +kernel
  rcases reports_are_made_once text Options.standard d hmem with hone | hend | htwo
  · exact absurd hone htwice
  · exact absurd hend.1 (by decide +kernel)
  · exact ⟨hmem, htwo.2⟩

/-- Two reports are made again, with the same message about the same stretch of the text. -/
theorem reports_are_made_again :
    let entries := (QoreSyntax.parse "x = sub;\x7b\x7b".toList Options.standard).2.map
      fun d => (d.message, d.range)
    entries =
      [("Expected expression, found keyword 'sub'", ⟨⟨1, 5⟩, ⟨1, 8⟩⟩),
        ("Expected expression, found keyword 'sub'", ⟨⟨1, 5⟩, ⟨1, 8⟩⟩),
        ("Expected '\x7d', found end of input", ⟨⟨1, 11⟩, ⟨1, 11⟩⟩),
        ("Expected '\x7d', found end of input", ⟨⟨1, 11⟩, ⟨1, 11⟩⟩)] ∧ ¬entries.Nodup := by
  decide +kernel

end Grammar

end QoreSyntax

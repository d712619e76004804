import QoreSyntax.Proofs.Grammar.Taking
import QoreSyntax.Proofs.Token.Shift

namespace QoreSyntax

/-- The report is about a stretch of text that is no token. -/
def Diagnostic.isLexical (d : Diagnostic) : Bool :=
  match d.cause with
  | .lexical _ => true
  | .syntactic _ => false

@[simp] theorem Diagnostic.isLexical_ofLexicalError (e : LexicalError) :
    (ofLexicalError e).isLexical = true :=
  rfl

namespace Grammar

namespace State

/-- The reports of the tokens at fault: those that have been made, and those that will be when the
tokens ahead are taken. -/
def lexicalReports (s : State) : List Diagnostic :=
  s.diagnostics.filter Diagnostic.isLexical
    ++ (s.pending.filterMap LexicalError.ofToken?).map Diagnostic.ofLexicalError

theorem lexicalReports_of_same {s s' : State} (hreported : s'.reported = s.reported)
    (hpending : s'.pending = s.pending) : s'.lexicalReports = s.lexicalReports := by
  rw [lexicalReports, lexicalReports, diagnostics, diagnostics, hreported, hpending]

theorem lexicalReports_advance (s : State) : s.advance.lexicalReports = s.lexicalReports := by
  rcases hpending : s.pending with - | ⟨t, rest⟩
  · rw [advance_nil hpending]
  · rw [lexicalReports, lexicalReports, diagnostics, advance_reported hpending, advance_pending,
      hpending, diagnostics, List.tail_cons, List.reverse_append, List.filter_append]
    cases herror : LexicalError.ofToken? t with
    | none => simp [herror]
    | some e => simp [herror, List.filter_cons]

theorem lexicalReports_splitShift (s : State) :
    s.splitShift.lexicalReports = s.lexicalReports := by
  rcases splitShift_cases s with ⟨t, rest, hpending, hshr⟩ | hsame
  · have hwhole : LexicalError.ofToken? t = none := by
      rw [LexicalError.ofToken?, hshr]
    have hhalf : LexicalError.ofToken? t.secondHalf = none := rfl
    rw [splitShift_of_shr hpending hshr, lexicalReports, lexicalReports, hpending]
    simp [hwhole, hhalf, diagnostics]
  · rw [hsame]

theorem lexicalReports_report (problem : Problem) (s : State) :
    (s.report problem).lexicalReports = s.lexicalReports := by
  rw [lexicalReports, lexicalReports, report_pending, diagnostics, report]
  dsimp only
  split_ifs
  · rfl
  · simp [diagnostics, Diagnostic.isLexical]

theorem isTrail_lexicalReports :
    IsTrail fun s s' => s'.lexicalReports = s.lexicalReports where
  refl _ := rfl
  trans hst htu := htu.trans hst
  advance := lexicalReports_advance
  splitShift := lexicalReports_splitShift
  report := lexicalReports_report
  resume _ := lexicalReports_of_same rfl rfl
  nest _ _ := lexicalReports_of_same rfl rfl

end State

/-- The reports of tokens at fault are those of the lexical errors of the text. -/
theorem filter_isLexical_parse (text : List Char) (options : Options) :
    (QoreSyntax.parse text options).2.filter Diagnostic.isLexical
      = (LexicalError.ofText text options.firstLine).map Diagnostic.ofLexicalError := by
  have hfinal : (start text options).final.isEof = true :=
    Token.Stream.isEof_ofText_final text options.firstLine
  obtain ⟨after, hend, hreports, htrail⟩ := exists_script_end options hfinal
  have hlexical := htrail _ State.isTrail_lexicalReports
  rw [State.lexicalReports, State.isAtEnd_iff.mp hend, List.filterMap_nil, List.map_nil,
    List.append_nil] at hlexical
  rw [QoreSyntax.parse, hreports, hlexical]
  rfl

theorem Covers.mem_whole {takings : List Taking} {tokens : List Token} (h : Covers takings tokens)
    {t : Token} (hmem : .whole t ∈ takings) :
    t ∈ tokens ∨ ∃ u ∈ tokens, u.kind = .symbol .shr ∧ .firstHalf u ∈ takings ∧
      t = u.secondHalf := by
  induction h with
  | nil => cases hmem
  | whole u h ih =>
      rcases List.mem_cons.mp hmem with hsame | hmem
      · obtain rfl := Taking.whole.inj hsame
        exact Or.inl List.mem_cons_self
      · rcases ih hmem with ht | ⟨v, hv, hshr, hhalf, hsecond⟩
        · exact Or.inl (List.mem_cons_of_mem u ht)
        · exact Or.inr ⟨v, List.mem_cons_of_mem u hv, hshr, List.mem_cons_of_mem _ hhalf, hsecond⟩
  | halves u hu h ih =>
      rcases List.mem_cons.mp hmem with hsame | hmem
      · cases hsame
      · rcases List.mem_cons.mp hmem with hsame | hmem
        · exact Or.inr ⟨u, List.mem_cons_self, hu, List.mem_cons_self, Taking.whole.inj hsame⟩
        · rcases ih hmem with ht | ⟨v, hv, hshr, hhalf, hsecond⟩
          · exact Or.inl (List.mem_cons_of_mem u ht)
          · exact Or.inr ⟨v, List.mem_cons_of_mem u hv, hshr,
              List.mem_cons_of_mem _ (List.mem_cons_of_mem _ hhalf), hsecond⟩

/-- The report is about a token that is well formed, or about the second half of a symbol of which
the first half has been taken. -/
def PointsAt (stream : Token.Stream) (taken : List Taking) (d : Diagnostic) : Prop :=
  (∃ t ∈ stream.toList, LexicalError.ofToken? t = none ∧ d.range = t.range) ∨
    ∃ t ∈ stream.tokens, t.kind = .symbol .shr ∧ .firstHalf t ∈ taken ∧
      d.range = t.secondHalf.range

theorem PointsAt.mono {stream : Token.Stream} {taken taken' : List Taking} {d : Diagnostic}
    (h : PointsAt stream taken d) (hsub : taken ⊆ taken') : PointsAt stream taken' d := by
  rcases h with h | ⟨t, hmem, hshr, hhalf, hrange⟩
  · exact Or.inl h
  · exact Or.inr ⟨t, hmem, hshr, hsub hhalf, hrange⟩

/-- The tokens of the machine are those of the stream, and its reports point at them. -/
structure Machine.Points (stream : Token.Stream) (m : Machine) : Prop where
  covers : Covers m.plan stream.tokens
  final_eq : m.view.final = stream.final
  pointsAt : ∀ d ∈ m.reported, d.isLexical = false → PointsAt stream m.taken d

namespace Machine

variable {stream : Token.Stream} {m : Machine}

/-- A report about the next token points at it. -/
theorem Points.pointsAt_current (h : m.Points stream)
    (hvalid : LexicalError.ofToken? m.buffer.current = none) (cause : Cause) :
    PointsAt stream m.taken ⟨cause, m.buffer.current.range⟩ := by
  cases hend : m.buffer.current.isEof with
  | true =>
      left
      refine ⟨m.buffer.current, ?_, hvalid, rfl⟩
      rw [← view_current, State.current, view_of_isEof hend, h.final_eq]
      exact List.mem_append_right _ List.mem_cons_self
  | false =>
      have hplan : .whole m.buffer.current ∈ m.plan := by
        rw [plan, view_of_not_isEof hend]
        exact List.mem_append_right _ List.mem_cons_self
      rcases h.covers.mem_whole hplan with hmem | ⟨t, hmem, hshr, hhalf, hsecond⟩
      · exact Or.inl ⟨m.buffer.current, List.mem_append_left _ hmem, hvalid, rfl⟩
      · have htaken : .firstHalf t ∈ m.taken := by
          rw [plan] at hhalf
          simpa using hhalf
        exact Or.inr ⟨t, hmem, hshr, htaken, by rw [← hsecond]⟩

theorem mem_reported_advance {d : Diagnostic} (hmem : d ∈ m.advance.reported) :
    d ∈ m.reported ∨ ∃ e, d = Diagnostic.ofLexicalError e := by
  have hreported : m.advance.reported = m.view.advance.reported :=
    congrArg State.reported (view_advance m)
  rw [hreported] at hmem
  rcases hpending : m.view.pending with - | ⟨t, rest⟩
  · rw [State.advance_nil hpending] at hmem
    exact Or.inl hmem
  · rw [State.advance_reported hpending] at hmem
    rcases List.mem_append.mp hmem with hmem | hmem
    · obtain ⟨e, -, rfl⟩ := Option.map_eq_some_iff.mp (Option.mem_toList.mp hmem)
      exact Or.inr ⟨e, rfl⟩
    · exact Or.inl hmem

theorem taken_subset_advance (m : Machine) : m.taken ⊆ m.advance.taken := by
  rw [advance]
  split_ifs
  · exact fun _ hmem => hmem
  · exact List.subset_cons_self _ _

theorem taken_subset_splitShift (m : Machine) : m.taken ⊆ m.splitShift.taken := by
  rw [splitShift]
  dsimp only
  split_ifs
  · exact List.subset_cons_self _ _
  · exact fun _ hmem => hmem

theorem taken_report (problem : Problem) (m : Machine) : (m.report problem).taken = m.taken :=
  rfl

/-- Only a token that is not at fault is reported to be in the wrong place. -/
theorem mem_reported_report {problem : Problem} {d : Diagnostic}
    (hmem : d ∈ (m.report problem).reported) :
    d ∈ m.reported ∨ (LexicalError.ofToken? m.buffer.current = none ∧
      d = ⟨.syntactic problem, m.buffer.current.range⟩) := by
  rw [report] at hmem
  dsimp only at hmem
  split_ifs at hmem with hquiet
  · exact Or.inl hmem
  · rcases List.mem_cons.mp hmem with rfl | hmem
    · refine Or.inr ⟨?_, rfl⟩
      simp only [Bool.or_eq_true, not_or, Bool.not_eq_true, Option.isSome_eq_false_iff,
        Option.isNone_iff_eq_none] at hquiet
      exact hquiet.2
    · exact Or.inl hmem

theorem isInvariant_points (stream : Token.Stream) : IsInvariant (Points stream) where
  fill n m h :=
    ⟨(isInvariant_covers _).fill n m h.covers, (view_fill n m).symm ▸ h.final_eq, h.pointsAt⟩
  advance m h := by
    refine ⟨(isInvariant_covers _).advance m h.covers, ?_, fun d hmem hlexical => ?_⟩
    · rw [view_advance, State.advance_final]
      exact h.final_eq
    · rcases mem_reported_advance hmem with hmem | ⟨e, rfl⟩
      · exact (h.pointsAt d hmem hlexical).mono (taken_subset_advance m)
      · cases hlexical
  splitShift m h := by
    refine ⟨(isInvariant_covers _).splitShift m h.covers, ?_, fun d hmem hlexical => ?_⟩
    · rw [view_splitShift, (State.Reaches.splitShift _).final_eq]
      exact h.final_eq
    · have hreported : m.splitShift.reported = m.reported := by
        rw [splitShift]
        dsimp only
        split_ifs <;> rfl
      rw [hreported] at hmem
      exact (h.pointsAt d hmem hlexical).mono (taken_subset_splitShift m)
  report problem m h := by
    refine ⟨(isInvariant_covers _).report problem m h.covers, ?_, fun d hmem hlexical => ?_⟩
    · rw [view_report, State.report_final]
      exact h.final_eq
    · rw [taken_report]
      rcases mem_reported_report hmem with hmem | ⟨hvalid, rfl⟩
      · exact h.pointsAt d hmem hlexical
      · exact h.pointsAt_current hvalid _
  resume m h := ⟨h.covers, h.final_eq, h.pointsAt⟩
  nest depth m h := ⟨h.covers, h.final_eq, h.pointsAt⟩

theorem points_scriptOn (peek : Machine → Nat) (text : List Char) (options : Options) :
    (scriptOn peek text options).2.Points (Token.Stream.ofText text options.firstLine) := by
  apply (isInvariant_points _).scriptOn text options
  refine ⟨?_, ?_, ?_⟩
  · rw [plan, view_ofText]
    exact Covers.map_whole _
  · rw [view_ofText]
    rfl
  · intro d hmem
    cases hmem

end Machine

theorem scriptOn_diagnostics (peek : Machine → Nat) (text : List Char) (options : Options) :
    (scriptOn peek text options).1.2 = (scriptOn peek text options).2.view.diagnostics := by
  rw [scriptOn]
  dsimp only
  split_ifs <;> rfl

/-- Each lexical error of a text is reported once and in its order, and every other report is about
a token that is well formed, or about the second half of a symbol that has been split. -/
theorem reports_point_at_tokens (text : List Char) (options : Options) (peek : Machine → Nat) :
    let reports := (QoreSyntax.parse text options).2
    let errors := (LexicalError.ofText text 1).map fun e =>
      Diagnostic.ofLexicalError (e.down (options.firstLine - 1))
    reports.filter Diagnostic.isLexical = errors ∧ errors.Sublist reports ∧
      ∀ d ∈ reports, d.isLexical = false →
        PointsAt (Token.Stream.ofText text options.firstLine) (scriptOn peek text options).2.taken
          d := by
  intro reports errors
  have hfilter : reports.filter Diagnostic.isLexical = errors := by
    have hline : 1 ≤ options.firstLine := Nat.le_max_right options.startLine 1
    rw [filter_isLexical_parse, LexicalError.ofText_down text hline, List.map_map]
    rfl
  refine ⟨hfilter, hfilter ▸ List.filter_sublist, fun d hmem hlexical => ?_⟩
  have hreports : reports = (scriptOn peek text options).2.view.diagnostics := by
    rw [← scriptOn_diagnostics, scriptOn_fst]
  rw [hreports, State.diagnostics, List.mem_reverse] at hmem
  exact (Machine.points_scriptOn peek text options).pointsAt d hmem hlexical

end Grammar

end QoreSyntax

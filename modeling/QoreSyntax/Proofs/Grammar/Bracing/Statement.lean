import QoreSyntax.Proofs.Grammar.Bracing.Expression

namespace QoreSyntax.Grammar.Bracing

open Grammar.Parser (Ensures)

variable {B : Bracing} {nested : Goal → State → Node × State} (h : B.Sound nested)
include h

theorem keeps_condition : B.Keeps nested condition := by
  refine (keeps_expect .lParen rfl).bind fun _ => (h.keeps (.expression 0)).bind fun node => ?_
  exact (keeps_expect .rParen rfl).bind fun _ => keeps_pure _

theorem opens_ifStatement : B.Opens nested ifStatement := by
  refine Opens.mark_take fun m _ => (keeps_condition h).bind fun test => ?_
  refine (h.keeps .statement).bind fun branch => (keeps_eatKeyword _).bind fun found => ?_
  exact ((h.keeps .statement).single.optionally _).bind fun other => keeps_close _ _ _ _

theorem opens_whileStatement : B.Opens nested whileStatement :=
  Opens.mark_take fun _ _ => (keeps_condition h).bind fun _ => (h.keeps .statement).bind fun _ =>
    keeps_close _ _ _ _

theorem opens_doStatement : B.Opens nested doStatement := by
  refine Opens.mark_take fun m _ => (h.keeps .statement).bind fun code => ?_
  refine (keeps_expectKeyword _).bind fun _ => (keeps_condition h).bind fun test => ?_
  exact (keeps_expect .semicolon rfl).bind fun _ => keeps_close _ _ _ _

omit h in
theorem keeps_forClause {clause : Parser Node} (hclause : B.Keeps nested clause) {closing : Symbol}
    (hlevel : (Token.Kind.symbol closing).braces = 0) :
    B.Keeps nested (forClause closing clause) := by
  have hoptional : B.Keeps nested (optionalClause closing clause) :=
    Takes.state fun s => Takes.ite (keeps_placeholder _) hclause
  exact hoptional.bind fun node => (keeps_expect closing hlevel).bind fun _ => keeps_pure _

theorem keeps_variableOrExpression : B.Keeps nested variableOrExpression :=
  Takes.state fun _ => Takes.ite (keeps_variableDeclaration h false) (h.keeps _)

theorem opens_forStatement : B.Opens nested forStatement := by
  refine Opens.mark_take fun m _ => (keeps_expect .lParen rfl).bind fun _ => ?_
  refine (keeps_forClause (keeps_variableOrExpression h) rfl).bind fun start => ?_
  refine (keeps_forClause (h.keeps (.expression 0)) rfl).bind fun test => ?_
  refine (keeps_forClause (h.keeps (.expression 0)) rfl).bind fun step => ?_
  exact (h.keeps .statement).bind fun code => keeps_close _ _ _ _

theorem opens_foreachStatement : B.Opens nested foreachStatement := by
  refine Opens.mark_take fun m _ => (keeps_variableOrExpression h).bind fun item => ?_
  refine (keeps_expectKeyword _).bind fun _ => (keeps_condition h).bind fun items => ?_
  exact (h.keeps .statement).bind fun code => keeps_close _ _ _ _

omit h in
theorem keeps_caseOperator : B.Keeps nested caseOperator := by
  refine Takes.look fun s hs => ?_
  split
  · rename_i symbol hkind
    split_ifs with hoperator
    · have hlevel : (Token.Kind.symbol symbol).braces = 0 := by
        cases symbol <;> first | rfl | cases hoperator
      exact RunsFrom.name hs hkind hlevel _
    · exact (keeps_pure _).runsFrom hs
  · exact (keeps_pure _).runsFrom hs

/-- A token has been taken since the state `s`, and no brace is open. -/
def Begun (B : Bracing) (s t : State) : Prop :=
  t.final.isEof = true ∧ B.Leads 0 s t ∧ s.consumed < t.consumed

omit h in
theorem Begun.advance (B : Bracing) {s : State} (hs : s.final.isEof = true) {word : Keyword}
    (hat : s.isAtKeyword word = true) :
    Ensures nested (fun t => t = s) Grammar.advance fun _ => B.Begun s := by
  rintro t rfl
  have hstep := B.advance t
  rw [eq_of_beq hat] at hstep
  refine ⟨by rwa [← State.advance_final] at hs, hstep, ?_⟩
  exact (State.beyond_advance (State.pending_ne_nil_of_isAtKeyword hs hat)).consumed_lt

omit h in
theorem Begun.keeps {α : Type} {parser : Parser α} (hparser : B.Keeps nested parser) (s : State) :
    Ensures nested (B.Begun s) parser fun _ => B.Begun s := by
  intro t ht
  have hstep := hparser t ht.1
  exact ⟨hparser.final ht.1, B.trans ht.2.1 hstep,
    Nat.lt_of_lt_of_le ht.2.2 (B.reaches hstep).consumed_le⟩

section Arms

variable {k : Int} {o s : State}

/-- The statements of an arm, with what they end with. -/
theorem ensures_armCode (hos : B.Rests k o s) (hopen : s.isAtEnd = false)
    (hbrace : s.isAt .rBrace = false) :
    Ensures nested (B.Begun s) (sequence .caseArm statement) fun _ => B.Rests k o := by
  intro t ht
  have hot := B.leave hos hopen hbrace ht.2.1 ht.2.2
  rw [Int.add_zero] at hot
  have hlt := Nat.lt_of_le_of_lt (B.reaches_rests hos).consumed_le ht.2.2
  have hseq := rests_sequence h (h.keeps .statement) .caseArm (by decide) ht.1 (B.rests hot hlt)
  exact hseq.1

theorem ensures_caseArm (hs : s.final.isEof = true) (hos : B.Rests k o s)
    (hat : s.isAtKeyword .case = true) (hopen : s.isAtEnd = false)
    (hbrace : s.isAt .rBrace = false) :
    Ensures nested (fun t => t = s) caseArm fun _ => B.Rests k o := by
  refine Ensures.bind Parser.ensures_mark fun m => ?_
  refine Ensures.bind (Begun.advance B hs hat) fun _ => ?_
  refine Ensures.bind (Begun.keeps keeps_caseOperator s) fun payload => ?_
  refine Ensures.bind (Begun.keeps (h.keeps _) s) fun value => ?_
  refine Ensures.bind (Begun.keeps (keeps_expect .colon rfl) s) fun _ => ?_
  exact Ensures.bind (ensures_armCode h hos hopen hbrace) fun code => fun _ ht => ht

theorem ensures_defaultArm (hs : s.final.isEof = true) (hos : B.Rests k o s)
    (hat : s.isAtKeyword .default = true) (hopen : s.isAtEnd = false)
    (hbrace : s.isAt .rBrace = false) :
    Ensures nested (fun t => t = s) defaultArm fun _ => B.Rests k o := by
  refine Ensures.bind Parser.ensures_mark fun m => ?_
  refine Ensures.bind (Begun.advance B hs hat) fun _ => ?_
  refine Ensures.bind (Begun.keeps (keeps_expect .colon rfl) s) fun _ => ?_
  exact Ensures.bind (ensures_armCode h hos hopen hbrace) fun code => fun _ ht => ht

omit h in
theorem ensures_skipToArm (hos : B.Rests k o s) (hopen : s.isAtEnd = false)
    (hbrace : s.isAt .rBrace = false) :
    Ensures nested (fun t => t = s) Grammar.skipToArm fun _ => B.Rests k o := by
  rintro t rfl
  rw [run_skipToArm]
  exact B.skipToArm hos hopen hbrace

/-- The arms go on up to the closing brace or the end of the text. -/
theorem rests_arms (hs : s.final.isEof = true) (hos : B.Rests k o s) :
    let after := ((loop armStep []).run nested s).2
    B.Rests k o after ∧ (after.isAtEnd = true ∨ after.isAt .rBrace = true) := by
  have hfinal : ∀ {t : State}, B.Rests k o t → t.final.isEof = true := by
    intro t hot
    rw [(B.reaches_rests hot).final_eq, ← (B.reaches_rests hos).final_eq]
    exact hs
  refine (Parser.shrinks_armStep h.onlyTakes).ensures_loop h.onlyTakes
    (I := fun _ => B.Rests k o)
    (Q := fun _ t => B.Rests k o t ∧ (t.isAtEnd = true ∨ t.isAt .rBrace = true))
    (fun _ _ => hfinal) (fun arms => ?_) [] s hos
  refine Ensures.look fun t hot => Ensures.ite (fun hend => ?_) fun hnot => ?_
  · rintro _ rfl
    exact ⟨hot, Bool.or_eq_true_iff.mp hend⟩
  · obtain ⟨hopen, hbrace⟩ := Bool.or_eq_false_iff.mp (Bool.eq_false_iff.mpr hnot)
    refine Ensures.ite (fun hcase => ?_) fun _ => Ensures.ite (fun hdefault => ?_) fun _ => ?_
    · exact Ensures.bind (ensures_caseArm h (hfinal hot) hot hcase hopen hbrace) fun _ _ hu => hu
    · exact Ensures.bind (ensures_defaultArm h (hfinal hot) hot hdefault hopen hbrace)
        fun _ _ hu => hu
    · exact Ensures.bind (ensures_skipToArm hot hopen hbrace) fun _ _ hu => hu

end Arms

theorem keeps_switchArms : B.Keeps nested switchArms := by
  refine Closes.inBraces (fun k s t hs hst hlt => ?_) (keeps_pure _)
  rw [← (B.reaches hst).final_eq] at hs
  obtain ⟨harms, hend⟩ := rests_arms h hs (B.rests hst hlt)
  rw [Parser.run_bind]
  exact leads_expect harms hend _

theorem opens_switchStatement : B.Opens nested switchStatement :=
  Opens.mark_take fun _ _ => (keeps_condition h).bind fun _ => (keeps_switchArms h).bind fun _ =>
    keeps_close _ _ _ _

theorem keeps_catchClause : B.Keeps nested catchClause := by
  refine Takes.look fun s hs => ?_
  split_ifs with hat
  · refine Opens.of_isAtKeyword (Opens.mark_take fun m _ => ?_) hs hat
    refine (keeps_expect .lParen rfl).bind fun _ => Takes.state fun s => ?_
    refine ((keeps_parameter h).single.optionally _).bind fun params => ?_
    refine (keeps_expect .rParen rfl).bind fun _ => ?_
    exact (keeps_block h).bind fun code => keeps_close m _ _ _
  · exact ((keeps_reportExpected _).bind fun _ => keeps_missing).runsFrom hs

theorem opens_tryStatement : B.Opens nested tryStatement :=
  Opens.mark_take fun _ _ => (keeps_block h).bind fun _ => (keeps_catchClause h).bind fun _ =>
    keeps_close _ _ _ _

theorem opens_jumpStatement (kind : Node.Kind) (isRequired : Bool) :
    B.Opens nested (jumpStatement kind isRequired) := by
  refine Opens.mark_take fun m _ => Takes.state fun s => ?_
  refine ((keeps_expressionList h).single.optionally _).bind fun values => ?_
  exact (keeps_expect .semicolon rfl).bind fun _ => keeps_close _ _ _ _

omit h in
theorem opens_bareStatement (kind : Node.Kind) : B.Opens nested (bareStatement kind) :=
  Opens.mark_take fun _ _ => (keeps_expect .semicolon rfl).bind fun _ => keeps_close _ _ _ _

theorem opens_guardStatement (kind : Node.Kind) : B.Opens nested (guardStatement kind) :=
  Opens.mark_take fun _ _ => (h.keeps .statement).bind fun _ => keeps_close _ _ _ _

omit h in
theorem opens_emptyStatement : B.Opens nested emptyStatement :=
  Opens.mark_take fun _ _ => keeps_close _ _ _ _

omit h in
theorem opens_directiveLine (name argument : String) :
    B.Opens nested (directiveLine name argument) :=
  Opens.mark_take fun _ _ => keeps_close _ _ _ _

theorem keeps_openStatement : B.Keeps nested openStatement := by
  refine Takes.state fun s => Takes.ite (keeps_declaration h) ?_
  refine Takes.ite (keeps_variableDeclaration h true) (Takes.mark fun m => ?_)
  refine (h.keeps (.expression 0)).bind fun node => ?_
  exact (keeps_expect .semicolon rfl).bind fun _ => keeps_close _ _ _ _

theorem opens_wordStatement (word : Keyword) : B.Opens nested (wordStatement word) := by
  rw [wordStatement.eq_def]
  split
  · exact opens_ifStatement h
  · exact opens_whileStatement h
  · exact opens_doStatement h
  · exact opens_forStatement h
  · exact opens_foreachStatement h
  · exact opens_switchStatement h
  · exact opens_tryStatement h
  · exact opens_jumpStatement h .throw true
  · exact opens_jumpStatement h .return false
  · exact opens_jumpStatement h .rethrow false
  · exact opens_bareStatement .break
  · exact opens_bareStatement .continue
  · exact opens_bareStatement .threadExit
  · exact opens_guardStatement h .onExit
  · exact opens_guardStatement h .onSuccess
  · exact opens_guardStatement h .onError
  · exact (keeps_variableDeclaration h true).opens
  · exact (keeps_variableDeclaration h true).opens
  · exact (keeps_openStatement h).opens

theorem keeps_statementRule : B.Keeps nested statementRule := by
  refine Takes.look fun s hs => ?_
  split
  · exact (keeps_block h).runsFrom hs
  · rename_i hkind
    exact opens_emptyStatement.of_kind hs hkind rfl
  · rename_i name argument hkind
    exact (opens_directiveLine name argument).of_kind hs hkind rfl
  · rename_i hkind
    exact (opens_wordStatement h _).of_kind hs hkind rfl
  · exact (keeps_openStatement h).runsFrom hs

theorem keeps_rule (goal : Goal) : B.Keeps nested goal.rule := by
  cases goal with
  | statement => exact keeps_statementRule h
  | expression power => exact keeps_expressionRule h power
  | type => exact keeps_typeRule h

omit h in
theorem exists_leads_advanceMany (B : Bracing) (n : Nat) (s : State) :
    ∃ k, B.Leads k s (s.advanceMany n) := by
  induction n generalizing s with
  | zero => exact ⟨0, B.refl s⟩
  | succ n ih =>
      obtain ⟨k, hk⟩ := ih s.advance
      exact ⟨s.kind.braces + k, B.trans (B.advance s) hk⟩

omit h in
/-- What a construct beyond the limit is made of is passed over after a report. -/
theorem leads_refuse (B : Bracing) (limit : Nat) (s : State) : B.Leads 0 s (s.refuse limit).2 := by
  obtain ⟨k, hk⟩ := exists_leads_advanceMany B
    (constructLength 0 0 (s.report (.tooDeep limit)).pending) (s.report (.tooDeep limit))
  have hall := B.trans (B.report (by simp) (-k) s) hk
  rwa [Int.add_left_neg] at hall

omit h in
theorem sound_parse (B : Bracing) (limit room : Nat) : B.Sound (parse limit room) := by
  refine ⟨onlyTakes_parse limit room, ?_⟩
  induction room with
  | zero => exact fun _ s _ => leads_refuse B limit s
  | succ room ih =>
      intro goal s hs
      change B.Leads 0 s (parse limit (room + 1) goal s).2
      rw [parse]
      split_ifs
      · exact leads_refuse B limit s
      · have hnest := B.nest (s.depth + 1) s
        have hrule := keeps_rule ⟨onlyTakes_parse limit room, ih⟩ goal
          { s with depth := s.depth + 1 } hs
        exact B.trans (B.trans hnest hrule) (B.nest _ _)

end QoreSyntax.Grammar.Bracing

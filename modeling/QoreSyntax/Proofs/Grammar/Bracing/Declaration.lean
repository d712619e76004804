import QoreSyntax.Proofs.Grammar.Bracing

namespace QoreSyntax.Grammar.Bracing

open Grammar.Parser (Ensures)

variable {B : Bracing} {nested : Goal → State → Node × State}

theorem keeps_variableName? (wanted : Wanted) : B.Keeps nested (variableName? wanted) := by
  refine Takes.look fun s hs => ?_
  split
  · rename_i hkind
    exact RunsFrom.name hs hkind rfl _
  · rename_i hkind
    exact RunsFrom.name hs hkind rfl _
  · exact (keeps_missed wanted none).runsFrom hs

theorem keeps_identifier? (wanted : Wanted) : B.Keeps nested (identifier? wanted) := by
  refine Takes.look fun s hs => ?_
  split
  · rename_i hkind
    exact RunsFrom.name hs hkind rfl _
  · exact (keeps_missed wanted none).runsFrom hs

theorem keeps_optionalIdentifier : B.Keeps nested optionalIdentifier := by
  refine Takes.look fun s hs => ?_
  split
  · rename_i hkind
    exact RunsFrom.name hs hkind rfl _
  · exact (keeps_pure "").runsFrom hs

theorem keeps_scopeStep (text : String) : B.Keeps nested (scopeStep text) := by
  refine Takes.look fun s hs => ?_
  split
  · rename_i hcolons hname
    exact RunsFrom.take_two hs (congrArg Token.Kind.braces hcolons)
      (congrArg Token.Kind.braces hname) (keeps_pure _)
  · exact (keeps_pure _).runsFrom hs

theorem keeps_scopedName : B.Keeps nested scopedName :=
  (keeps_eat .doubleColon rfl).bind fun _ => keeps_optionalIdentifier.bind fun _ =>
    keeps_loop keeps_scopeStep _

theorem keeps_scopedName? (wanted : Wanted) : B.Keeps nested (scopedName? wanted) := by
  refine Takes.state fun s => ?_
  split
  · exact keeps_scopedName.bind fun _ => keeps_pure _
  · exact keeps_scopedName.bind fun _ => keeps_pure _
  · exact keeps_missed wanted none

theorem keeps_typeName? : B.Keeps nested typeName? := by
  refine Takes.look fun s hs => ?_
  split
  · exact (keeps_scopedName.bind fun _ => keeps_pure _).runsFrom hs
  · exact (keeps_scopedName.bind fun _ => keeps_pure _).runsFrom hs
  · rename_i hkind
    split_ifs
    · exact RunsFrom.name hs hkind rfl _
    · exact (keeps_missed .typeName none).runsFrom hs
  · exact (keeps_missed .typeName none).runsFrom hs

variable (h : B.Sound nested)
include h

theorem keeps_typeRule : B.Keeps nested typeRule := by
  refine Takes.mark fun m => (keeps_eat .star rfl).bind fun star => ?_
  refine keeps_typeName?.bind fun name => ?_
  cases name with
  | none => exact keeps_close _ _ _ _
  | some name =>
      refine (keeps_eat .lt rfl).bind fun opened => Takes.ite ?_ (keeps_close _ _ _ _)
      refine (h.keeps _).commaList.bind fun arguments => ?_
      exact keeps_expectAngle.bind fun closed => keeps_close _ _ _ _

theorem keeps_initialiser : B.Keeps nested initialiser :=
  (keeps_eat .assign rfl).bind fun found => (h.keeps _).single.optionally found

theorem keeps_parameter : B.Keeps nested parameter := by
  refine Takes.mark fun m => (keeps_eat .ellipsis rfl).bind fun dots => ?_
  refine Takes.ite (keeps_close _ _ _ _) (Takes.state fun s => ?_)
  refine ((h.keeps .type).single.optionally _).bind fun types => ?_
  refine (keeps_variableName? _).bind fun name => ?_
  exact (keeps_initialiser h).bind fun value => keeps_close _ _ _ _

theorem keeps_parameters : B.Keeps nested parameters := by
  refine Takes.mark fun m => (keeps_expect .lParen rfl).bind fun opened => ?_
  refine Takes.ite (Takes.state fun s => ?_) (keeps_close _ _ _ _)
  refine ((keeps_parameter h).commaList.optionally _).bind fun items => ?_
  exact (keeps_expectClosing .rParen rfl).bind fun _ => keeps_close _ _ _ _

theorem keeps_arguments : B.Keeps nested arguments := by
  refine Takes.mark fun m => (keeps_expect .lParen rfl).bind fun opened => ?_
  refine Takes.ite ?_ (keeps_close _ _ _ _)
  refine ((h.keeps (.expression 0)).separated _).bind fun items => ?_
  exact (keeps_expectClosing .rParen rfl).bind fun _ => keeps_close _ _ _ _

theorem keeps_resultType : B.Keeps nested resultType :=
  (keeps_eatKeyword .returns).bind fun found => (h.keeps .type).single.optionally found

theorem keeps_variableType : B.Keeps nested variableType :=
  Takes.state fun _ => (h.keeps .type).single.optionally _

omit h in
theorem keeps_variableModifier : B.Keeps nested variableModifier := by
  refine Takes.look fun s hs => ?_
  split
  · rename_i hkind
    split_ifs
    · exact (Opens.mark_take fun m _ => (keeps_close m _ _ _).single).of_kind hs hkind rfl
    · exact (keeps_pure []).runsFrom hs
  · exact (keeps_pure []).runsFrom hs

theorem keeps_declarator : B.Keeps nested declarator :=
  Takes.mark fun _ => (keeps_variableType h).bind fun _ =>
    (keeps_variableName? _).bind fun _ => keeps_close _ _ _ _

theorem opens_declaratorList : B.Opens nested declaratorList := by
  refine Opens.take fun _ => (keeps_declarator h).commaList.bind fun items => ?_
  exact (keeps_expectClosing .rParen rfl).bind fun _ => keeps_pure _

theorem keeps_declared : B.Keeps nested declared := by
  refine Takes.look fun s hs => ?_
  split_ifs with hat
  · have hlist := (opens_declaratorList h).of_kind hs (eq_of_beq hat) rfl
    exact hlist.bind hs fun _ => keeps_pure _
  · refine Takes.runsFrom ((keeps_variableType h).bind fun types => ?_) hs
    exact (keeps_variableName? _).bind fun name => keeps_pure _

omit h in
theorem keeps_endOfDeclaration (isStatement : Bool) :
    B.Keeps nested (endOfDeclaration isStatement) :=
  Takes.ite ((keeps_expect .semicolon rfl).bind fun _ => keeps_pure _) (keeps_pure _)

theorem keeps_variableDeclaration (isStatement : Bool) :
    B.Keeps nested (variableDeclaration isStatement) := by
  refine Takes.mark fun m => keeps_variableModifier.bind fun modifier => ?_
  refine (keeps_declared h).bind fun parts => (keeps_initialiser h).bind fun value => ?_
  exact (keeps_endOfDeclaration isStatement).bind fun _ => keeps_close _ _ _ _

omit h in
theorem keeps_modifierScope (word : Keyword) : B.Keeps nested (modifierScope word) := by
  refine Takes.look fun s hs => ?_
  split
  · rename_i hcolon hname
    exact RunsFrom.take_two hs (congrArg Token.Kind.braces hcolon)
      (congrArg Token.Kind.braces hname) (keeps_pure _)
  · exact (keeps_pure "").runsFrom hs

omit h in
theorem keeps_modifierStep (modifiers : List Node) : B.Keeps nested (modifierStep modifiers) := by
  refine Takes.look fun s hs => ?_
  split
  · rename_i hkind
    split_ifs
    · refine Opens.of_kind (Opens.mark_take fun m _ => ?_) hs hkind rfl
      exact (keeps_modifierScope _).bind fun scope => (keeps_close m _ _ _).bind fun node =>
        keeps_pure _
    · exact (keeps_pure _).runsFrom hs
  · exact (keeps_pure _).runsFrom hs

omit h in
theorem keeps_modifiers : B.Keeps nested modifiers :=
  (keeps_loop keeps_modifierStep []).bind fun _ => keeps_pure _

/-- Where a modifier is next, it is taken. -/
theorem consumed_lt_modifiers {s : State} (hs : s.final.isEof = true) {word : Keyword}
    (hkind : s.kind = .keyword word) (hword : word.isModifier = true) :
    s.consumed < (modifiers.run nested s).2.consumed := by
  have hshrinks := Parser.shrinks_modifierStep h.onlyTakes
  have hagain : Parser.Ensures nested (fun t => t = s) (modifierStep []) fun result _ =>
      ∃ next, result = .again next := by
    refine Parser.Ensures.look_at ?_
    rw [hkind]
    dsimp only
    rw [if_pos hword]
    intro t _
    simp only [Parser.run_bind, Parser.run_pure]
    exact ⟨_, rfl⟩
  obtain ⟨next, hnext⟩ := hagain s rfl
  have hless := hshrinks [] s hs next hnext
  have hrest := State.isTrail_reaches.run h.onlyTakes (modifierStep []) s
  have hlast : ((modifierStep []).run nested s).2.Reaches (modifiers.run nested s).2 := by
    rw [modifiers, Parser.run_bind, hshrinks.run_loop h.onlyTakes [] hs]
    generalize (modifierStep []).run nested s = first at hnext
    obtain ⟨one, after⟩ := first
    obtain rfl : one = .again next := hnext
    exact State.isTrail_reaches.run h.onlyTakes _ after
  have hne : ((modifierStep []).run nested s).2.consumed ≠ s.consumed := by
    intro hsame
    rw [State.remaining, State.remaining, hrest.pending_eq hsame] at hless
    exact Nat.lt_irrefl _ hless
  have := hrest.consumed_le
  have := hlast.consumed_le
  omega

theorem keeps_body : B.Keeps nested body := by
  refine Takes.state fun s => Takes.ite (keeps_block h).single ?_
  refine (keeps_eat .semicolon rfl).bind fun found => Takes.ite (keeps_pure _) ?_
  exact (keeps_reportExpected _).bind fun _ => keeps_missing.single

theorem keeps_function (m : Mark) (modifiers : List Node) :
    B.Keeps nested (function m modifiers) := by
  refine Takes.state fun s => ((h.keeps .type).single.optionally _).bind fun types => ?_
  refine (keeps_expectKeyword _).bind fun _ => (keeps_identifier? _).bind fun name => ?_
  refine (keeps_parameters h).bind fun params => (keeps_resultType h).bind fun result => ?_
  exact (keeps_body h).bind fun code => keeps_close _ _ _ _

theorem keeps_constantValue : B.Keeps nested constantValue :=
  (keeps_expect .assign rfl).bind fun _ => Takes.ite (h.keeps _) keeps_missing

theorem opens_constant (m : Mark) (modifiers : List Node) :
    B.Opens nested (constant m modifiers) := by
  refine Opens.take fun _ => (keeps_scopedName? _).bind fun name => ?_
  refine (keeps_constantValue h).bind fun value => ?_
  exact (keeps_expect .semicolon rfl).bind fun _ => keeps_close _ _ _ _

theorem keeps_field (m : Mark) (modifiers : List Node) : B.Keeps nested (field m modifiers) := by
  refine (keeps_variableType h).bind fun types => (keeps_variableName? _).bind fun name => ?_
  refine (keeps_initialiser h).bind fun value => ?_
  exact (keeps_expect .semicolon rfl).bind fun _ => keeps_close _ _ _ _

theorem keeps_baseCall : B.Keeps nested baseCall :=
  Takes.mark fun _ => (keeps_scopedName? _).bind fun _ => (keeps_arguments h).bind fun _ =>
    keeps_close _ _ _ _

theorem keeps_baseCalls : B.Keeps nested baseCalls :=
  (keeps_eat .colon rfl).bind fun colon => (keeps_baseCall h).commaList.optionally colon

theorem keeps_method (m : Mark) (modifiers : List Node) : B.Keeps nested (method m modifiers) := by
  refine Takes.state fun s => ((h.keeps .type).single.optionally _).bind fun types => ?_
  refine (keeps_identifier? _).bind fun name => (keeps_parameters h).bind fun params => ?_
  refine (keeps_resultType h).bind fun result => (keeps_baseCalls h).bind fun bases => ?_
  exact (keeps_body h).bind fun code => keeps_close _ _ _ _

/-- A constant is told by its word, and anything else is read as `other`. -/
theorem keeps_constantOr (m : Mark) (modifiers : List Node) {other : State → Parser Node}
    (hother : ∀ s, B.Keeps nested (other s)) :
    B.Keeps nested (state >>= fun s =>
      if s.isAtKeyword .const then constant m modifiers else other s) := by
  refine Takes.look fun s hs => ?_
  split_ifs with hat
  · exact (opens_constant h m modifiers).of_isAtKeyword hs hat
  · exact (hother s).runsFrom hs

theorem keeps_blockMember : B.Keeps nested blockMember :=
  Takes.mark fun m => keeps_modifiers.bind fun nodes =>
    keeps_constantOr h m nodes fun _ => keeps_field h m nodes

/-- A block of members begins with a modifier, so that a token is taken even if no brace follows. -/
theorem runsFrom_memberBlock {s : State} (hs : s.final.isEof = true)
    (hblock : s.isMemberBlock = true) : B.RunsFrom nested s 0 memberBlock := by
  have htaken : s.consumed < (modifiers.run nested s).2.consumed := by
    rw [State.isMemberBlock, Bool.and_eq_true, Bool.or_eq_true] at hblock
    rcases hblock.1 with hat | hat
    · exact consumed_lt_modifiers h hs (eq_of_beq hat) rfl
    · exact consumed_lt_modifiers h hs (eq_of_beq hat) rfl
  have hopened : B.Takes nested 1 (modifiers >>= fun _ => expect .lBrace) :=
    keeps_modifiers.bind fun _ => takes_expect .lBrace
  have hreaches := State.isTrail_reaches.run h.onlyTakes (expect .lBrace)
    (modifiers.run nested s).2
  have hmembers := closes_braced h (keeps_blockMember h) 1 s _ hs (hopened s hs)
  rw [Parser.run_bind] at hmembers
  have hclosed := hmembers (Nat.lt_of_lt_of_le htaken hreaches.consumed_le)
  have hrun : (memberBlock.run nested s).2 = ((braced blockMember).run nested
      ((expect .lBrace).run nested (modifiers.run nested s).2).2).2 := by
    simp only [memberBlock, Parser.run_bind, run_mark, run_close]
  rw [RunsFrom, hrun]
  exact hclosed

theorem keeps_singleMember (m : Mark) (modifiers : List Node) :
    B.Keeps nested (singleMember m modifiers) := by
  refine keeps_constantOr h m modifiers fun s => ?_
  refine Takes.ite (keeps_method h m modifiers) (Takes.ite (keeps_method h m modifiers) ?_)
  refine Takes.ite (keeps_field h m modifiers) ?_
  exact (keeps_reportExpected _).bind fun _ => keeps_close _ _ _ _

theorem keeps_classMember : B.Keeps nested classMember := by
  refine Takes.look fun s hs => ?_
  split_ifs with hblock
  · exact runsFrom_memberBlock h hs hblock
  · refine Takes.runsFrom (Takes.mark fun m => keeps_modifiers.bind fun nodes => ?_) hs
    exact keeps_singleMember h m nodes

omit h in
theorem keeps_superclass : B.Keeps nested superclass :=
  Takes.mark fun _ => keeps_modifiers.bind fun _ => (keeps_scopedName? _).bind fun _ =>
    keeps_close _ _ _ _

omit h in
theorem keeps_inheritance : B.Keeps nested inheritance := by
  refine Takes.look fun s hs => ?_
  split_ifs with hat
  · refine Opens.of_isAtKeyword (Opens.mark_take fun m _ => ?_) hs hat
    exact keeps_superclass.commaList.bind fun classes => (keeps_close m _ _ _).single
  · exact (keeps_pure []).runsFrom hs

theorem keeps_itemsOrSemicolon {item : Parser Node} (hitem : B.Keeps nested item) :
    B.Keeps nested (itemsOrSemicolon item) := by
  refine (keeps_eat .semicolon rfl).bind fun found => Takes.ite (keeps_pure _) ?_
  exact Closes.inBraces (closes_braced h hitem) (keeps_pure _)

theorem opens_classDeclaration (m : Mark) (modifiers : List Node) :
    B.Opens nested (classDeclaration m modifiers) := by
  refine Opens.take fun _ => (keeps_scopedName? _).bind fun name => ?_
  refine keeps_inheritance.bind fun bases => ?_
  exact (keeps_itemsOrSemicolon h (keeps_classMember h)).bind fun members => keeps_close _ _ _ _

theorem opens_namespaceDeclaration (m : Mark) (modifiers : List Node) :
    B.Opens nested (namespaceDeclaration m modifiers) := by
  refine Opens.take fun _ => (keeps_scopedName? _).bind fun name => ?_
  exact (keeps_itemsOrSemicolon h (h.keeps _)).bind fun items => keeps_close _ _ _ _

theorem opens_hashDeclaration (m : Mark) (modifiers : List Node) :
    B.Opens nested (hashDeclaration m modifiers) := by
  have hfield : B.Keeps nested hashField := Takes.mark fun m => keeps_field h m []
  refine Opens.take fun _ => (keeps_scopedName? _).bind fun name => ?_
  have hfields : B.Keeps nested (expect .lBrace >>= fun opened =>
      optionally opened (braced hashField)) :=
    Closes.inBraces (closes_braced h hfield) (keeps_pure _)
  intro s hs
  have hall := hfields.bind (fun fields => keeps_close m .hashdecl (namePayload name)
    (modifiers ++ fields)) s hs
  rw [Parser.run_bind, Parser.run_bind] at hall
  rw [Parser.run_bind, Parser.run_bind]
  exact hall

theorem keeps_declarationAfter (m : Mark) (modifiers : List Node) :
    B.Keeps nested (declarationAfter m modifiers) := by
  have hword : ∀ {s : State} {word : Keyword}, s.keyword? = some word → s.kind = .keyword word := by
    intro s word hword
    rw [State.keyword?] at hword
    split at hword
    · rename_i hkind
      rw [hkind, Option.some.inj hword]
    · cases hword
  refine Takes.look fun s hs => ?_
  split
  · rename_i hfound
    exact (opens_namespaceDeclaration h m modifiers).of_kind hs (hword hfound) rfl
  · rename_i hfound
    exact (opens_classDeclaration h m modifiers).of_kind hs (hword hfound) rfl
  · rename_i hfound
    exact (opens_hashDeclaration h m modifiers).of_kind hs (hword hfound) rfl
  · rename_i hfound
    exact (opens_constant h m modifiers).of_kind hs (hword hfound) rfl
  · exact (keeps_function h m modifiers).runsFrom hs
  · refine Takes.runsFrom (Takes.ite (keeps_function h m modifiers) ?_) hs
    exact (keeps_reportExpected _).bind fun _ => keeps_close _ _ _ _

theorem keeps_declaration : B.Keeps nested declaration :=
  Takes.mark fun m => keeps_modifiers.bind fun nodes => keeps_declarationAfter h m nodes

end QoreSyntax.Grammar.Bracing

import QoreSyntax.Proofs.Grammar.Reading.Script
import QoreSyntax.Proofs.Statement.Part

namespace QoreSyntax

open Grammar
open Grammar.Parser (Reads ReadsUpTo)
open Token (Kind)

namespace Statement

/-- Statements of at most `bound` tokens are read where they are called for. -/
def ReadsWithin (nested : Goal → State → Node × State) (depth bound : Nat) : Prop :=
  ∀ s : Statement, s.fits = true → s.kinds.length ≤ bound → ReadsUpTo nested depth s.kinds
    (fun kind => s.isOpen = true → kind ≠ .keyword .else) statement fun node => node.shape = s.shape

variable {nested : Goal → State → Node × State} {depth bound : Nat} {rest : List Kind}

section Reading

variable (h : Parts nested depth bound) (hs : ReadsWithin nested depth bound)
include h hs

omit h in
/-- The statements of a sequence are read wherever no alternative follows. -/
theorem reads_item {items : List Statement} (hfits : fitsAll items = true)
    (hlength : (kindsEach items).flatten.length ≤ bound) :
    ∀ s ∈ items, ReadsUpTo nested depth s.kinds (· ≠ .keyword .else) statement
      fun node => node.shape = s.shape := by
  intro s hmem rest hrest
  have hle : s.kinds.length ≤ (kindsEach items).flatten.length := by
    rw [kindsEach_eq_map]
    exact Token.length_le_flatten (List.mem_map_of_mem hmem)
  exact hs s (fits_of_mem hfits hmem) (by omega) rest fun _ => hrest

omit h hs in
theorem begins_item (s : Statement) (behind : List Kind) :
    (s.kinds ++ behind).headD .eof ≠ .keyword .else ∧
      ((s.kinds ++ behind).headD .eof).beginsItem = true := by
  have hbegins := s.beginsItem_head behind
  exact ⟨Token.ne_of_holds hbegins rfl, hbegins⟩

theorem reads_block {items : List Statement} (hfits : fitsAll items = true)
    (hlength : (bracedKinds (kindsEach items)).length ≤ bound + 2) :
    Reads nested depth (bracedKinds (kindsEach items) ++ rest) Grammar.block
      (fun node => node.shape = blockShape (shapeEach items)) rest := by
  rw [bracedKinds, List.length_cons, List.length_append, List.length_singleton] at hlength
  have hitems := reads_item hs hfits (by omega)
  rw [bracedKinds, List.cons_append, List.append_assoc, kindsEach_eq_map]
  refine Reads.bind Reads.mark fun m _ => Reads.bind (Reads.expect .lBrace) ?_
  rintro _ rfl
  rw [if_pos rfl]
  have hbegins := fun s (_ : s ∈ items) => begins_item s
  refine Reads.bind (Reads.braced h.onlyTakes hitems hbegins (ne_of_beq_false rfl))
    fun nodes hnodes => Reads.closes ?_
  rw [hnodes, ← shapeEach_eq_map]
  rfl

/-- Behind an arm comes the next one or the end of the switch. -/
def endsArm : Kind → Bool
  | .symbol .rBrace | .keyword .case | .keyword .default => true
  | _ => false

omit h hs in
theorem holds_caseArm {o : State} (ho : o.Clear rest depth)
    (hends : endsArm (rest.headD .eof) = true) : Terminator.caseArm.holds o = true := by
  rw [Terminator.holds.eq_def]
  dsimp only
  rw [ho.isAt_eq, ho.isAtKeyword_eq, ho.isAtKeyword_eq]
  revert hends
  generalize rest.headD .eof = kind
  intro hends
  rw [endsArm.eq_def] at hends
  split at hends
  · simp
  · simp
  · simp
  · cases hends

theorem reads_armCode {code : List Statement} (hfits : fitsAll code = true)
    (hlength : (kindsEach code).flatten.length ≤ bound) (hends : endsArm (rest.headD .eof) = true) :
    Reads nested depth ((kindsEach code).flatten ++ rest) (sequence .caseArm statement)
      (fun nodes => Node.shapes nodes = shapeEach code) rest := by
  have hitems := reads_item hs hfits hlength
  rw [kindsEach_eq_map, shapeEach_eq_map]
  exact Reads.sequence h.onlyTakes hitems (fun s _ => begins_item s) (Token.ne_of_holds hends rfl)
    fun o ho => holds_caseArm ho hends

omit h hs in
theorem isCaseOperator_of_beginsExpression {mark : Symbol}
    (hbegins : (Kind.symbol mark).beginsExpression = true) : isCaseOperator mark = false := by
  revert hbegins
  cases mark <;> decide

omit h hs in
theorem reads_caseOperator (operator : Option CaseOperator)
    (hrest : (rest.headD .eof).beginsExpression = true) :
    Reads nested depth (operatorKinds operator ++ rest) caseOperator
      (· = operatorPayload operator) rest := by
  cases operator with
  | none =>
      refine Reads.look fun o ho => ?_
      have hkind : o.kind.beginsExpression = true := ho.kind_eq ▸ hrest
      split
      · rename_i mark hmark
        rw [hmark] at hkind
        rw [isCaseOperator_of_beginsExpression hkind, if_neg Bool.false_ne_true]
        exact Reads.done rfl
      · exact Reads.done rfl
  | some operator =>
      obtain ⟨mark, hmark⟩ := operator
      refine Reads.look_cons fun o hkind => ?_
      rw [hkind]
      dsimp only
      rw [if_pos hmark]
      exact Reads.bind (Reads.advance rfl) fun _ _ => Reads.done rfl

theorem reads_caseArm {operator : Option CaseOperator} {value : Term} {code : List Statement}
    (hfits : fitsAll code = true)
    (hlength : (armKinds (.case operator value code)).length ≤ bound)
    (hends : endsArm (rest.headD .eof) = true) :
    Reads nested depth (armKinds (.case operator value code) ++ rest) caseArm
      (fun node => node.shape = armShape (.case operator value code)) rest := by
  rw [armKinds, List.length_cons, List.length_append, List.length_append, List.length_cons]
    at hlength
  rw [armKinds, List.cons_append, List.append_assoc, List.append_assoc, List.cons_append]
  have hvalue := value.beginsExpression_head (.symbol .colon :: ((kindsEach code).flatten ++ rest))
  refine Reads.bind Reads.mark fun m _ => Reads.bind (Reads.advance rfl) fun _ _ => ?_
  refine Reads.bind (reads_caseOperator operator hvalue) ?_
  rintro _ rfl
  refine Reads.bind (h.terms value (by omega) _ rfl) fun node hnode => ?_
  refine Reads.bind (Reads.expect .colon) fun _ _ => ?_
  refine Reads.bind (reads_armCode h hs hfits (by omega) hends) fun nodes hnodes => Reads.closes ?_
  rw [Node.shapes, hnode, hnodes]
  rfl

theorem reads_defaultArm {code : List Statement} (hfits : fitsAll code = true)
    (hlength : (armKinds (.default code)).length ≤ bound)
    (hends : endsArm (rest.headD .eof) = true) :
    Reads nested depth (armKinds (.default code) ++ rest) defaultArm
      (fun node => node.shape = armShape (.default code)) rest := by
  rw [armKinds, List.length_cons, List.length_cons] at hlength
  rw [armKinds, List.cons_append, List.cons_append]
  refine Reads.bind Reads.mark fun m _ => Reads.bind (Reads.advance rfl) fun _ _ => ?_
  refine Reads.bind (Reads.expect .colon) fun _ _ => ?_
  refine Reads.bind (reads_armCode h hs hfits (by omega) hends) fun nodes hnodes => Reads.closes ?_
  rw [hnodes]
  rfl

theorem reads_arm {arm : Arm} (hfits : armFits arm = true)
    (hlength : (armKinds arm).length ≤ bound) (nodes : List Node) :
    ReadsUpTo nested depth (armKinds arm) (fun kind => endsArm kind = true) (armStep nodes)
      fun result => ∃ next, result = .again next ∧
        ∃ node : Node, node.shape = armShape arm ∧ next = node :: nodes := by
  intro rest hends
  refine Reads.look fun o ho => ?_
  cases arm with
  | case operator value code =>
      have hopen : (o.isAtEnd || o.isAt .rBrace) = false := by
        rw [ho.isAtEnd_eq, ho.isAt_eq]
        rfl
      have hcase : o.isAtKeyword .case = true := ho.isAtKeyword_eq _
      rw [hopen, if_neg Bool.false_ne_true, hcase, if_pos rfl]
      exact Reads.bind (reads_caseArm h hs hfits hlength hends) fun node hnode =>
        Reads.done ⟨_, rfl, node, hnode, rfl⟩
  | default code =>
      have hopen : (o.isAtEnd || o.isAt .rBrace) = false := by
        rw [ho.isAtEnd_eq, ho.isAt_eq]
        rfl
      have hcase : o.isAtKeyword .case = false := ho.isAtKeyword_eq _
      have hdefault : o.isAtKeyword .default = true := ho.isAtKeyword_eq _
      rw [hopen, if_neg Bool.false_ne_true, hcase, if_neg Bool.false_ne_true, hdefault, if_pos rfl]
      exact Reads.bind (reads_defaultArm h hs hfits hlength hends) fun node hnode =>
        Reads.done ⟨_, rfl, node, hnode, rfl⟩

theorem reads_switchArms {arms : List Arm} (hfits : armsFit arms = true)
    (hlength : (bracedKinds (armKindsEach arms)).length ≤ bound + 2) :
    Reads nested depth (bracedKinds (armKindsEach arms) ++ rest) switchArms
      (fun nodes => Node.shapes nodes = armShapeEach arms) rest := by
  rw [bracedKinds, List.length_cons, List.length_append, List.length_singleton] at hlength
  have hagain : ∀ arm ∈ arms, ∀ nodes, ReadsUpTo nested depth (armKinds arm)
      (fun kind => endsArm kind = true) (armStep nodes) fun result => ∃ next, result = .again next ∧
        ∃ node : Node, node.shape = armShape arm ∧ next = node :: nodes := by
    intro arm hmem
    have hle : (armKinds arm).length ≤ (armKindsEach arms).flatten.length := by
      rw [armKindsEach_eq_map]
      exact Token.length_le_flatten (List.mem_map_of_mem hmem)
    exact reads_arm h hs (armFits_of_mem hfits hmem) (by omega)
  have hdone : ∀ nodes, Reads nested depth (.symbol .rBrace :: rest) (armStep nodes)
      (fun result => ∃ last, result = .done last ∧ last = nodes) (.symbol .rBrace :: rest) := by
    intro nodes
    refine Reads.look fun o ho => ?_
    have hat : o.isAt .rBrace = true := ho.isAt_eq _
    rw [hat, Bool.or_true, if_pos rfl]
    exact Reads.done ⟨nodes, rfl, rfl⟩
  have hbegins : ∀ arm ∈ arms, ∀ behind,
      endsArm ((armKinds arm ++ behind).headD .eof) = true := by
    intro arm _ behind
    cases arm <;> rfl
  rw [bracedKinds, List.cons_append, List.append_assoc, armKindsEach_eq_map]
  refine Reads.bind (Reads.expect .lBrace) ?_
  rintro _ rfl
  rw [if_pos rfl]
  refine Reads.bind (Reads.loop_items (Parser.shrinks_armStep h.onlyTakes) h.onlyTakes hagain hdone
    hbegins rfl []) fun nodes hnodes => ?_
  refine Reads.bind (Reads.expect .rBrace) fun _ _ => Reads.done ?_
  rw [hnodes, armShapeEach_eq_map]
  rfl

theorem reads_catchClause {caught : Option Parameter} {handler : List Statement}
    (hfits : fitsAll handler = true)
    (hlength : (caughtKinds caught ++ bracedKinds (kindsEach handler)).length ≤ bound + 2) :
    Reads nested depth (caughtKinds caught ++ (bracedKinds (kindsEach handler) ++ rest)) catchClause
      (fun node => node.shape = ⟨.catch, .none,
        (caught.map Parameter.shape).toList ++ [blockShape (shapeEach handler)]⟩) rest := by
  rw [caughtKinds, List.length_append, List.length_cons, List.length_cons, List.length_append]
    at hlength
  rw [caughtKinds, List.cons_append, List.cons_append, List.append_assoc]
  refine Reads.look fun o ho => ?_
  have hat : o.isAtKeyword .catch = true := ho.isAtKeyword_eq _
  rw [hat, if_pos rfl]
  refine Reads.bind Reads.mark fun m _ => Reads.bind (Reads.advance rfl) fun _ _ => ?_
  refine Reads.bind (Reads.expect .lParen) fun _ _ => Reads.look fun o ho => ?_
  have hparam : Reads nested depth
      ((caught.map Parameter.kinds).getD [] ++
        ([.symbol .rParen] ++ (bracedKinds (kindsEach handler) ++ rest)))
      (optionally (!o.isAt .rParen) (single parameter))
      (fun nodes => Node.shapes nodes = (caught.map Parameter.shape).toList)
      ([.symbol .rParen] ++ (bracedKinds (kindsEach handler) ++ rest)) := by
    cases caught with
    | none =>
        have hclosed : o.isAt .rParen = true := ho.isAt_eq _
        rw [hclosed]
        exact Reads.optionally_false
    | some p =>
        rw [Option.map_some, Option.getD_some] at hlength ho
        have hopen : o.isAt .rParen = false :=
          (ho.isAt_eq _).trans (beq_eq_false_iff_ne.mpr (p.head_ne_rParen _))
        rw [hopen]
        exact Reads.single (p.reads h (by omega) rfl)
  refine Reads.bind hparam fun params hparams => ?_
  refine Reads.bind (Reads.expect .rParen) fun _ _ => ?_
  refine Reads.bind (reads_block h hs hfits (by omega)) fun code hcode => Reads.closes ?_
  rw [Node.shapes_append, hparams, Node.shapes, Node.shapes, hcode]

omit hs in
/-- A branch, with what is read behind it as its alternative. -/
theorem reads_ifStatement {test : Term} {body : Statement} {alternative : List Node.Shape}
    {found : Bool} {middle after : List Kind}
    (hlength : (Head.conditionKinds test).length ≤ bound + 1)
    (hbody : Reads nested depth (body.kinds ++ middle) statement
      (fun node => node.shape = body.shape) middle)
    (hfound : Reads nested depth middle (eatKeyword .else) (· = found) after)
    (halternative : Reads nested depth after (optionally found (single statement))
      (fun nodes => Node.shapes nodes = alternative) rest) :
    Reads nested depth ((Head.if test).kinds ++ (body.kinds ++ middle)) ifStatement
      (fun node => node.shape = ⟨.if, .none, test.shape :: body.shape :: alternative⟩) rest := by
  refine Reads.bind Reads.mark fun m _ => Reads.bind (Reads.advance rfl) fun _ _ => ?_
  refine Reads.bind (reads_condition h test hlength) fun node hnode => ?_
  refine Reads.bind hbody fun branch hbranch => Reads.bind hfound ?_
  rintro _ rfl
  refine Reads.bind halternative fun nodes hnodes => Reads.closes ?_
  rw [Node.shapes, Node.shapes, hnode, hbranch, hnodes]

omit hs in
theorem reads_whileStatement {test : Term} {body : Statement}
    (hlength : (Head.while test).kinds.length ≤ bound + 1)
    (hbody : Reads nested depth (body.kinds ++ rest) statement
      (fun node => node.shape = body.shape) rest) :
    Reads nested depth ((Head.while test).kinds ++ (body.kinds ++ rest)) whileStatement
      (fun node => node.shape = (headed (.while test) body).shape) rest := by
  rw [Head.kinds, List.length_cons] at hlength
  refine Reads.bind Reads.mark fun m _ => Reads.bind (Reads.advance rfl) fun _ _ => ?_
  refine Reads.bind (reads_condition h test (by omega)) fun node hnode => ?_
  refine Reads.bind hbody fun code hcode => Reads.closes ?_
  rw [Node.shapes, Node.shapes, Node.shapes, hnode, hcode]
  rfl

omit hs in
theorem reads_forStatement {start : Option Variable} {test step : Option Term} {body : Statement}
    (hlength : (Head.for start test step).kinds.length ≤ bound + 1)
    (hbody : Reads nested depth (body.kinds ++ rest) statement
      (fun node => node.shape = body.shape) rest) :
    Reads nested depth ((Head.for start test step).kinds ++ (body.kinds ++ rest)) forStatement
      (fun node => node.shape = (headed (.for start test step) body).shape) rest := by
  rw [Head.kinds, List.length_cons, List.length_cons, List.length_append, List.length_append]
    at hlength
  rw [Head.kinds, List.cons_append, List.cons_append, List.append_assoc, List.append_assoc]
  refine Reads.bind Reads.mark fun m _ => Reads.bind (Reads.advance rfl) fun _ _ => ?_
  refine Reads.bind (Reads.expect .lParen) fun _ _ => ?_
  refine Reads.bind (reads_startClause h start (by omega)) fun first hfirst => ?_
  refine Reads.bind (reads_termClause h test .semicolon (by omega) rfl rfl) fun second hsecond => ?_
  refine Reads.bind (reads_termClause h step .rParen (by omega) rfl rfl) fun third hthird => ?_
  refine Reads.bind hbody fun code hcode => Reads.closes ?_
  rw [Node.shapes, Node.shapes, Node.shapes, Node.shapes, Node.shapes, hfirst, hsecond, hthird,
    hcode]
  rfl

omit hs in
theorem reads_foreachStatement {item : Variable} {items : Term} {body : Statement}
    (hlength : (Head.foreach item items).kinds.length ≤ bound + 1)
    (hbody : Reads nested depth (body.kinds ++ rest) statement
      (fun node => node.shape = body.shape) rest) :
    Reads nested depth ((Head.foreach item items).kinds ++ (body.kinds ++ rest)) foreachStatement
      (fun node => node.shape = (headed (.foreach item items) body).shape) rest := by
  rw [Head.kinds, List.length_cons, List.length_append, List.length_cons] at hlength
  rw [Head.kinds, List.cons_append, List.append_assoc, List.cons_append]
  refine Reads.bind Reads.mark fun m _ => Reads.bind (Reads.advance rfl) fun _ _ => ?_
  refine Reads.bind (item.reads_variableOrExpression h (by omega) ⟨rfl, rfl⟩) fun first hfirst => ?_
  refine Reads.bind (Reads.expectKeyword .in) fun _ _ => ?_
  refine Reads.bind (reads_condition h items (by omega)) fun node hnode => ?_
  refine Reads.bind hbody fun code hcode => Reads.closes ?_
  rw [Node.shapes, Node.shapes, Node.shapes, Node.shapes, hfirst, hnode, hcode]
  rfl

omit h hs in
theorem reads_guardStatement {event : Event} {body : Statement}
    (hbody : Reads nested depth (body.kinds ++ rest) statement
      (fun node => node.shape = body.shape) rest) :
    Reads nested depth ((Head.guard event).kinds ++ (body.kinds ++ rest))
      (guardStatement event.nodeKind)
      (fun node => node.shape = (headed (.guard event) body).shape) rest := by
  refine Reads.bind Reads.mark fun m _ => Reads.bind (Reads.advance rfl) fun _ _ => ?_
  refine Reads.bind hbody fun code hcode => Reads.closes ?_
  rw [Node.shapes, Node.shapes, hcode]
  rfl

omit h hs in
/-- A statement that begins with a word is read by the rule for that word. -/
theorem reads_word {word : Keyword} {before : List Kind} {p : Node → Prop}
    (hreads : Reads nested depth (.keyword word :: before) (wordStatement word) p rest) :
    Reads nested depth (.keyword word :: before) statementRule p rest := by
  refine Reads.look_cons fun o hkind => ?_
  rw [hkind]
  exact hreads

/-- What stands before a statement is read, and then the statement that it governs. -/
theorem reads_headed {head : Head} {body : Statement} (hfits : body.fits = true)
    (hlength : (headed head body).kinds.length ≤ bound + 1)
    (hopen : (headed head body).isOpen = true → rest.headD .eof ≠ .keyword .else) :
    Reads nested depth ((headed head body).kinds ++ rest) statementRule
      (fun node => node.shape = (headed head body).shape) rest := by
  rw [kinds, List.length_append] at hlength
  rw [kinds, List.append_assoc]
  have hpos := head.length_pos
  have hbody : Reads nested depth (body.kinds ++ rest) statement
      (fun node => node.shape = body.shape) rest := by
    refine hs body hfits (by omega) rest fun hbody => hopen ?_
    rw [isOpen, hbody, Bool.or_true]
  cases head with
  | «if» test =>
      rw [Head.kinds, List.length_cons] at hlength
      exact reads_word (reads_ifStatement h (by omega) hbody (Reads.eatKeyword_miss (hopen rfl))
        Reads.optionally_false)
  | «while» test => exact reads_word (reads_whileStatement h (by omega) hbody)
  | «for» start test step => exact reads_word (reads_forStatement h (by omega) hbody)
  | foreach item items => exact reads_word (reads_foreachStatement h (by omega) hbody)
  | guard event =>
      refine reads_word ?_
      have hword : wordStatement event.word = guardStatement event.nodeKind := by
        cases event <;> rfl
      rw [hword]
      exact reads_guardStatement hbody

theorem reads_choose {test : Term} {yes no : Statement}
    (hfits : (choose test yes no).fits = true)
    (hlength : (choose test yes no).kinds.length ≤ bound + 1)
    (hopen : (choose test yes no).isOpen = true → rest.headD .eof ≠ .keyword .else) :
    Reads nested depth ((choose test yes no).kinds ++ rest) statementRule
      (fun node => node.shape = (choose test yes no).shape) rest := by
  rw [fits, Bool.and_eq_true, Bool.and_eq_true, Bool.not_eq_true'] at hfits
  rw [kinds, Head.kinds, List.length_append, List.length_append, List.length_cons,
    List.length_cons] at hlength
  rw [kinds, List.append_assoc, List.append_assoc, List.cons_append]
  obtain ⟨⟨hyes, hclosed⟩, hno⟩ := hfits
  have hbranch : Reads nested depth (yes.kinds ++ .keyword .else :: (no.kinds ++ rest)) statement
      (fun node => node.shape = yes.shape) (.keyword .else :: (no.kinds ++ rest)) := by
    refine hs yes hyes (by omega) _ fun htrue => ?_
    rw [hclosed] at htrue
    cases htrue
  have halternative : Reads nested depth (no.kinds ++ rest) (optionally true (single statement))
      (fun nodes => Node.shapes nodes = [no.shape]) rest :=
    Reads.single (hs no hno (by omega) rest hopen)
  exact reads_word (reads_ifStatement h (by omega) hbranch (Reads.eatKeyword .else) halternative)

theorem reads_doWhile {body : Statement} {test : Term} (hfits : body.fits = true)
    (hlength : (doWhile body test).kinds.length ≤ bound + 1) :
    Reads nested depth ((doWhile body test).kinds ++ rest) statementRule
      (fun node => node.shape = (doWhile body test).shape) rest := by
  rw [kinds, List.length_cons, List.length_append, List.length_cons, List.length_append] at hlength
  rw [kinds, List.cons_append, List.append_assoc, List.cons_append, List.append_assoc]
  refine reads_word (Reads.bind Reads.mark fun m _ => ?_)
  refine Reads.bind (Reads.advance rfl) fun _ _ => ?_
  refine Reads.bind (hs body hfits (by omega) _ fun _ => ne_of_beq_false rfl) fun code hcode => ?_
  refine Reads.bind (Reads.expectKeyword .while) fun _ _ => ?_
  refine Reads.bind (reads_condition h test (by omega)) fun node hnode => ?_
  refine Reads.bind (Reads.expect .semicolon) fun _ _ => Reads.closes ?_
  rw [Node.shapes, Node.shapes, Node.shapes, hcode, hnode]
  rfl

omit hs in
theorem reads_jump {way : Jump} {values : List Term} (hfits : (jump way values).fits = true)
    (hlength : (jump way values).kinds.length ≤ bound + 1) :
    Reads nested depth ((jump way values).kinds ++ rest) statementRule
      (fun node => node.shape = (jump way values).shape) rest := by
  rw [kinds, List.length_cons, List.length_append, List.length_singleton] at hlength
  rw [kinds, List.cons_append, List.append_assoc]
  have hword : wordStatement way.word = jumpStatement way.nodeKind way.isRequired := by
    cases way <;> rfl
  refine reads_word ?_
  rw [hword]
  refine Reads.bind Reads.mark fun m _ => Reads.bind (Reads.advance rfl) fun _ _ => ?_
  refine Reads.look fun o ho => ?_
  have hvalues : Reads nested depth
      (Token.commas (values.map Term.kinds) ++ .symbol .semicolon :: rest)
      (optionally (way.isRequired || !o.isAt .semicolon) (single expressionList))
      (fun nodes => Node.shapes nodes = Term.operandShapes values)
      (.symbol .semicolon :: rest) := by
    cases values with
    | nil =>
        have hat : o.isAt .semicolon = true := ho.isAt_eq _
        have hfree : way.isRequired = false := by
          rw [fits] at hfits
          simpa using hfits
        rw [hat, hfree]
        exact Reads.optionally_false
    | cons value values =>
        obtain ⟨tail, htail⟩ := Token.exists_commas_cons value.kinds (values.map Term.kinds)
        have hat : o.isAt .semicolon = false := by
          rw [ho.isAt_eq, List.map_cons, htail, List.append_assoc]
          exact beq_eq_false_iff_ne.mpr (Token.ne_of_holds (value.beginsExpression_head _) rfl)
        rw [hat, Bool.not_false, Bool.or_true]
        exact Term.reads_expressionList h.terms h.onlyTakes (by omega) rfl (ne_of_beq_false rfl)
  refine Reads.bind hvalues fun nodes hnodes => ?_
  refine Reads.bind (Reads.expect .semicolon) fun _ _ => Reads.closes ?_
  rw [hnodes]
  rfl

omit h hs in
theorem reads_leave {way : Leave} :
    Reads nested depth ((leave way).kinds ++ rest) statementRule
      (fun node => node.shape = (leave way).shape) rest := by
  have hword : wordStatement way.word = bareStatement way.nodeKind := by
    cases way <;> rfl
  refine reads_word ?_
  rw [hword]
  refine Reads.bind Reads.mark fun m _ => Reads.bind (Reads.advance rfl) fun _ _ => ?_
  exact Reads.bind (Reads.expect .semicolon) fun _ _ => Reads.closes rfl

/-- The rule for statements reads one up to where it ends. -/
theorem reads_statementRule (s : Statement) (hfits : s.fits = true)
    (hlength : s.kinds.length ≤ bound + 1)
    (hopen : s.isOpen = true → rest.headD .eof ≠ .keyword .else) :
    Reads nested depth (s.kinds ++ rest) statementRule (fun node => node.shape = s.shape) rest := by
  cases s with
  | empty =>
      refine Reads.look_cons fun o hkind => ?_
      rw [hkind]
      refine Reads.bind Reads.mark fun m _ => Reads.bind (Reads.advance rfl) fun _ _ => ?_
      exact Reads.closes rfl
  | «variable» v =>
      rw [kinds, List.length_append, List.length_singleton] at hlength
      rw [kinds, List.append_assoc]
      exact v.reads_statement h (by omega)
  | block items =>
      refine Reads.look_cons fun o hkind => ?_
      rw [hkind]
      exact reads_block h hs hfits (by rw [kinds] at hlength; omega)
  | headed head body => exact reads_headed h hs hfits hlength hopen
  | choose test yes no => exact reads_choose h hs hfits hlength hopen
  | doWhile body test => exact reads_doWhile h hs hfits hlength
  | switch value arms =>
      rw [kinds, List.length_cons, List.length_append] at hlength
      rw [kinds, List.cons_append, List.append_assoc]
      refine reads_word (Reads.bind Reads.mark fun m _ => ?_)
      refine Reads.bind (Reads.advance rfl) fun _ _ => ?_
      refine Reads.bind (reads_condition h value (by omega)) fun node hnode => ?_
      refine Reads.bind (reads_switchArms h hs hfits (by omega)) fun nodes hnodes => Reads.closes ?_
      rw [Node.shapes, hnode, hnodes]
      rfl
  | «try» body caught handler =>
      rw [fits, Bool.and_eq_true] at hfits
      rw [kinds, List.length_cons, List.length_append] at hlength
      rw [kinds, List.cons_append, List.append_assoc, List.append_assoc]
      refine reads_word (Reads.bind Reads.mark fun m _ => ?_)
      refine Reads.bind (Reads.advance rfl) fun _ _ => ?_
      refine Reads.bind (reads_block h hs hfits.1 (by omega)) fun code hcode => ?_
      refine Reads.bind (reads_catchClause h hs hfits.2 (by omega)) fun clause hclause =>
        Reads.closes ?_
      rw [Node.shapes, Node.shapes, Node.shapes, hcode, hclause]
      rfl
  | jump way values => exact reads_jump h hfits hlength
  | leave way => exact reads_leave

end Reading

/-- With enough room for nesting a statement is read where it is called for. -/
theorem readsWithin_parse {limit room depth bound : Nat} (hroom : bound ≤ room)
    (hlimit : depth + bound ≤ limit) : ReadsWithin (Grammar.parse limit room) depth bound := by
  refine Parser.parse_induction (P := ReadsWithin) ?_ ?_ hroom hlimit
  · intro nested depth s _ hlength
    exact absurd hlength (Nat.not_le.mpr s.length_pos)
  · intro limit room depth bound hdepth hroom hlimit hnested s hfits hlength rest hopen
    have hparts : Parts (Grammar.parse limit room) (depth + 1) bound := parts_parse hroom hlimit
    exact Reads.call hdepth (reads_statementRule hparts hnested s hfits hlength hopen)

/-- Any statement that is written with blanks between its tokens is read as it is meant, as the only
one of a script, and nothing is reported, if constructs may nest as deeply as it has tokens. -/
theorem written_statement_is_read (s : Statement) (hfits : s.fits = true) (options : Options)
    (hdepth : s.kinds.length ≤ options.maxNestingDepth) :
    ∃ root : Node, QoreSyntax.parse (Token.written s.kinds) options = (⟨some root⟩, []) ∧
      root.shape = ⟨.script, .none, [s.shape]⟩ := by
  have hlimit : s.kinds.length ≤ options.limit := Nat.le_trans hdepth (Nat.le_max_left _ _)
  have hwithin : ReadsWithin (Grammar.parse options.limit options.limit) 0 s.kinds.length :=
    readsWithin_parse hlimit (by omega)
  have hreads : ReadsUpTo (Grammar.parse options.limit options.limit) 0 s.kinds
      (· ≠ .keyword .else) statement fun node => node.shape = s.shape :=
    fun rest hrest => hwithin s hfits (Nat.le_refl _) rest fun _ => hrest
  exact parse_written_single s options s.portable hreads (begins_item s) (ne_of_beq_false rfl)

/-- The statement `if ( a ) { my b = 1 ; throw a , 2 ; } else for ( i = 0 ; i < 9 ; ) foreach my x
in ( a ) switch ( x ) { case == 3 : break ; default : try { ; } catch ( e ) { return ; } }`. -/
def mixed : Statement :=
  let a : Identifier := ⟨"a", by decide, by decide⟩
  let i : Identifier := ⟨"i", by decide, by decide⟩
  let x : Identifier := ⟨"x", by decide, by decide⟩
  let number (value : Nat) (h : value < Nat.pow 2 63) : Term := ⟨.integer value, h⟩
  let attempt : Statement :=
    .try [.empty] (some (.named none ⟨"e", by decide, by decide⟩ none)) [.jump .return []]
  let selection : Statement :=
    .switch (.ofName x) [.case (some ⟨.eqEq, rfl⟩) (number 3 (by decide)) [.leave .break],
      .default [attempt]]
  let counting : Head :=
    .for (some ⟨false, i, some (number 0 (by decide))⟩)
      (some ⟨.binary (.name "i") .lt (.integer 9), by decide⟩) none
  .choose (.ofName a)
    (.block [.variable ⟨true, ⟨"b", by decide, by decide⟩, some (number 1 (by decide))⟩,
      .jump .throw [.ofName a, number 2 (by decide)]])
    (.headed counting (.headed (.foreach ⟨true, x, none⟩ (.ofName a)) selection))

theorem written_statement_is_read_mixed :
    mixed.fits = true ∧ mixed.kinds.length ≤ Options.standard.maxNestingDepth ∧
      ∃ root : Node, QoreSyntax.parse (Token.written mixed.kinds) Options.standard
          = (⟨some root⟩, []) ∧ root.shape = ⟨.script, .none, [mixed.shape]⟩ :=
  have hfits : mixed.fits = true := by decide
  have hdepth : mixed.kinds.length ≤ Options.standard.maxNestingDepth := by decide
  ⟨hfits, hdepth, written_statement_is_read mixed hfits Options.standard hdepth⟩

end Statement

end QoreSyntax

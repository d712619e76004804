import QoreSyntax.Proofs.Declaration.Tree
import QoreSyntax.Proofs.Statement.Reading

namespace QoreSyntax

open Grammar
open Grammar.Parser (Reads ReadsUpTo)
open Token (Kind)

variable {nested : Goal → State → Node × State} {depth bound : Nat} {rest : List Kind}

/-- The token begins the body of a declaration, or stands for none. -/
def Token.Kind.beginsBody : Kind → Bool
  | .symbol .lBrace | .symbol .semicolon => true
  | _ => false

namespace Modifier

/-- Before the token modifiers end. -/
def endsModifiers : Kind → Bool
  | .keyword word => !word.isModifier
  | .symbol mark => mark != .colon
  | _ => true

/-- Only behind the word for privacy a colon belongs to the modifier. -/
theorem reads_modifierScope {word : Keyword}
    (hrest : word ≠ .private ∨ rest.headD .eof ≠ .symbol .colon) :
    Reads nested depth rest (modifierScope word) (· = "") rest := by
  refine Reads.look fun o ho => ?_
  split
  · rename_i hcolon _
    rcases hrest with hword | hother
    · exact absurd rfl hword
    · exact absurd (ho.kind_eq.symm.trans hcolon) hother
  · exact Reads.done rfl

theorem reads_plain {word : Keyword} (hword : word.isModifier = true)
    (hrest : word ≠ .private ∨ rest.headD .eof ≠ .symbol .colon) (nodes : List Node) :
    Reads nested depth (.keyword word :: rest) (modifierStep nodes)
      (fun result => ∃ next, result = .again next ∧
        ∃ node : Node, node.shape = (plain word hword).shape ∧ next = node :: nodes) rest := by
  refine Reads.look_cons fun o hkind => ?_
  rw [hkind]
  dsimp only
  rw [if_pos hword]
  refine Reads.bind Reads.mark fun start _ => Reads.bind (Reads.advance rfl) fun _ _ => ?_
  refine Reads.bind (reads_modifierScope hrest) ?_
  rintro _ rfl
  refine Reads.bind (Reads.close start _ _ _) fun node hnode => Reads.done ⟨_, rfl, node, ?_, rfl⟩
  rw [hnode, String.append_empty]
  rfl

/-- One modifier, wherever no colon follows it. -/
theorem reads_modifierStep (m : Modifier) (nodes : List Node) :
    ReadsUpTo nested depth m.kinds (· ≠ .symbol .colon) (modifierStep nodes)
      fun result => ∃ next, result = .again next ∧
        ∃ node : Node, node.shape = m.shape ∧ next = node :: nodes := by
  intro rest hrest
  cases m with
  | plain word isModifier => exact reads_plain isModifier (Or.inr hrest) nodes
  | privateTo scope =>
      refine Reads.look_cons fun o hkind => ?_
      rw [hkind]
      refine Reads.bind Reads.mark fun start _ => Reads.bind (Reads.advance rfl) fun _ _ => ?_
      have hscope : Reads nested depth (.symbol .colon :: scope.kind :: rest)
          (modifierScope .private) (· = ":" ++ scope.text) rest := by
        refine Reads.look fun o ho => ?_
        have hcolon : o.kind = .symbol .colon := ho.kind_eq
        have hname : o.kindAt 1 = .identifier scope.text := ho.kindAt_eq 1
        rw [hcolon, hname]
        refine Reads.bind (Reads.advance rfl) fun _ _ => ?_
        exact Reads.bind (Reads.advance rfl) fun _ _ => Reads.done rfl
      refine Reads.bind hscope ?_
      rintro _ rfl
      exact Reads.bind (Reads.close start _ _ _) fun node hnode =>
        Reads.done ⟨_, rfl, node, hnode, rfl⟩

theorem reads_modifierStep_done (hends : endsModifiers (rest.headD .eof) = true)
    (nodes : List Node) :
    Reads nested depth rest (modifierStep nodes)
      (fun result => ∃ last, result = .done last ∧ last = nodes) rest := by
  refine Reads.look fun o ho => ?_
  rw [ho.kind_eq]
  split
  · rename_i word hword
    have hother : ¬word.isModifier = true := by
      rw [hword] at hends
      simpa [endsModifiers] using hends
    rw [if_neg hother]
    exact Reads.done ⟨nodes, rfl, rfl⟩
  · exact Reads.done ⟨nodes, rfl, rfl⟩

theorem head_ne_colon (m : Modifier) (behind : List Kind) :
    (m.kinds ++ behind).headD .eof ≠ .symbol .colon := by
  cases m <;> exact ne_of_beq_false rfl

theorem reads_modifiers (honly : OnlyTakes nested) (modifiers : List Modifier)
    (hends : endsModifiers (rest.headD .eof) = true) :
    Reads nested depth (listKinds modifiers ++ rest) Grammar.modifiers
      (fun nodes => Node.shapes nodes = shapes modifiers) rest := by
  have hagain : ∀ m ∈ modifiers, ∀ nodes, ReadsUpTo nested depth m.kinds (· ≠ .symbol .colon)
      (modifierStep nodes) fun result => ∃ next, result = .again next ∧
        ∃ node : Node, node.shape = m.shape ∧ next = node :: nodes :=
    fun m _ nodes => m.reads_modifierStep nodes
  have hcolon : rest.headD .eof ≠ .symbol .colon := Token.ne_of_holds hends rfl
  have hloop := Reads.loop_items (Parser.shrinks_modifierStep honly) honly hagain
    (reads_modifierStep_done hends) (fun m _ behind => m.head_ne_colon behind) hcolon []
  exact Reads.bind hloop fun all hall => Reads.done hall

end Modifier

section Reading

variable (h : Parts nested depth bound) {m : Mark} {modifiers : List Modifier} {nodes : List Node}
  (hnodes : Node.shapes nodes = Modifier.shapes modifiers)
include h hnodes

theorem Field.reads (f : Field) (hlength : f.kinds.length ≤ bound + 1) :
    Reads nested depth (f.kinds ++ rest) (field m nodes)
      (fun node => node.shape = f.shape modifiers) rest := by
  rw [kinds, List.length_append, List.length_cons, List.length_append, List.length_singleton]
    at hlength
  rw [kinds, List.append_assoc, List.cons_append, List.append_assoc]
  have hends : EndsVariable ((.symbol .semicolon :: rest : List Kind).headD .eof) := ⟨rfl, rfl⟩
  refine Reads.bind (reads_variableType h f.type f.name (by omega) (hends.endsName f.value))
    fun types htypes => ?_
  refine Reads.bind (f.name.reads_variableName? .memberName) ?_
  rintro _ rfl
  refine Reads.bind (Term.reads_initialiser h.terms f.value (by omega) hends.endsExpression
    hends.ne_assign) fun values hvalues => ?_
  refine Reads.bind (Reads.expect .semicolon) fun _ _ => Reads.closes ?_
  rw [Node.shapes_append, Node.shapes_append, hnodes, htypes, hvalues]
  rfl

theorem Constant.reads (c : Constant) (hlength : c.kinds.length ≤ bound + 1) :
    Reads nested depth (c.kinds ++ rest) (constant m nodes)
      (fun node => node.shape = c.shape modifiers) rest := by
  rw [kinds, List.length_cons, List.length_append, List.length_cons, List.length_append] at hlength
  rw [kinds, List.cons_append, List.append_assoc, List.cons_append, List.append_assoc]
  refine Reads.bind (Reads.advance rfl) fun _ _ => ?_
  have hscope : (Kind.symbol .assign :: (c.value.kinds ++ .symbol .semicolon :: rest)).headD .eof
      ≠ .symbol .doubleColon := ne_of_beq_false rfl
  refine Reads.bind (c.name.reads_scopedName? h.onlyTakes hscope .constantName) ?_
  rintro _ rfl
  have hvalue : Reads nested depth
      (.symbol .assign :: (c.value.kinds ++ .symbol .semicolon :: rest)) constantValue
      (fun node => node.shape = c.value.shape) (.symbol .semicolon :: rest) := by
    refine Reads.bind (Reads.expect .assign) ?_
    rintro _ rfl
    exact h.terms c.value (by omega) _ rfl
  refine Reads.bind hvalue fun value hvalue => ?_
  refine Reads.bind (Reads.expect .semicolon) fun _ _ => Reads.closes ?_
  rw [Node.shapes_append, hnodes, Node.shapes, Node.shapes, hvalue]
  rfl

end Reading

section Routine

variable (h : Parts nested depth bound)
include h

theorem Term.reads_arguments (values : List Term)
    (hlength : (Token.commas (values.map kinds)).length ≤ bound) :
    Reads nested depth
      (.symbol .lParen :: (Token.commas (values.map kinds) ++ .symbol .rParen :: rest)) arguments
      (fun node => node.shape = ⟨.argList, .none, values.map shape⟩) rest := by
  have hitems : ∀ t ∈ values, ReadsUpTo nested depth t.kinds
      (fun kind => kind.endsExpression = true) Grammar.expression
      fun node => node.shape = t.shape := by
    intro t ht
    exact h.terms t ((Token.length_le_commas (List.mem_map_of_mem ht)).trans hlength)
  refine Reads.arguments h.onlyTakes hitems (fun t _ behind => ?_) rfl rfl
  have hbegins := t.beginsExpression_head behind
  exact ⟨Token.ne_of_holds hbegins rfl, Token.ne_of_holds hbegins rfl⟩

theorem BaseCall.reads (call : BaseCall) (hlength : call.kinds.length ≤ bound) :
    Reads nested depth (call.kinds ++ rest) baseCall (fun node => node.shape = call.shape)
      rest := by
  rw [kinds, List.length_append, List.length_cons, List.length_append] at hlength
  rw [kinds, List.append_assoc, List.cons_append, List.append_assoc]
  have hscope : (Kind.symbol .lParen :: (Token.commas (call.arguments.map Term.kinds) ++
      ([.symbol .rParen] ++ rest))).headD .eof ≠ .symbol .doubleColon := ne_of_beq_false rfl
  refine Reads.bind Reads.mark fun m _ => ?_
  refine Reads.bind (call.name.reads_scopedName? h.onlyTakes hscope .baseClassName) ?_
  rintro _ rfl
  refine Reads.bind (Term.reads_arguments h call.arguments (by omega)) fun node hnode =>
    Reads.closes ?_
  rw [Node.shapes, Node.shapes, hnode]
  rfl

theorem BaseCall.reads_baseCalls (calls : List BaseCall)
    (hlength : (listKinds calls).length ≤ bound + 1)
    (hbody : (rest.headD .eof).beginsBody = true) :
    Reads nested depth (listKinds calls ++ rest) baseCalls
      (fun nodes => Node.shapes nodes = calls.map shape) rest := by
  cases calls with
  | nil => exact Reads.optionally_eat_miss (Token.ne_of_holds hbody rfl)
  | cons first others =>
      have hitems : ∀ call ∈ first :: others, ReadsUpTo nested depth call.kinds (fun _ => True)
          baseCall fun node => node.shape = call.shape := by
        intro call hcall rest _
        have hle : call.kinds.length ≤ (Token.commas ((first :: others).map kinds)).length :=
          Token.length_le_commas (List.mem_map_of_mem hcall)
        rw [listKinds, List.length_cons] at hlength
        · exact call.reads h (by omega)
        · exact List.cons_ne_nil _ _
      exact Reads.optionally_eat (Reads.commaList h.onlyTakes hitems (List.cons_ne_nil first others)
        trivial trivial (Token.ne_of_holds hbody rfl))

variable (hs : Statement.ReadsWithin nested depth bound)
include hs

namespace Routine

/-- The code of a routine, or the semicolon that stands for none. -/
theorem reads_body {code : Option (List Statement)}
    (hfits : Statement.fitsAll (code.getD []) = true)
    (hlength : (codeKinds code).length ≤ bound + 2) :
    Reads nested depth (codeKinds code ++ rest) body
      (fun nodes => Node.shapes nodes = codeShapes code) rest := by
  refine Reads.look fun o ho => ?_
  cases code with
  | none =>
      have hat : o.isAt .lBrace = false := ho.isAt_eq _
      rw [hat, if_neg Bool.false_ne_true]
      refine Reads.bind (Reads.eat .semicolon) ?_
      rintro _ rfl
      exact Reads.done rfl
  | some items =>
      have hat : o.isAt .lBrace = true := ho.isAt_eq _
      rw [hat, if_pos rfl]
      exact Reads.single (Statement.reads_block h hs hfits hlength)

end Routine

end Routine

namespace Routine

/-- Before the code of a routine neither a result nor the calls of base constructors go on. -/
theorem beginsBody_code (code : Option (List Statement)) (rest : List Kind) :
    ((codeKinds code ++ rest).headD .eof).beginsBody = true := by
  cases code <;> rfl

/-- Before the token the result of a routine ends. -/
def endsResult (kind : Kind) : Bool :=
  kind == .symbol .colon || kind.beginsBody

theorem endsType_of_endsResult {kind : Kind} (h : endsResult kind = true) :
    TypeName.endsType kind = true := by
  cases kind with
  | symbol mark =>
      revert h
      cases mark <;> decide
  | _ => rfl

theorem endsResult_bases (bases : List BaseCall) (code : Option (List Statement))
    (rest : List Kind) :
    endsResult ((BaseCall.listKinds bases ++ (codeKinds code ++ rest)).headD .eof) = true := by
  cases bases with
  | nil => exact Bool.or_eq_true_iff.mpr (Or.inr (beginsBody_code code rest))
  | cons first others => rfl

/-- A function has a type unless it begins with the word for one. -/
theorem isAtKeyword_sub_eq {o : State} {T : Option TypeName}
    (ho : o.Clear (TypeName.optionalKinds T ++ .keyword .sub :: rest) depth) :
    o.isAtKeyword .sub = !T.isSome := by
  rw [ho.isAtKeyword_eq]
  cases T with
  | none => rfl
  | some T => exact beq_eq_false_iff_ne.mpr (Token.ne_of_holds (T.beginsType_head _) (by exact rfl))

/-- A method has a type unless its parameters follow its first token. -/
theorem kindAt_one_eq {o : State} {T : Option TypeName} {x : Identifier} {ps : List Parameter}
    (ho : o.Clear (TypeName.optionalKinds T ++ x.kind :: (Parameter.listKinds ps ++ rest)) depth) :
    (o.kindAt 1 != .symbol .lParen) = T.isSome := by
  cases T with
  | none =>
      rw [ho.kindAt_eq]
      rfl
  | some T => exact bne_iff_ne.mpr (ho.kindAt_one_ne T)

section Reading

variable (h : Parts nested depth bound) (hs : Statement.ReadsWithin nested depth bound) {m : Mark}
  {modifiers : List Modifier} {nodes : List Node}
  (hnodes : Node.shapes nodes = Modifier.shapes modifiers)
include h hs hnodes

theorem reads_function (r : Routine) (hfits : r.fits = true)
    (hlength : r.functionKinds.length ≤ bound + 1) :
    Reads nested depth (r.functionKinds ++ rest) (function m nodes)
      (fun node => node.shape = r.shape .function modifiers []) rest := by
  simp only [functionKinds, nameKinds, List.length_append, List.length_cons] at hlength
  simp only [functionKinds, nameKinds, List.append_assoc, List.cons_append]
  have hresult := endsResult_bases [] r.code rest
  refine Reads.look fun o ho => ?_
  rw [isAtKeyword_sub_eq ho, Bool.not_not]
  refine Reads.bind (TypeName.reads_optional h r.type (by omega) rfl) fun types htypes => ?_
  refine Reads.bind (Reads.expectKeyword .sub) fun _ _ => ?_
  refine Reads.bind (r.name.reads_identifier? .functionName) ?_
  rintro _ rfl
  refine Reads.bind (Parameter.reads_parameters h r.parameters (by omega)) fun params hparams => ?_
  refine Reads.bind (Parameter.reads_resultType h r.result (by omega)
    (Token.ne_of_holds hresult rfl) (endsType_of_endsResult hresult)) fun result hresult => ?_
  refine Reads.bind (reads_body h hs hfits (by omega)) fun code hcode => Reads.closes ?_
  simp only [Node.shapes_append, Node.shapes, hnodes, htypes, hparams, hresult, hcode, shape,
    List.map_nil, List.append_nil]
  rfl

theorem reads_method (r : Routine) (bases : List BaseCall) (hfits : r.fits = true)
    (hlength : (r.methodKinds bases).length ≤ bound + 1) :
    Reads nested depth (r.methodKinds bases ++ rest) (method m nodes)
      (fun node => node.shape = r.shape .method modifiers bases) rest := by
  simp only [methodKinds, nameKinds, List.length_append, List.length_cons] at hlength
  simp only [methodKinds, nameKinds, List.append_assoc, List.cons_append]
  have hresult := endsResult_bases bases r.code rest
  have hbody := beginsBody_code r.code rest
  refine Reads.look fun o ho => ?_
  rw [kindAt_one_eq ho]
  refine Reads.bind (TypeName.reads_optional h r.type (by omega) rfl) fun types htypes => ?_
  refine Reads.bind (r.name.reads_identifier? .methodName) ?_
  rintro _ rfl
  refine Reads.bind (Parameter.reads_parameters h r.parameters (by omega)) fun params hparams => ?_
  refine Reads.bind (Parameter.reads_resultType h r.result (by omega)
    (Token.ne_of_holds hresult rfl) (endsType_of_endsResult hresult)) fun result hresult => ?_
  refine Reads.bind (BaseCall.reads_baseCalls h bases (by omega) hbody) fun calls hcalls => ?_
  refine Reads.bind (reads_body h hs hfits (by omega)) fun code hcode => Reads.closes ?_
  simp only [Node.shapes_append, Node.shapes, hnodes, htypes, hparams, hresult, hcalls, hcode,
    shape]
  rfl

end Reading

end Routine

end QoreSyntax

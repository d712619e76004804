import QoreSyntax.Proofs.TypeName.Parameter

namespace QoreSyntax

open Token (Kind Portable)

/-- A variable, declared or only named, and perhaps a value that is given to it. -/
structure Variable where
  isNew : Bool
  name : Identifier
  value : Option Term

namespace Variable

def kinds (v : Variable) : List Kind :=
  (if v.isNew then [.keyword .my] else []) ++ v.name.kind :: Term.valueKinds v.value

/-- A variable that is not declared, as an expression. -/
def term (v : Variable) : Term :=
  match v.value with
  | none => .ofName v.name
  | some value => .assign v.name value

def declaration (v : Variable) : Node.Shape :=
  ⟨.varDecl, .name v.name.text, ⟨.modifier, .name "my", []⟩ :: Term.valueShapes v.value⟩

def shape (v : Variable) : Node.Shape :=
  if v.isNew then v.declaration else v.term.shape

/-- The tree of the variable where it is a statement of its own. -/
def statementShape (v : Variable) : Node.Shape :=
  if v.isNew then v.declaration else ⟨.exprStatement, .none, [v.term.shape]⟩

theorem portable (v : Variable) : Portable v.kinds := by
  have hname := v.name.portable_cons (Term.portable_valueKinds v.value)
  rw [kinds]
  split_ifs
  · exact hname.keyword .my
  · exact hname

end Variable

/-- What happens when a block is left. -/
inductive Event where
  | exit | success | error
  deriving DecidableEq

namespace Event

def word : Event → Keyword
  | exit => .onExit
  | success => .onSuccess
  | error => .onError

def nodeKind : Event → Node.Kind
  | exit => .onExit
  | success => .onSuccess
  | error => .onError

end Event

/-- The statements that may take values with them. -/
inductive Jump where
  | throw | return | rethrow
  deriving DecidableEq

namespace Jump

def word : Jump → Keyword
  | .throw => .throw
  | .return => .return
  | .rethrow => .rethrow

def nodeKind : Jump → Node.Kind
  | .throw => .throw
  | .return => .return
  | .rethrow => .rethrow

/-- The statement takes at least one value. -/
def isRequired : Jump → Bool
  | .throw => true
  | .return | .rethrow => false

end Jump

/-- The statements of one word. -/
inductive Leave where
  | break | continue | threadExit
  deriving DecidableEq

namespace Leave

def word : Leave → Keyword
  | .break => .break
  | .continue => .continue
  | .threadExit => .threadExit

def nodeKind : Leave → Node.Kind
  | .break => .break
  | .continue => .continue
  | .threadExit => .threadExit

end Leave

/-- What stands before the statement that it governs. -/
inductive Head where
  | if (test : Term)
  | while (test : Term)
  | for (start : Option Variable) (test step : Option Term)
  | foreach (item : Variable) (items : Term)
  | guard (event : Event)

namespace Head

def isIf : Head → Bool
  | .if _ => true
  | _ => false

def conditionKinds (test : Term) : List Kind :=
  .symbol .lParen :: (test.kinds ++ [.symbol .rParen])

/-- The tokens of a clause that may be left out, and the mark that closes it. -/
def clauseKinds (clause : Option (List Kind)) (closing : Symbol) : List Kind :=
  clause.getD [] ++ [.symbol closing]

/-- A clause that is left out has an empty place in the tree. -/
def clauseShape (clause : Option Node.Shape) : Node.Shape :=
  clause.getD ⟨.empty, .none, []⟩

def kinds : Head → List Kind
  | .if test => .keyword .if :: conditionKinds test
  | .while test => .keyword .while :: conditionKinds test
  | .for start test step =>
      .keyword .for :: .symbol .lParen :: (clauseKinds (start.map Variable.kinds) .semicolon ++
        (clauseKinds (test.map Term.kinds) .semicolon ++ clauseKinds (step.map Term.kinds) .rParen))
  | .foreach item items =>
      .keyword .foreach :: (item.kinds ++ .keyword .in :: conditionKinds items)
  | .guard event => [.keyword event.word]

def nodeKind : Head → Node.Kind
  | .if _ => .if
  | .while _ => .while
  | .for _ _ _ => .for
  | .foreach _ _ => .foreach
  | .guard event => event.nodeKind

def shapes : Head → List Node.Shape
  | .if test | .while test => [test.shape]
  | .for start test step =>
      [clauseShape (start.map Variable.shape), clauseShape (test.map Term.shape),
        clauseShape (step.map Term.shape)]
  | .foreach item items => [item.shape, items.shape]
  | .guard _ => []

theorem portable_condition (test : Term) : Portable (conditionKinds test) :=
  (test.portable.append (Portable.nil.symbol .rParen rfl)).symbol .lParen rfl

theorem portable_clause {α : Type} {kinds : α → List Kind} (h : ∀ x, Portable (kinds x))
    (clause : Option α) (closing : Symbol)
    (hclosing : (Kind.symbol closing).beginsWithSlash = false) :
    Portable (clauseKinds (clause.map kinds) closing) := by
  have hend : Portable [.symbol closing] := Portable.nil.symbol closing hclosing
  cases clause with
  | none => exact hend
  | some x => exact (h x).append hend

theorem portable (head : Head) : Portable head.kinds := by
  cases head with
  | «if» test => exact (portable_condition test).keyword .if
  | «while» test => exact (portable_condition test).keyword .while
  | «for» start test step =>
      have hstart := portable_clause Variable.portable start .semicolon rfl
      have htest := portable_clause Term.portable test .semicolon rfl
      have hstep := portable_clause Term.portable step .rParen rfl
      exact ((hstart.append (htest.append hstep)).symbol .lParen rfl).keyword .for
  | foreach item items =>
      have hitems := (portable_condition items).keyword .in
      exact (item.portable.append hitems).keyword .foreach
  | guard event => exact Portable.nil.keyword event.word

theorem length_pos (head : Head) : 0 < head.kinds.length := by
  cases head <;> exact Nat.succ_pos _

end Head

/-- An operator that may stand before the value of a case. -/
def CaseOperator : Type :=
  { mark : Symbol // Grammar.isCaseOperator mark = true }

mutual

inductive Statement where
  | empty
  | variable (v : Variable)
  | block (items : List Statement)
  | headed (head : Head) (body : Statement)
  /-- A branch with an alternative. -/
  | choose (test : Term) (yes no : Statement)
  | doWhile (body : Statement) (test : Term)
  | switch (value : Term) (arms : List Arm)
  | try (body : List Statement) (caught : Option Parameter) (handler : List Statement)
  | jump (way : Jump) (values : List Term)
  | leave (way : Leave)

inductive Arm where
  | case (operator : Option CaseOperator) (value : Term) (code : List Statement)
  | default (code : List Statement)

end

namespace Statement

/-- An alternative behind the statement would belong to a branch in it. -/
def isOpen : Statement → Bool
  | headed head body => head.isIf || body.isOpen
  | choose _ _ no => no.isOpen
  | _ => false

mutual

/-- No branch with an alternative is open, and values are not missing where they are required. -/
def fits : Statement → Bool
  | empty | .variable _ | leave _ => true
  | block items => fitsAll items
  | headed _ body => body.fits
  | choose _ yes no => yes.fits && !yes.isOpen && no.fits
  | doWhile body _ => body.fits
  | switch _ arms => armsFit arms
  | .try body _ handler => fitsAll body && fitsAll handler
  | jump way values => !way.isRequired || !values.isEmpty

def fitsAll : List Statement → Bool
  | [] => true
  | s :: rest => s.fits && fitsAll rest

def armFits : Arm → Bool
  | .case _ _ code | .default code => fitsAll code

def armsFit : List Arm → Bool
  | [] => true
  | arm :: rest => armFits arm && armsFit rest

end

def bracedKinds (items : List (List Kind)) : List Kind :=
  .symbol .lBrace :: (items.flatten ++ [.symbol .rBrace])

def operatorKinds : Option CaseOperator → List Kind
  | none => []
  | some operator => [.symbol operator.val]

def caughtKinds (caught : Option Parameter) : List Kind :=
  .keyword .catch :: .symbol .lParen :: ((caught.map Parameter.kinds).getD [] ++ [.symbol .rParen])

mutual

def kinds : Statement → List Kind
  | empty => [.symbol .semicolon]
  | .variable v => v.kinds ++ [.symbol .semicolon]
  | block items => bracedKinds (kindsEach items)
  | headed head body => head.kinds ++ body.kinds
  | choose test yes no => (Head.if test).kinds ++ (yes.kinds ++ .keyword .else :: no.kinds)
  | doWhile body test =>
      .keyword .do :: (body.kinds ++
        .keyword .while :: (Head.conditionKinds test ++ [.symbol .semicolon]))
  | switch value arms =>
      .keyword .switch :: (Head.conditionKinds value ++ bracedKinds (armKindsEach arms))
  | .try body caught handler =>
      .keyword .try :: (bracedKinds (kindsEach body) ++
        (caughtKinds caught ++ bracedKinds (kindsEach handler)))
  | jump way values =>
      .keyword way.word :: (Token.commas (values.map Term.kinds) ++ [.symbol .semicolon])
  | leave way => [.keyword way.word, .symbol .semicolon]

def kindsEach : List Statement → List (List Kind)
  | [] => []
  | s :: rest => s.kinds :: kindsEach rest

def armKinds : Arm → List Kind
  | .case operator value code =>
      .keyword .case :: (operatorKinds operator ++
        (value.kinds ++ .symbol .colon :: (kindsEach code).flatten))
  | .default code => .keyword .default :: .symbol .colon :: (kindsEach code).flatten

def armKindsEach : List Arm → List (List Kind)
  | [] => []
  | arm :: rest => armKinds arm :: armKindsEach rest

end

def operatorPayload : Option CaseOperator → Payload
  | none => .none
  | some operator => .operator operator.val.spelling

def blockShape (items : List Node.Shape) : Node.Shape :=
  ⟨.block, .none, items⟩

mutual

/-- The tree that the statement is to be read as. -/
def shape : Statement → Node.Shape
  | empty => ⟨.empty, .none, []⟩
  | .variable v => v.statementShape
  | block items => blockShape (shapeEach items)
  | headed head body => ⟨head.nodeKind, .none, head.shapes ++ [body.shape]⟩
  | choose test yes no => ⟨.if, .none, [test.shape, yes.shape, no.shape]⟩
  | doWhile body test => ⟨.doWhile, .none, [body.shape, test.shape]⟩
  | switch value arms => ⟨.switch, .none, value.shape :: armShapeEach arms⟩
  | .try body caught handler =>
      ⟨.try, .none, [blockShape (shapeEach body),
        ⟨.catch, .none, (caught.map Parameter.shape).toList ++ [blockShape (shapeEach handler)]⟩]⟩
  | jump way values => ⟨way.nodeKind, .none, Term.operandShapes values⟩
  | leave way => ⟨way.nodeKind, .none, []⟩

def shapeEach : List Statement → List Node.Shape
  | [] => []
  | s :: rest => s.shape :: shapeEach rest

def armShape : Arm → Node.Shape
  | .case operator value code => ⟨.case, operatorPayload operator, value.shape :: shapeEach code⟩
  | .default code => ⟨.default, .none, shapeEach code⟩

def armShapeEach : List Arm → List Node.Shape
  | [] => []
  | arm :: rest => armShape arm :: armShapeEach rest

end

theorem kindsEach_eq_map (items : List Statement) : kindsEach items = items.map kinds := by
  induction items with
  | nil => rfl
  | cons s items ih => rw [kindsEach, ih, List.map_cons]

theorem shapeEach_eq_map (items : List Statement) : shapeEach items = items.map shape := by
  induction items with
  | nil => rfl
  | cons s items ih => rw [shapeEach, ih, List.map_cons]

theorem armKindsEach_eq_map (arms : List Arm) : armKindsEach arms = arms.map armKinds := by
  induction arms with
  | nil => rfl
  | cons arm arms ih => rw [armKindsEach, ih, List.map_cons]

theorem armShapeEach_eq_map (arms : List Arm) : armShapeEach arms = arms.map armShape := by
  induction arms with
  | nil => rfl
  | cons arm arms ih => rw [armShapeEach, ih, List.map_cons]

theorem fits_of_mem {items : List Statement} (h : fitsAll items = true) {s : Statement}
    (hmem : s ∈ items) : s.fits = true := by
  induction items with
  | nil => cases hmem
  | cons first items ih =>
      rw [fitsAll, Bool.and_eq_true] at h
      rcases List.mem_cons.mp hmem with rfl | hmem
      · exact h.1
      · exact ih h.2 hmem

theorem armFits_of_mem {arms : List Arm} (h : armsFit arms = true) {arm : Arm}
    (hmem : arm ∈ arms) : armFits arm = true := by
  induction arms with
  | nil => cases hmem
  | cons first arms ih =>
      rw [armsFit, Bool.and_eq_true] at h
      rcases List.mem_cons.mp hmem with rfl | hmem
      · exact h.1
      · exact ih h.2 hmem

theorem portable_braced {items : List (List Kind)} (h : ∀ item ∈ items, Portable item) :
    Portable (bracedKinds items) :=
  ((Portable.flatten h).append (Portable.nil.symbol .rBrace rfl)).symbol .lBrace rfl

theorem portable_operator (operator : Option CaseOperator) : Portable (operatorKinds operator) := by
  cases operator with
  | none => exact Portable.nil
  | some operator =>
      obtain ⟨mark, hmark⟩ := operator
      refine Portable.nil.symbol mark ?_
      revert hmark
      cases mark <;> decide

theorem portable_caught (caught : Option Parameter) : Portable (caughtKinds caught) := by
  have hclose : Portable [.symbol .rParen] := Portable.nil.symbol .rParen rfl
  cases caught with
  | none => exact (hclose.symbol .lParen rfl).keyword .catch
  | some p => exact ((p.portable.append hclose).symbol .lParen rfl).keyword .catch

mutual

theorem portable : ∀ s : Statement, Portable s.kinds
  | empty => Portable.nil.symbol .semicolon rfl
  | .variable v => v.portable.append (Portable.nil.symbol .semicolon rfl)
  | block items => portable_braced (portable_each items)
  | headed head body => head.portable.append (portable body)
  | choose test yes no =>
      (Head.if test).portable.append ((portable yes).append ((portable no).keyword .else))
  | doWhile body test => by
      have hend := (Head.portable_condition test).append (Portable.nil.symbol .semicolon rfl)
      exact ((portable body).append (hend.keyword .while)).keyword .do
  | switch value arms =>
      ((Head.portable_condition value).append (portable_braced (portable_armEach arms))).keyword
        .switch
  | .try body caught handler => by
      have hhandler := (portable_caught caught).append (portable_braced (portable_each handler))
      exact ((portable_braced (portable_each body)).append hhandler).keyword .try
  | jump way values =>
      ((Term.portable_commas values).append (Portable.nil.symbol .semicolon rfl)).keyword way.word
  | leave way => (Portable.nil.symbol .semicolon rfl).keyword way.word

theorem portable_each : ∀ items : List Statement, ∀ item ∈ kindsEach items, Portable item
  | [], _, hitem => nomatch hitem
  | s :: rest, item, hitem => by
      rw [kindsEach] at hitem
      rcases List.mem_cons.mp hitem with rfl | hmem
      · exact portable s
      · exact portable_each rest item hmem

theorem portable_arm : ∀ arm : Arm, Portable (armKinds arm)
  | .case operator value code => by
      have hcode := (Portable.flatten (portable_each code)).symbol .colon rfl
      exact ((portable_operator operator).append (value.portable.append hcode)).keyword .case
  | .default code =>
      ((Portable.flatten (portable_each code)).symbol .colon rfl).keyword .default

theorem portable_armEach : ∀ arms : List Arm, ∀ item ∈ armKindsEach arms, Portable item
  | [], _, hitem => nomatch hitem
  | arm :: rest, item, hitem => by
      rw [armKindsEach] at hitem
      rcases List.mem_cons.mp hitem with rfl | hmem
      · exact portable_arm arm
      · exact portable_armEach rest item hmem

end

/-- A statement begins with a token that ends no sequence. -/
theorem beginsItem_head (s : Statement) (behind : List Kind) :
    ((s.kinds ++ behind).headD .eof).beginsItem = true := by
  cases s with
  | empty | block | choose | doWhile | switch | «try» => rfl
  | «variable» v =>
      obtain ⟨isNew, name, value⟩ := v
      cases isNew <;> rfl
  | headed head body =>
      cases head with
      | guard event => cases event <;> rfl
      | _ => rfl
  | jump way values => cases way <;> rfl
  | leave way => cases way <;> rfl

theorem length_pos (s : Statement) : 0 < s.kinds.length := by
  rw [List.length_pos_iff]
  intro hnil
  have hbegins := s.beginsItem_head []
  rw [hnil] at hbegins
  cases hbegins

end Statement

end QoreSyntax

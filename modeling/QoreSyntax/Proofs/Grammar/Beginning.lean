import QoreSyntax.Proofs.Grammar.Closing
import QoreSyntax.Proofs.Grammar.Extent

namespace QoreSyntax.Grammar

/-- A node that takes in a token does not begin behind its mark. -/
theorem State.close_start_le {s : State} {m : Mark} (h : m.consumed < s.consumed)
    (kind : Node.Kind) (payload : Payload) (children : List Node) :
    (s.close m kind payload children).range.start ≤ m.start := by
  have hown : (s.own m).start = m.start := by
    rw [own, if_pos h]
  rcases children with - | ⟨first, rest⟩
  · rw [close_childless, hown]
  · have hlast : (first :: rest).getLast? = some ((first :: rest).getLast (List.cons_ne_nil _ _)) :=
      List.getLast?_eq_some_getLast _
    rw [close_range rfl hlast, ← hown]
    exact (Position.earlier_le_left _ _).trans (Position.earlier_le_left _ _)

namespace Parser

variable {α : Type} (nested : Goal → State → Node × State)

/-- The node does not begin behind the mark, if a token has been taken since. -/
def Finishes (m : Mark) (parser : Parser Node) : Prop :=
  ∀ s, m.consumed < (parser.run nested s).2.consumed →
    (parser.run nested s).1.range.start ≤ m.start

/-- The node does not begin behind the next token, if one is taken. -/
def Begins (parser : Parser Node) : Prop :=
  ∀ s : State, s.consumed < (parser.run nested s).2.consumed →
    (parser.run nested s).1.range.start ≤ s.current.range.start

variable {nested} {m : Mark} {parser : Parser α} {one other : Parser Node}

theorem Finishes.after {next : α → Parser Node} (h : ∀ value, Finishes nested m (next value)) :
    Finishes nested m (parser >>= next) := by
  intro s
  rw [run_bind]
  exact h _ _

theorem Finishes.ite {condition : Prop} [Decidable condition] (hone : Finishes nested m one)
    (hother : Finishes nested m other) :
    Finishes nested m (if condition then one else other) := by
  split_ifs
  · exact hone
  · exact hother

theorem finishes_close (m : Mark) (kind : Node.Kind) (payload : Payload) (children : List Node) :
    Finishes nested m (Grammar.close m kind payload children) :=
  fun _ h => State.close_start_le h kind payload children

theorem begins_mark {next : Mark → Parser Node} (h : ∀ m, Finishes nested m (next m)) :
    Begins nested (Grammar.mark >>= next) :=
  fun s => h s.mark s

theorem begins_look {next : State → Parser Node} (h : ∀ s, Begins nested (next s)) :
    Begins nested (Grammar.state >>= next) :=
  fun s => h s s

theorem begins_ite {condition : Prop} [Decidable condition] (hone : Begins nested one)
    (hother : Begins nested other) : Begins nested (if condition then one else other) := by
  split_ifs
  · exact hone
  · exact hother

theorem finishes_namespaceDeclaration (m : Mark) (modifiers : List Node) :
    Finishes nested m (namespaceDeclaration m modifiers) :=
  .after fun _ => .after fun _ => .after fun _ => finishes_close m _ _ _

theorem finishes_classDeclaration (m : Mark) (modifiers : List Node) :
    Finishes nested m (classDeclaration m modifiers) :=
  .after fun _ => .after fun _ => .after fun _ => .after fun _ => finishes_close m _ _ _

theorem finishes_hashDeclaration (m : Mark) (modifiers : List Node) :
    Finishes nested m (hashDeclaration m modifiers) :=
  .after fun _ => .after fun _ => .after fun _ => .after fun _ => finishes_close m _ _ _

theorem finishes_constant (m : Mark) (modifiers : List Node) :
    Finishes nested m (constant m modifiers) :=
  .after fun _ => .after fun _ => .after fun _ => .after fun _ => finishes_close m _ _ _

theorem finishes_function (m : Mark) (modifiers : List Node) :
    Finishes nested m (function m modifiers) :=
  .after fun _ => .after fun _ => .after fun _ => .after fun _ => .after fun _ => .after fun _ =>
    .after fun _ => finishes_close m _ _ _

theorem finishes_declarationAfter (m : Mark) (modifiers : List Node) :
    Finishes nested m (declarationAfter m modifiers) := by
  refine .after fun s => ?_
  split
  · exact finishes_namespaceDeclaration m modifiers
  · exact finishes_classDeclaration m modifiers
  · exact finishes_hashDeclaration m modifiers
  · exact finishes_constant m modifiers
  · exact finishes_function m modifiers
  · exact .ite (finishes_function m modifiers) (.after fun _ => finishes_close m _ _ _)

theorem begins_declaration : Begins nested declaration :=
  begins_mark fun m => Finishes.after fun nodes => finishes_declarationAfter m nodes

theorem begins_variableDeclaration (isStatement : Bool) :
    Begins nested (variableDeclaration isStatement) :=
  begins_mark fun m => .after fun _ => .after fun _ => .after fun _ => .after fun _ =>
    finishes_close m _ _ _

/-- What begins with a mark and a token, and is closed with the mark. -/
theorem begins_mark_take {next : Mark → Token → Parser Node}
    (h : ∀ m token, Finishes nested m (next m token)) :
    Begins nested (Grammar.mark >>= fun m => Grammar.advance >>= next m) :=
  begins_mark fun m => .after (h m)

theorem begins_ifStatement : Begins nested ifStatement :=
  begins_mark_take fun m _ => .after fun _ => .after fun _ => .after fun _ => .after fun _ =>
    finishes_close m _ _ _

theorem begins_whileStatement : Begins nested whileStatement :=
  begins_mark_take fun m _ => .after fun _ => .after fun _ => finishes_close m _ _ _

theorem begins_doStatement : Begins nested doStatement :=
  begins_mark_take fun m _ => .after fun _ => .after fun _ => .after fun _ => .after fun _ =>
    finishes_close m _ _ _

theorem begins_forStatement : Begins nested forStatement :=
  begins_mark_take fun m _ => .after fun _ => .after fun _ => .after fun _ => .after fun _ =>
    .after fun _ => finishes_close m _ _ _

theorem begins_foreachStatement : Begins nested foreachStatement :=
  begins_mark_take fun m _ => .after fun _ => .after fun _ => .after fun _ => .after fun _ =>
    finishes_close m _ _ _

theorem begins_switchStatement : Begins nested switchStatement :=
  begins_mark_take fun m _ => .after fun _ => .after fun _ => finishes_close m _ _ _

theorem begins_tryStatement : Begins nested tryStatement :=
  begins_mark_take fun m _ => .after fun _ => .after fun _ => finishes_close m _ _ _

theorem begins_jumpStatement (kind : Node.Kind) (isRequired : Bool) :
    Begins nested (jumpStatement kind isRequired) :=
  begins_mark_take fun m _ => .after fun _ => .after fun _ => .after fun _ =>
    finishes_close m _ _ _

theorem begins_bareStatement (kind : Node.Kind) : Begins nested (bareStatement kind) :=
  begins_mark_take fun m _ => .after fun _ => finishes_close m _ _ _

theorem begins_guardStatement (kind : Node.Kind) : Begins nested (guardStatement kind) :=
  begins_mark_take fun m _ => .after fun _ => finishes_close m _ _ _

theorem begins_emptyStatement : Begins nested emptyStatement :=
  begins_mark_take fun m _ => finishes_close m _ _ _

theorem begins_directiveLine (name argument : String) :
    Begins nested (directiveLine name argument) :=
  begins_mark_take fun m _ => finishes_close m _ _ _

theorem begins_expressionStatement : Begins nested expressionStatement :=
  begins_mark fun m => .after fun _ => .after fun _ => finishes_close m _ _ _

theorem begins_openStatement : Begins nested openStatement :=
  begins_look fun _ => begins_ite begins_declaration
    (begins_ite (begins_variableDeclaration true) begins_expressionStatement)

/-- Without its opening brace a block takes no token. -/
theorem begins_block : Begins nested block := by
  refine fun s hlt => ?_
  have hrun : block.run nested s =
      (if ((expect .lBrace).run nested s).1 then
          braced statement >>= fun items => Grammar.close s.mark .block .none items
        else missing).run nested ((expect .lBrace).run nested s).2 :=
    Parser.run_bind nested (expect .lBrace) _ s
  rw [hrun, run_expect] at hlt ⊢
  cases hat : s.isAt .lBrace with
  | true =>
      rw [hat, if_pos rfl] at hlt
      rw [if_pos rfl]
      exact Finishes.after (fun _ => finishes_close s.mark _ _ _) _ hlt
  | false =>
      rw [hat, if_neg Bool.false_ne_true] at hlt
      exact absurd hlt (Nat.lt_irrefl s.consumed)

theorem begins_wordStatement (word : Keyword) : Begins nested (wordStatement word) := by
  rw [wordStatement.eq_def]
  split
  · exact begins_ifStatement
  · exact begins_whileStatement
  · exact begins_doStatement
  · exact begins_forStatement
  · exact begins_foreachStatement
  · exact begins_switchStatement
  · exact begins_tryStatement
  · exact begins_jumpStatement .throw true
  · exact begins_jumpStatement .return false
  · exact begins_jumpStatement .rethrow false
  · exact begins_bareStatement .break
  · exact begins_bareStatement .continue
  · exact begins_bareStatement .threadExit
  · exact begins_guardStatement .onExit
  · exact begins_guardStatement .onSuccess
  · exact begins_guardStatement .onError
  · exact begins_variableDeclaration true
  · exact begins_variableDeclaration true
  · exact begins_openStatement

theorem begins_statementRule : Begins nested statementRule := by
  refine begins_look fun s => ?_
  split
  · exact begins_block
  · exact begins_emptyStatement
  · exact begins_directiveLine _ _
  · exact begins_wordStatement _
  · exact begins_openStatement

end Parser

/-- A statement does not begin behind the next token, if it takes any. -/
theorem statement_start_le (limit room : Nat) (s : State) :
    let read := parse limit room .statement s
    s.consumed < read.2.consumed → read.1.range.start ≤ s.current.range.start := by
  have hrefuse : s.consumed < (s.refuse limit).2.consumed →
      (s.refuse limit).1.range.start ≤ s.current.range.start :=
    fun h => State.close_start_le (m := s.mark) h _ _ _
  cases room with
  | zero => exact hrefuse
  | succ room =>
      rw [parse]
      split_ifs
      · exact hrefuse
      · exact Parser.begins_statementRule { s with depth := s.depth + 1 }

end QoreSyntax.Grammar

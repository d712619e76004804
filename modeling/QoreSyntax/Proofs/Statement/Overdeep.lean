import QoreSyntax.Proofs.Expression.Capped
import QoreSyntax.Proofs.Expression.Phrase
import QoreSyntax.Proofs.Grammar.Afresh
import QoreSyntax.Proofs.Token.Line
import QoreSyntax.Proofs.TypeName.Ahead

namespace QoreSyntax

open Grammar
open Token (Kind Legible)

namespace Phrase

variable (x : Identifier) (e : Phrase)

/-- The tokens of the assignment of the expression to a name. -/
def assignmentKinds : List Kind :=
  x.kind :: .symbol .assign :: e.kinds

/-- The assignment on a line of its own. -/
def assignmentLine : List Char :=
  Token.written (assignmentKinds x e) ++ [';']

theorem isChain_assignmentKinds : Expression.IsChain (assignmentKinds x e) :=
  Expression.IsChain.operand (Expression.IsOperand.name ⟨false, x, []⟩)
    (Expression.IsTail.operator rfl e.isChain)

theorem legible_assignmentKinds : Legible (assignmentKinds x e) := by
  have hvalue : Legible (.symbol .assign :: e.kinds) := e.legible.symbol .assign rfl
  exact hvalue.cons_of_isMatch_eq ⟨x.isName, x.isFree⟩ rfl

theorem kinds_assignmentLine (line : Nat) :
    (Token.Stream.ofText (assignmentLine x e) line).tokens.map Token.kind
      = assignmentKinds x e ++ [.symbol .semicolon] := by
  have hlegible := legible_assignmentKinds x e
  refine Token.Stream.kinds_ofText_line hlegible.plain hlegible.chain ?_ line
  obtain ⟨front, last, hlast, hends⟩ := e.exists_last
  have hsplit : assignmentKinds x e = (x.kind :: .symbol .assign :: front) ++ [last] := by
    rw [assignmentKinds, hlast]
    rfl
  intro kind hkind
  rw [hsplit, List.getLast?_concat] at hkind
  exact Option.some.inj hkind ▸ hends

theorem valid_assignmentLine (line : Nat) :
    ∀ t ∈ (Token.Stream.ofText (assignmentLine x e) line).tokens,
      LexicalError.ofToken? t = none := by
  intro t ht
  rw [LexicalError.ofToken?_eq_none_iff]
  have hkind : t.kind ∈ assignmentKinds x e ++ [.symbol .semicolon] :=
    kinds_assignmentLine x e line ▸ List.mem_map_of_mem ht
  rcases List.mem_append.mp hkind with hkind | hkind
  · exact ((legible_assignmentKinds x e).plain _ hkind).isValid_eq
  · rw [List.mem_singleton.mp hkind]
    rfl

/-- The tokens of the line and of the text behind it, where the first one stands on a new line. -/
theorem exists_start_assignmentLine (rest : List Char) (options : Options) :
    ∃ last tokens, last.isEof = true ∧
      List.Forall₂ Token.Alike (Token.Stream.ofText rest options.firstLine).tokens tokens ∧
      start (assignmentLine x e ++ '\n' :: rest) options
        = State.ofStream ⟨(Token.Stream.ofText (assignmentLine x e) options.firstLine).tokens
            ++ Token.onNewLine tokens, last⟩ options.firstLine := by
  let line := max options.firstLine 1
    + (lineEnds (assignmentLine x e) (assignmentLine x e).length).length
  let n := String.utf8Len (assignmentLine x e)
  have hreturn : (assignmentLine x e).getLast? ≠ some '\r' := by
    rw [assignmentLine, List.getLast?_concat]
    decide
  have hmatch : ∀ t ∈ (Token.Stream.ofText (assignmentLine x e) options.firstLine).tokens.getLast?,
      t.kind.isMatch = false := by
    intro t ht
    have hlast := congrArg List.getLast? (kinds_assignmentLine x e options.firstLine)
    rw [List.getLast?_map, ht, List.getLast?_concat] at hlast
    rw [Option.some.inj hlast]
    rfl
  have happend := Token.Stream.ofText_append hreturn (valid_assignmentLine x e _) hmatch rest
  obtain ⟨tokens, htokens, halike⟩ := Token.alike_tokens_behind rest line options.firstLine n
  refine ⟨((Token.Stream.ofText ('\n' :: rest) line).behind n).final, tokens,
    Token.Stream.isEof_ofText_final ('\n' :: rest) line, halike, ?_⟩
  rw [start, happend, htokens]

end Phrase

namespace Grammar

open Grammar.Parser (Moves)

variable {limit : Nat} {all : List Token} {more : List Kind}

/-- An assignment is a statement, whether its value is read or is passed over. -/
theorem moves_assignment {nested : Goal → State → Node × State}
    (h : Expression.Orderly nested limit all) (x : Identifier) (e : Phrase) {depth : Nat} :
    let kinds := Phrase.assignmentKinds x e ++ .symbol .semicolon :: more
    Moves nested (fun s => s.Clear kinds depth ∧ s.Quiet limit all kinds) statementRule
      (fun node => node.kind = .exprStatement) (State.Resumed limit all more) := by
  intro kinds
  refine Moves.look fun o ho => ?_
  have hkind : o.kind = x.kind := ho.1.kind_eq
  rw [hkind]
  refine Moves.look fun o ho => ?_
  have hbefore : ∀ follows : Kind → Bool, follows .eof = false →
      follows (.symbol .assign) = false → o.isTypeBefore follows = false := by
    intro follows heof hassign
    exact (ho.1.isTypeBefore_eq (.ofName x) rfl heof).trans hassign
  have hdeclaration : o.isDeclaration = false := by
    have hword : o.keyword? = none := by
      rw [State.keyword?, ho.1.kind_eq]
      rfl
    have hfunction : o.isTypedFunction = false := hbefore _ rfl rfl
    rw [State.isDeclaration, hword, hfunction]
  have htyped : o.isTypedVariable = false := hbefore _ rfl rfl
  rw [hdeclaration, if_neg Bool.false_ne_true, htyped, if_neg Bool.false_ne_true]
  refine Moves.mark.skip fun m => ?_
  have hends : BeginsNone (.symbol .semicolon :: more) := beginsNone_cons rfl more
  have hexpression := Expression.moves_expression h (Phrase.isChain_assignmentKinds x e) hends
  refine (hexpression.strengthen fun _ hs => hs.2).skip fun node => ?_
  refine (Moves.expect_resumed rfl).skip fun _ => ?_
  exact fun _ hs => ⟨rfl, hs⟩

section Statements

variable (x : Identifier) (e : Phrase)

theorem assignment_is_statement (hlimit : 0 < limit) {s : State} :
    let kinds := Phrase.assignmentKinds x e ++ .symbol .semicolon :: more
    s.Clear kinds 0 → s.Quiet limit all kinds →
      (statement.runWithin limit s).1.kind = .exprStatement ∧
        (statement.runWithin limit s).2.Resumed limit all more := by
  intro kinds hclear hquiet
  obtain ⟨room, rfl⟩ := Nat.exists_eq_succ_of_ne_zero (Nat.ne_of_gt hlimit)
  have hopen : ¬room + 1 ≤ s.depth := by
    rw [hclear.depth_eq]
    exact Nat.not_succ_le_zero room
  have hrule := moves_assignment (Expression.orderly_parse (room + 1) room all) x e
    { s with depth := s.depth + 1 } ⟨⟨hclear.kinds_eq, hclear.isEof_final, hclear.reported_eq,
      hclear.recovering_eq, rfl⟩, hquiet.nest (s.depth + 1)⟩
  change (parse (room + 1) (room + 1) .statement s).1.kind = .exprStatement ∧
    (parse (room + 1) (room + 1) .statement s).2.Resumed (room + 1) all more
  rw [parse, if_neg hopen]
  exact ⟨hrule.1, hrule.2.nest _⟩

/-- Behind the assignment all tokens are ahead that stand behind it. -/
theorem exists_behind_assignment (hlimit : 0 < limit) {front behind : List Token} {last : Token}
    (hfront : front.map Token.kind = Phrase.assignmentKinds x e ++ [.symbol .semicolon])
    (hvalid : ∀ t ∈ front ++ behind, LexicalError.ofToken? t = none) (hlast : last.isEof = true)
    (line : Nat) :
    ∃ (node : Node) (s : State), node.kind = .exprStatement ∧ s.pending = behind ∧
      s.Resumed limit (front ++ behind) (behind.map Token.kind) ∧ s.depth = 0 ∧
      (loop (sequenceStep .endOfInput statement) []).runWithin limit
          (State.ofStream ⟨front ++ behind, last⟩ line)
        = (loop (sequenceStep .endOfInput statement) [node]).runWithin limit s := by
  let o := State.ofStream ⟨front ++ behind, last⟩ line
  let read := statement.runWithin limit o
  have hnested := onlyTakes_parse limit limit
  have hkinds : o.pending.map Token.kind
      = Phrase.assignmentKinds x e ++ .symbol .semicolon :: behind.map Token.kind := by
    change (front ++ behind).map Token.kind = _
    rw [List.map_append, hfront, List.append_assoc]
    rfl
  have hquiet : o.Quiet limit (front ++ behind)
      (Phrase.assignmentKinds x e ++ .symbol .semicolon :: behind.map Token.kind) :=
    ⟨hkinds, List.suffix_rfl, hvalid, hlast, Or.inl ⟨rfl, rfl⟩⟩
  obtain ⟨hnode, hresumed⟩ := assignment_is_statement x e hlimit ⟨hkinds, hlast, rfl, rfl, rfl⟩
    hquiet
  have hpending : read.2.pending = behind := by
    have hlength : read.2.pending.length = behind.length := by
      simpa using congrArg List.length hresumed.kinds_eq
    exact (List.suffix_of_suffix_length_le hresumed.isSuffix (List.suffix_append front behind)
      hlength.le).eq_of_length hlength
  have hconsumed : o.consumed < read.2.consumed := by
    have hreaches : o.Reaches read.2 := State.isTrail_reaches.run hnested statement o
    refine Nat.lt_of_le_of_ne hreaches.consumed_le fun hsame => ?_
    have hnil : front = [] := by
      have hall := hpending.symm.trans (hreaches.pending_eq hsame.symm)
      exact List.append_left_eq_self.mp hall.symm
    rw [hnil] at hfront
    cases hfront
  refine ⟨read.1, read.2, hnode, hpending, hresumed, parse_depth limit limit .statement o, ?_⟩
  have hholds : Terminator.endOfInput.holds o = false := by
    rw [Terminator.holds, hquiet.isAtEnd_eq]
    rfl
  have hat : o.isAt .rBrace = false := hquiet.isAt_eq .rBrace
  have hstep := run_sequenceStep_of_settled hholds hat hresumed.recovering_eq hconsumed []
  rw [Parser.runWithin, (Parser.shrinks_sequenceStep hnested .endOfInput statement).run_loop hnested
    [] hlast, hstep]
  rfl

/-- The statements of a text behind the assignment are read as if they stood by themselves. -/
theorem statements_behind_assignment (hlimit : 0 < limit) {front tokens : List Token}
    {last : Token} {stream : Token.Stream}
    (hfront : front.map Token.kind = Phrase.assignmentKinds x e ++ [.symbol .semicolon])
    (hvalid : ∀ t ∈ front, LexicalError.ofToken? t = none) (hlast : last.isEof = true)
    (hstream : stream.final.isEof = true)
    (halike : List.Forall₂ Token.Alike stream.tokens tokens) (line : Nat) :
    let statements := (sequence .endOfInput statement).runWithin limit
    let alone := statements (State.ofStream stream line)
    let both := statements (State.ofStream ⟨front ++ Token.onNewLine tokens, last⟩ line)
    alone.2.diagnostics = [] →
      both.2.diagnostics.length ≤ 1 ∧
        (∀ d ∈ both.2.diagnostics, d.cause = .syntactic (.tooDeep limit)) ∧
        ∃ node others, both.1 = node :: others ∧ node.kind = .exprStatement ∧
          Node.shapes others = Node.shapes alone.1 := by
  intro statements alone both hclean
  have hbehind := Token.valid_onNewLine halike (tokens_of_statements hstream hclean).1
  obtain ⟨node, s, hnode, hpending, hresumed, hdepth, hitems⟩ := exists_behind_assignment x e
    hlimit hfront (List.forall_mem_append.mpr ⟨hvalid, hbehind⟩) hlast line
  obtain ⟨hreported, hshapes⟩ := statements_afresh line hstream hdepth hlimit
    hresumed.isEof_final hresumed.recovering_eq hpending halike [node] hclean
  rw [← hitems] at hreported hshapes
  have hboth : both = _ := run_statements limit _
  have hdiagnostics : both.2.diagnostics = s.reported.reverse := by
    rw [hboth]
    exact congrArg List.reverse hreported
  rw [hdiagnostics]
  refine ⟨(List.length_reverse).trans_le hresumed.length_le, fun d hd => ?_, ?_⟩
  · exact hresumed.cause_eq d (List.mem_reverse.mp hd)
  · have hall : Node.shapes both.1 = node.shape :: Node.shapes alone.1 := by
      rw [hboth]
      exact hshapes
    cases hnodes : both.1 with
    | nil =>
        rw [hnodes] at hall
        cases hall
    | cons first others =>
        rw [hnodes, Node.shapes, List.cons.injEq, Node.shape_eq, Node.shape_eq] at hall
        obtain ⟨hkind, -⟩ := Node.Shape.mk.inj hall.1
        exact ⟨first, others, rfl, hkind.trans hnode, hall.2⟩

/-- However deeply its value is nested, an assignment on a line is one statement, for which it is
reported once at most that constructs nest too deeply, and the text behind it is read as by
itself. -/
theorem too_deep_is_reported_once (rest : List Char) (options : Options)
    (hcap : 1 ≤ options.maxNestingDepth) (hclean : (QoreSyntax.parse rest options).2 = []) :
    let both := QoreSyntax.parse (e.assignmentLine x ++ '\n' :: rest) options
    both.2.length ≤ 1 ∧
      (∀ d ∈ both.2, d.message
        = "Nesting is too deep (maximum " ++ toString options.maxNestingDepth ++ " levels)") ∧
      ∃ node others, both.1.topLevel = node :: others ∧ node.kind = .exprStatement ∧
        Node.shapes others = Node.shapes (QoreSyntax.parse rest options).1.topLevel := by
  intro both
  have hlimit : options.limit = options.maxNestingDepth := Nat.max_eq_left hcap
  have hpos : 0 < options.limit := hlimit ▸ hcap
  obtain ⟨last, tokens, hlast, halike, hstart⟩ :=
    Phrase.exists_start_assignmentLine x e rest options
  have hstream := Token.Stream.isEof_ofText_final rest options.firstLine
  obtain ⟨halone, hreports⟩ := script_eq options (s := start rest options) hstream
  obtain ⟨hboth, hreports'⟩ := script_eq options
    (s := start (e.assignmentLine x ++ '\n' :: rest) options) (hstart ▸ hlast)
  obtain ⟨hlength, hcause, node, others, hnodes, hnode, hothers⟩ :=
    statements_behind_assignment x e hpos (Phrase.kinds_assignmentLine x e options.firstLine)
      (Phrase.valid_assignmentLine x e _) hlast hstream halike options.firstLine
      (hreports.symm.trans hclean)
  rw [← hstart, ← hreports'] at hlength hcause
  rw [← hstart, ← hboth] at hnodes
  refine ⟨hlength, fun d hd => ?_, node, others, hnodes, hnode, ?_⟩
  · rw [Diagnostic.message, hcause d hd, hlimit]
    rfl
  · exact hothers.trans (congrArg Node.shapes halone.symm)

/-- With four levels what stands in the brackets of `x = { a : ( - b [ 1 ] ) };` is passed over,
and the block behind it is read. -/
theorem too_deep_is_reported_once_hash :
    let x : Identifier := ⟨"x", by decide, by decide⟩
    let a : Phrase := .name ⟨false, ⟨"a", by decide, by decide⟩, []⟩
    let b : Phrase := .name ⟨false, ⟨"b", by decide, by decide⟩, []⟩
    let one : Phrase := .integer ⟨1, by decide⟩
    let e : Phrase := .hash a (.paren (.leading ⟨.minus, rfl⟩ (.index b one))) []
    let rest : List Char := ['\x7b', 'f', '(', ')', ';', '\x7d']
    let options : Options := ⟨1, "<string>", 4⟩
    let both := QoreSyntax.parse (e.assignmentLine x ++ '\n' :: rest) options
    1 ≤ options.maxNestingDepth ∧ (QoreSyntax.parse rest options).2 = [] ∧
      both.2.length = 1 ∧
      (∀ d ∈ both.2, d.message
        = "Nesting is too deep (maximum " ++ toString options.maxNestingDepth ++ " levels)") ∧
      ∃ node others, both.1.topLevel = node :: others ∧ node.kind = .exprStatement ∧
        Node.shapes others = Node.shapes (QoreSyntax.parse rest options).1.topLevel := by
  intro x a b one e rest options both
  have hclean : (QoreSyntax.parse rest options).2 = [] := by decide +kernel
  obtain ⟨-, hmessage, hnodes⟩ := too_deep_is_reported_once x e rest options (by decide) hclean
  exact ⟨by decide, hclean, by decide +kernel, hmessage, hnodes⟩

end Statements

end Grammar

end QoreSyntax

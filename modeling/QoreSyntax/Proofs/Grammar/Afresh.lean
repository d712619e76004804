import QoreSyntax.Proofs.Grammar.Cap
import QoreSyntax.Proofs.Grammar.Concatenation
import QoreSyntax.Proofs.Grammar.Resumption
import QoreSyntax.Proofs.Token.NewLine

namespace QoreSyntax

open Token (Akin Alike)

namespace Token

/-- The second half of a symbol is the same wherever the symbol stands. -/
theorem akin_secondHalf (t u : Token) : t.secondHalf.Akin u.secondHalf :=
  ⟨rfl, fun _ => rfl⟩

theorem ofToken?_eq_none_of_kind_eq {t u : Token} (h : u.kind = t.kind)
    (ht : LexicalError.ofToken? t = none) : LexicalError.ofToken? u = none := by
  rw [LexicalError.ofToken?_eq_none_iff] at ht ⊢
  rwa [h]

theorem map_kind_onNewLine (tokens : List Token) :
    (onNewLine tokens).map kind = tokens.map kind := by
  cases tokens <;> rfl

/-- Tokens without faults have none when they stand elsewhere. -/
theorem valid_onNewLine {ts us : List Token} (h : List.Forall₂ Alike ts us)
    (hvalid : ∀ t ∈ ts, LexicalError.ofToken? t = none) :
    ∀ u ∈ onNewLine us, LexicalError.ofToken? u = none := by
  have hkinds : us.map kind = ts.map kind := by
    induction h with
    | nil => rfl
    | cons h _ ih =>
        rw [List.map_cons, List.map_cons, h.kind_eq, ih fun t ht => hvalid t (.tail _ ht)]
  intro u hu
  have hmem : u.kind ∈ ts.map kind := by
    rw [← hkinds, ← map_kind_onNewLine]
    exact List.mem_map_of_mem hu
  obtain ⟨t, ht, hkind⟩ := List.mem_map.mp hmem
  exact ofToken?_eq_none_of_kind_eq hkind.symm (hvalid t ht)

/-- Unless it is a brace, a token is the same to a parser when a line ends before it. -/
theorem akin_onNewLine {ts us : List Token} (h : List.Forall₂ Alike ts us)
    (hbrace : ∀ u ∈ us.head?, u.kind ≠ .symbol .lBrace) :
    List.Forall₂ Akin ts (onNewLine us) := by
  cases h with
  | nil => exact .nil
  | cons h hrest =>
      refine .cons ⟨h.kind_eq, fun hkind => ?_⟩ (hrest.imp fun _ _ halike => halike.akin)
      exact absurd (h.kind_eq.trans hkind) (hbrace _ rfl)

end Token

namespace Grammar

namespace State

/-- The second parse has taken `before` tokens more than the first one and made the reports
`earlier`, and is to take the same tokens. -/
structure Resumes (before : Nat) (earlier : List Diagnostic) (s t : State) : Prop where
  honest : s.Honest
  pending : List.Forall₂ Akin s.pending t.pending
  isEof_final : t.final.isEof = true
  consumed_eq : t.consumed = s.consumed + before
  reported_eq : t.reported = s.reported ++ earlier
  recovering_eq : t.recovering = s.recovering
  depth_eq : t.depth = s.depth

namespace Resumes

variable {before : Nat} {earlier : List Diagnostic} {s t : State} (h : s.Resumes before earlier t)
include h

theorem recovering_eq_false (hsafe : ¬s.Faulty) : s.recovering = false :=
  Bool.eq_false_iff.mpr fun hrecovering => hsafe ⟨h.honest, h.honest.blamed hrecovering⟩

theorem resembles (hsafe : ¬s.Faulty) : s.Resembles t where
  pending := .of_forall₂ h.pending
  isEof_left := h.honest.isEof_final
  isEof_right := h.isEof_final
  recovering_eq := h.recovering_eq
  skipped hrecovering := absurd hrecovering (by simp [h.recovering_eq_false hsafe])

theorem advance (hsafe : ¬s.Faulty) : s.advance.Resumes before earlier t.advance := by
  have hpending := h.pending
  rcases hs : s.pending with - | ⟨u, tokens⟩
  · rw [hs] at hpending
    rwa [advance_nil hs, advance_nil (List.forall₂_nil_left_iff.mp hpending)]
  · rw [hs] at hpending
    obtain ⟨v, tokens', htoken, htokens, ht⟩ := List.forall₂_cons_left_iff.mp hpending
    have hvalid : LexicalError.ofToken? u = none := by
      by_contra hfault
      refine hsafe ⟨h.honest, blamed_of_current h.honest.isEof_final ?_⟩
      rwa [current_of_pending hs]
    have hhonest := (Upholds.advance h.honest).honest
    rw [advance_cons hs, hvalid] at hhonest ⊢
    rw [advance_cons ht, Token.ofToken?_eq_none_of_kind_eq htoken.kind_eq hvalid]
    exact
      { honest := hhonest
        pending := htokens
        isEof_final := h.isEof_final
        consumed_eq := by
          dsimp only
          rw [h.consumed_eq, Nat.add_right_comm]
        reported_eq := h.reported_eq
        recovering_eq := congrArg (· || false) h.recovering_eq
        depth_eq := h.depth_eq }

theorem splitShift : s.splitShift.Resumes before earlier t.splitShift := by
  have hpending := h.pending
  rcases hs : s.pending with - | ⟨u, tokens⟩
  · rw [hs] at hpending
    rwa [State.splitShift, State.splitShift, hs, List.forall₂_nil_left_iff.mp hpending]
  · rw [hs] at hpending
    obtain ⟨v, tokens', htoken, htokens, ht⟩ := List.forall₂_cons_left_iff.mp hpending
    have hhonest := (Upholds.splitShift h.honest).honest
    rw [State.splitShift, hs] at hhonest ⊢
    rw [State.splitShift, ht]
    dsimp only at hhonest ⊢
    rw [htoken.kind_eq]
    split_ifs at hhonest ⊢
    · exact
        { h with
          honest := hhonest
          pending := .cons (Token.akin_secondHalf u v) htokens
          consumed_eq := by
            dsimp only
            rw [h.consumed_eq, Nat.add_right_comm] }
    · exact h

end Resumes

end State

/-- A parse and the same parse behind others, as long as nothing is reported. -/
def afresh (before : Nat) (earlier : List Diagnostic) : Simulation where
  Related := State.Resumes before earlier
  Lost := State.Faulty
  Marks _ _ := True
  Nodes node node' := node'.shape = node.shape
  offset := before
  earlier := earlier.length
  isTrail_lost := State.isTrail_faulty
  resembles h hsafe := h.resembles hsafe
  consumed_eq h := h.consumed_eq
  reported_eq h := by rw [h.reported_eq, List.length_append]
  depth_eq h := h.depth_eq
  advance h hsafe := h.advance hsafe
  splitShift h _ := h.splitShift
  report problem _ _ h _ := Or.inl (h.honest.faulty_report problem)
  resume h :=
    { h with
      honest := (State.isTrail_upholds.resume _ h.honest).honest
      recovering_eq := rfl }
  nest depth _ _ h :=
    { h with
      honest := (State.isTrail_upholds.nest depth _ h.honest).honest
      depth_eq := rfl }
  mark _ _ := trivial
  close kind payload _ _ hnodes := by
    rw [Node.shape_eq, Node.shape_eq]
    exact congrArg (Node.Shape.mk kind payload) (Node.shapes_of_forall₂ hnodes)
  placeholder _ _ := rfl
  name?_eq h := Node.name?_of_shape h

/-- A statement that begins with a brace is a block. -/
theorem run_statementRule_of_brace {s : State} (h : s.kind = .symbol .lBrace)
    (nested : Goal → State → Node × State) :
    statementRule.run nested s =
      (braced statement >>= fun items => close s.mark .block .none items).run nested
        s.advance.resume := by
  have hat : s.isAt .lBrace = true := beq_iff_eq.mpr h
  have hstate : state.run nested s = (s, s) := rfl
  rw [statementRule, Parser.run_bind, hstate, h]
  change Parser.run nested (expect .lBrace >>= _) s = _
  rw [Parser.run_bind, run_expect, if_pos hat]
  rfl

section NewLine

/-- The state when a line ends before the next token. -/
def State.onNewLine (s : State) : State :=
  { s with pending := Token.onNewLine s.pending }

variable {s : State} {brace : Token} {rest : List Token} (hpending : s.pending = brace :: rest)
include hpending

theorem State.pending_onNewLine : s.onNewLine.pending = brace.behindLineEnd :: rest := by
  rw [onNewLine, hpending]
  rfl

theorem State.mark_onNewLine : s.onNewLine.mark = s.mark := by
  rw [mark, mark, current_of_pending hpending, current_of_pending (pending_onNewLine hpending)]
  rfl

/-- Once the token is taken it does not matter on which line it has been. -/
theorem State.advance_onNewLine : s.onNewLine.advance = s.advance := by
  rw [advance_cons hpending, advance_cons (pending_onNewLine hpending)]
  rfl

variable (hbrace : brace.kind = .symbol .lBrace)
include hbrace

theorem run_statementRule_onNewLine (nested : Goal → State → Node × State) :
    statementRule.run nested s.onNewLine = statementRule.run nested s := by
  have hkind : s.kind = .symbol .lBrace := by rwa [State.kind, State.current_of_pending hpending]
  have hkind' : s.onNewLine.kind = .symbol .lBrace := by
    rwa [State.kind, State.current_of_pending (State.pending_onNewLine hpending)]
  rw [run_statementRule_of_brace hkind, run_statementRule_of_brace hkind',
    State.mark_onNewLine hpending, State.advance_onNewLine hpending]

theorem parse_statement_onNewLine {limit : Nat} (hdepth : s.depth < limit) (room : Nat) :
    parse limit (room + 1) .statement s.onNewLine = parse limit (room + 1) .statement s := by
  have hopen : ¬limit ≤ s.depth := Nat.not_le.mpr hdepth
  have hrun := run_statementRule_onNewLine (s := { s with depth := s.depth + 1 }) hpending hbrace
    (parse limit room)
  rw [parse, parse, if_neg hopen, if_neg (show ¬limit ≤ s.onNewLine.depth from hopen)]
  exact congrArg (fun read : Node × State => (read.1, { read.2 with depth := read.2.depth - 1 }))
    hrun

theorem run_sequenceStep_onNewLine {limit : Nat} (hdepth : s.depth < limit)
    (items : List Node) :
    (sequenceStep .endOfInput statement items).runWithin limit s.onNewLine
      = (sequenceStep .endOfInput statement items).runWithin limit s := by
  have hopen : ∀ {t : State} {u : Token}, t.pending = u :: rest → u.kind = .symbol .lBrace →
      Terminator.endOfInput.holds t = false ∧ t.isAt .rBrace = false := by
    intro t u ht hu
    rw [Terminator.holds, State.isAtEnd, State.isAt, State.kind, State.current_of_pending ht, ht,
      hu]
    exact ⟨rfl, rfl⟩
  obtain ⟨room, rfl⟩ := Nat.exists_eq_succ_of_ne_zero (Nat.ne_zero_of_lt hdepth)
  have hcall : statement.run (parse (room + 1) (room + 1)) s.onNewLine
      = statement.run (parse (room + 1) (room + 1)) s :=
    parse_statement_onNewLine hpending hbrace hdepth room
  obtain ⟨hholds, hat⟩ := hopen hpending hbrace
  obtain ⟨hholds', hat'⟩ := hopen (State.pending_onNewLine hpending) hbrace
  rw [Parser.runWithin, Parser.runWithin, run_sequenceStep_of_open hholds hat,
    run_sequenceStep_of_open hholds' hat', hcall]
  rfl

end NewLine

/-- A sequence of statements is read in the same way when a line ends before it: it is a matter of
the first statement, and whether that begins with a brace. -/
theorem exists_run_items_onNewLine {limit : Nat} {s : State} (hdepth : s.depth < limit)
    (hfinal : s.final.isEof = true) (nodes : List Node) {tokens : List Token}
    (halike : List.Forall₂ Alike tokens s.pending) :
    ∃ pending, List.Forall₂ Akin tokens pending ∧
      (loop (sequenceStep .endOfInput statement) nodes).runWithin limit s.onNewLine
        = (loop (sequenceStep .endOfInput statement) nodes).runWithin limit
          { s with pending := pending } := by
  by_cases hbrace : ∃ brace rest, s.pending = brace :: rest ∧ brace.kind = .symbol .lBrace
  · obtain ⟨brace, rest, hpending, hbrace⟩ := hbrace
    have hnested := onlyTakes_parse limit limit
    have hshrinks := Parser.shrinks_sequenceStep hnested .endOfInput statement
    have hstep := run_sequenceStep_onNewLine hpending hbrace hdepth nodes
    rw [Parser.runWithin, Parser.runWithin] at hstep
    refine ⟨s.pending, halike.imp fun _ _ h => h.akin, ?_⟩
    rw [Parser.runWithin, Parser.runWithin, hshrinks.run_loop hnested nodes hfinal,
      hshrinks.run_loop hnested nodes (show s.onNewLine.final.isEof = true from hfinal), hstep]
  · refine ⟨Token.onNewLine s.pending, Token.akin_onNewLine halike ?_, rfl⟩
    intro u hu hkind
    obtain ⟨rest, hpending⟩ := List.head?_eq_some_iff.mp hu
    exact hbrace ⟨u, rest, hpending, hkind⟩

/-- When the tokens of a text about which nothing is reported are all that is ahead of a parse, it
reads the statements of the text behind those that it has read, and reports nothing more. -/
theorem statements_afresh {limit : Nat} {stream : Token.Stream} (line : Nat)
    (hstream : stream.final.isEof = true) {s : State} (hdepth : s.depth = 0) (hlimit : 0 < limit)
    (hfinal : s.final.isEof = true) (hrecovering : s.recovering = false) {tokens : List Token}
    (hpending : s.pending = Token.onNewLine tokens)
    (halike : List.Forall₂ Alike stream.tokens tokens) (nodes : List Node) :
    let statements := (sequence .endOfInput statement).runWithin limit
      (State.ofStream stream line)
    let more := (loop (sequenceStep .endOfInput statement) nodes).runWithin limit s
    statements.2.diagnostics = [] →
      more.2.reported = s.reported ∧
        Node.shapes more.1.reverse = Node.shapes nodes.reverse ++ Node.shapes statements.1 := by
  intro statements more hclean
  let read := (loop (sequenceStep .endOfInput statement) []).runWithin limit
    (State.ofStream stream line)
  have hread : statements = (read.1.reverse, read.2) := run_statements limit _
  have hend : read.2.isAtEnd = true := congrArg Prod.snd hread ▸ isAtEnd_statements hstream
  rw [hread] at hclean
  obtain ⟨pending, hakin, hrun⟩ := exists_run_items_onNewLine (s := { s with pending := tokens })
    (hdepth.trans_lt hlimit) hfinal nodes halike
  have hsame : State.onNewLine { s with pending := tokens } = s := by
    rw [State.onNewLine, ← hpending]
  have hmore : more = (loop (sequenceStep .endOfInput statement) nodes).runWithin limit
      { s with pending := pending } := by
    rwa [hsame] at hrun
  have hresumes : (State.ofStream stream line).Resumes s.consumed s.reported
      { s with pending := pending } :=
    { honest := State.honest_ofStream hstream line
      pending := hakin
      isEof_final := hfinal
      consumed_eq := (Nat.zero_add s.consumed).symm
      reported_eq := rfl
      recovering_eq := hrecovering
      depth_eq := hdepth }
  have hsafe : ¬read.2.Faulty := fun hfaulty => State.not_blamed_of_isAtEnd hend hclean hfaulty.2
  obtain ⟨hshapes, hafter⟩ := (matches_items_behind (M := afresh s.consumed s.reported) id limit
    nodes _ _ hresumes).resolve_left hsafe
  have hreported : read.2.reported = [] := List.reverse_eq_nil_iff.mp hclean
  rw [hmore, hread, Node.shapes_reverse, Node.shapes_reverse, Node.shapes_reverse,
    ← List.reverse_append]
  constructor
  · exact hafter.reported_eq.trans (congrArg (· ++ s.reported) hreported)
  · exact congrArg List.reverse hshapes

end Grammar

end QoreSyntax

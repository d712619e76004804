import QoreSyntax.Proofs.Grammar.Conservation.Statement
import QoreSyntax.Proofs.Grammar.Root

namespace QoreSyntax.Grammar

open Node (literals)

namespace Conservation

variable {nested : Goal → State → Node × State}

theorem keeps_rule (h : Sound nested) (goal : Goal) : Keeps nested goal.rule ([·]) := by
  cases goal with
  | statement => exact keeps_statementRule h
  | expression power => exact keeps_expressionRule h power
  | type => exact keeps_typeRule h

/-- What a construct beyond the limit is made of is passed over after a report. -/
theorem carries_refuse (limit : Nat) {s : State} (hs : s.Honest) :
    s.Carries (literals [(s.refuse limit).1]) (s.refuse limit).2 := by
  have hblamed := hs.blamed_report (.tooDeep limit)
  have hreported := State.isTrail_passes.report (.tooDeep limit) s hs
  have hskipped : (s.report (.tooDeep limit)).Passes (s.refuse limit).2 :=
    State.isTrail_passes.advanceMany _ _ hreported.upholds.honest
  have hliterals : literals [(s.refuse limit).1] = [] := Node.literals_of_not_isVerbatim rfl
  rw [hliterals]
  exact State.Carries.of_blamed (hreported.trans hskipped) (hskipped.upholds.blamed hblamed)

theorem carries_nest (depth : Nat) {s : State} (hs : s.Honest) :
    s.Carries [] { s with depth := depth } :=
  State.Carries.of_literals_eq (State.isTrail_passes.nest depth s hs) rfl

theorem sound_parse (limit room : Nat) : Sound (parse limit room) := by
  induction room with
  | zero => exact fun _ s hs => carries_refuse limit hs
  | succ room ih =>
      intro goal s hs
      change s.Carries (literals [(parse limit (room + 1) goal s).1]) _
      change s.Carries _ (parse limit (room + 1) goal s).2
      rw [parse]
      split_ifs
      · exact carries_refuse limit hs
      · have hnest := carries_nest (s.depth + 1) hs
        have hrule := hnest.append (keeps_rule ih goal _ hnest.honest)
        exact hrule.pass (carries_nest _ hrule.honest)

end Conservation

/-- The literals that are ahead before anything has been taken are those of the text. -/
theorem literals_start (text : List Char) (options : Options) :
    (start text options).literals
      = (Token.Stream.ofText text options.firstLine).toList.filterMap Literal.ofToken? := by
  have hfinal : (Token.Stream.ofText text options.firstLine).final.isEof = true :=
    Token.Stream.isEof_ofText_final text options.firstLine
  have hnone : Literal.ofToken? (Token.Stream.ofText text options.firstLine).final = none :=
    Literal.ofToken?_eq_none (congrArg Token.Kind.literal? (eq_of_beq hfinal))
  rw [Token.Stream.toList, List.filterMap_append, List.filterMap_cons_none hnone,
    List.filterMap_nil, List.append_nil]
  rfl

/-- The root takes in what has been read of the text and adds no literal. -/
theorem literals_walk_script (range : Range) (items : List Node) :
    (Tree.walk ⟨some ⟨.script, range, .none, items⟩⟩).filterMap Literal.ofNode?
      = literals items := by
  change (Node.walk _).filterMap Literal.ofNode? = _
  rw [Node.walk_eq_preorder, Node.preorder_eq, List.filterMap_cons_none rfl, literals]

/-- The literals and directives of a tree, as they are met on a visit of its nodes, are some of
those of the text, at the same places, with the same values and in the same order. If nothing is
reported they are all of them. -/
theorem literals_are_kept (text : List Char) (options : Options) :
    let written := (Token.Stream.ofText text (max options.startLine 1)).toList.filterMap
      Literal.ofToken?
    let (tree, reports) := QoreSyntax.parse text options
    let read := tree.walk.filterMap Literal.ofNode?
    read.Sublist written ∧ (reports = [] → read = written) := by
  intro written
  have hwritten : written = (start text options).literals := (literals_start text options).symm
  have hstart := State.honest_start text options
  rw [hwritten, QoreSyntax.parse]
  cases hend : (start text options).isAtEnd with
  | true =>
      rw [script, hend, if_pos rfl]
      refine ⟨List.nil_sublist _, fun _ => ?_⟩
      rw [State.literals, State.isAtEnd_iff.mp hend]
      rfl
  | false =>
      rw [script_of_not_isAtEnd options hend]
      have hsound := Conservation.sound_parse options.limit options.limit
      have hcarries := Conservation.Keeps.sequence hsound (hsound .statement) .endOfInput _ hstart
      have honly := onlyTakes_parse options.limit options.limit
      have hafter := Parser.ensures_sequence_endOfInput honly statement _ hstart.isEof_final
      dsimp only
      rw [literals_walk_script]
      exact ⟨hcarries.sublist, fun hclean => hcarries.eq_of_isAtEnd hafter hclean⟩

-- Behind the missing comma the second literal is passed over.
example :
    let tree := (QoreSyntax.parse "f(1 2); 3;".toList Options.standard).1
    (tree.walk.filterMap Literal.ofNode?).map Literal.payload = [.integer 1, .integer 3] := by
  decide +kernel

end QoreSyntax.Grammar

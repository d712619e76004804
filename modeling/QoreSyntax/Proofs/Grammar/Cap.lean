import QoreSyntax.Proofs.Grammar.Blame
import QoreSyntax.Proofs.Grammar.Simulation.Script

namespace QoreSyntax.Grammar

namespace State

/-- A report has been made or will be, and it is not forgotten. -/
def Faulty (s : State) : Prop :=
  s.Honest ∧ s.Blamed

theorem Upholds.faulty {s t : State} (h : s.Upholds t) (hs : s.Faulty) : t.Faulty :=
  ⟨h.honest, h.blamed hs.2⟩

theorem isTrail_faulty : IsTrail fun s t => s.Faulty → t.Faulty where
  refl _ := id
  trans hst htu h := htu (hst h)
  advance s h := (isTrail_upholds.advance s h.1).faulty h
  splitShift s h := (isTrail_upholds.splitShift s h.1).faulty h
  report problem s h := (isTrail_upholds.report problem s h.1).faulty h
  resume s h := (isTrail_upholds.resume s h.1).faulty h
  nest depth s h := (isTrail_upholds.nest depth s h.1).faulty h

theorem Honest.faulty_report {s : State} (h : s.Honest) (problem : Problem) :
    (s.report problem).Faulty :=
  ⟨(Upholds.report h problem).honest, h.blamed_report problem⟩

end State

/-- A parse and the same parse with a greater limit, as long as nothing is reported. -/
def uncut : Simulation where
  Related s t := s.Honest ∧ s = t
  Lost := State.Faulty
  Marks := Eq
  Nodes := Eq
  offset := 0
  earlier := 0
  isTrail_lost := State.isTrail_faulty
  resembles h _ := h.2 ▸ State.resembles_self h.1.isEof_final
  consumed_eq h := h.2 ▸ rfl
  reported_eq h := h.2 ▸ rfl
  depth_eq h := h.2 ▸ rfl
  advance h _ := ⟨(State.Upholds.advance h.1).honest, h.2 ▸ rfl⟩
  splitShift h _ := ⟨(State.Upholds.splitShift h.1).honest, h.2 ▸ rfl⟩
  report problem _ _ h _ := Or.inl (h.1.faulty_report problem)
  resume h := ⟨(State.isTrail_upholds.resume _ h.1).honest, h.2 ▸ rfl⟩
  nest depth _ _ h := ⟨(State.isTrail_upholds.nest depth _ h.1).honest, h.2 ▸ rfl⟩
  mark h _ := h.2 ▸ rfl
  close kind payload h hm hnodes := by
    rw [List.forall₂_eq_eq_eq] at hnodes
    rw [h.2, hm, hnodes]
  placeholder _ h := h.2 ▸ rfl
  name?_eq := name?_eq_of_eq

/-- With a greater limit nothing is read that has not been read before, unless something has been
reported. -/
theorem parse_of_limit_le (text : List Char) (options : Options) {depth : Nat}
    (hdepth : options.maxNestingDepth ≤ depth)
    (hclean : (QoreSyntax.parse text options).2 = []) :
    QoreSyntax.parse text { options with maxNestingDepth := depth }
      = QoreSyntax.parse text options := by
  have hhonest := State.honest_start text options
  have hlimit : options.limit ≤ Options.limit { options with maxNestingDepth := depth } :=
    Nat.max_le.mpr ⟨Nat.le_trans hdepth (Nat.le_max_left _ _), Nat.le_max_right _ _⟩
  have hstart : start text { options with maxNestingDepth := depth } = start text options := rfl
  rw [QoreSyntax.parse, script] at hclean
  rw [QoreSyntax.parse, QoreSyntax.parse, hstart, script, script]
  by_cases hend : (start text options).isAtEnd = true
  · rw [if_pos hend, if_pos hend]
  · rw [if_neg hend] at hclean
    rw [if_neg hend, if_neg hend]
    rcases uncut.outcome_statements_of_le (fun _ _ problem h => h.1.faulty_report problem) hlimit
      ⟨hhonest, rfl⟩ with hfaulty | ⟨hitems, -, hafter⟩
    · have hall := Parser.ensures_sequence_endOfInput (onlyTakes_parse options.limit options.limit)
        statement _ hhonest.isEof_final
      exact absurd hfaulty.2 (State.not_blamed_of_isAtEnd hall hclean)
    · have hsame := congrFun₂ List.forall₂_eq_eq_eq _ _ ▸ hitems
      rw [← Prod.ext hsame hafter]
      rfl

/-- If nothing is reported when constructs may nest to some depth, then a parse that lets them nest
more deeply gives the same tree, and reports nothing either. -/
theorem clean_parse_stays_with_more_room (text : List Char) (options : Options) (depth : Nat)
    (hdepth : options.maxNestingDepth ≤ depth)
    (hclean : (QoreSyntax.parse text options).2 = []) :
    let deeper := QoreSyntax.parse text { options with maxNestingDepth := depth }
    deeper.1 = (QoreSyntax.parse text options).1 ∧ deeper.2 = [] := by
  intro deeper
  have hsame : deeper = QoreSyntax.parse text options :=
    parse_of_limit_le text options hdepth hclean
  constructor
  · rw [hsame]
  · rw [hsame, hclean]

/-- The text `x=((1));` in a file that begins at line 7 needs five levels, and no more. -/
theorem clean_parse_stays_with_more_room_parenthesised :
    let text : List Char := ['x', '=', '(', '(', '1', ')', ')', ';']
    let options : Options := ⟨7, "<string>", 5⟩
    let deeper := QoreSyntax.parse text { options with maxNestingDepth := 6 }
    options.maxNestingDepth ≤ 6 ∧ (QoreSyntax.parse text options).2 = [] ∧
      deeper.1 = (QoreSyntax.parse text options).1 ∧ deeper.2 = [] := by
  intro text options deeper
  have hdepth : options.maxNestingDepth ≤ 6 := by decide
  have hclean : (QoreSyntax.parse text options).2 = [] := by decide +kernel
  exact ⟨hdepth, hclean, clean_parse_stays_with_more_room text options 6 hdepth hclean⟩

end QoreSyntax.Grammar

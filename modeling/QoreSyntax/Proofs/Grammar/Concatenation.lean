import QoreSyntax.Proofs.Grammar.Boundary
import QoreSyntax.Proofs.Grammar.Replay
import QoreSyntax.Proofs.Token.Concatenation

namespace QoreSyntax

/-- The nodes of the statements, declarations and directives of a text one after the other. -/
def Tree.topLevel (tree : Tree) : List Node :=
  (tree.root?.map Node.children).getD []

/-- The options for what stands behind the text: its lines are counted on. -/
def Options.behind (text : List Char) (options : Options) : Options :=
  { options with startLine := options.firstLine + (lineEnds text text.length).length }

theorem Token.twin_behind (n : Nat) (t : Token) : t.Twin (t.behind n) :=
  ⟨⟨rfl, rfl⟩, rfl⟩

theorem Token.twins_behind (n : Nat) (tokens : List Token) :
    List.Forall₂ Twin tokens (tokens.map (behind n)) :=
  List.forall₂_map_right_iff.mpr (List.forall₂_same.mpr fun t _ => twin_behind n t)

namespace Grammar

section Depth

theorem run_depth {nested : Goal → State → Node × State}
    (hnested : ∀ goal s, (nested goal s).2.depth = s.depth) {α : Type} (parser : Parser α)
    (s : State) : (parser.run nested s).2.depth = s.depth := by
  induction parser generalizing s with
  | done result => rfl
  | look next ih => exact ih s s
  | advance next ih => exact (ih s.current s.advance).trans s.advance_depth
  | splitShift next ih => exact (ih s.splitShift).trans s.splitShift_depth
  | report problem next ih => exact ih (s.report problem)
  | resume next ih => exact ih s.resume
  | call goal next ih => exact (ih _ _).trans (hnested goal s)

/-- Each construct leaves as many constructs open as have been when it began. -/
theorem parse_depth (limit room : Nat) (goal : Goal) (s : State) :
    (parse limit room goal s).2.depth = s.depth := by
  have hrefuse : (s.refuse limit).2.depth = s.depth := State.advanceMany_depth _ _
  induction room generalizing goal s with
  | zero => exact hrefuse
  | succ room ih =>
      rw [parse]
      split_ifs
      · exact hrefuse
      · have hrule := run_depth (fun goal s => ih goal s (State.advanceMany_depth _ _)) goal.rule
          { s with depth := s.depth + 1 }
        exact congrArg (· - 1) hrule

end Depth

section Statements

theorem run_statements (limit : Nat) (s : State) :
    (sequence .endOfInput statement).runWithin limit s =
      (((loop (sequenceStep .endOfInput statement) []).runWithin limit s).1.reverse,
        ((loop (sequenceStep .endOfInput statement) []).runWithin limit s).2) := by
  rw [Parser.runWithin, sequence, Parser.run_bind]
  rfl

theorem State.honest_ofStream {stream : Token.Stream} (hstream : stream.final.isEof = true)
    (line : Nat) : (ofStream stream line).Honest :=
  ⟨hstream, fun h => Bool.noConfusion h⟩

variable {limit line : Nat} {stream : Token.Stream} (hstream : stream.final.isEof = true)
include hstream

theorem isAtEnd_statements :
    ((sequence .endOfInput statement).runWithin limit (State.ofStream stream line)).2.isAtEnd
      = true :=
  Parser.ensures_sequence_endOfInput (onlyTakes_parse limit limit) statement _ hstream

theorem not_doomed_statements (hclean : ((sequence .endOfInput statement).runWithin limit
      (State.ofStream stream line)).2.diagnostics = []) :
    ¬((sequence .endOfInput statement).runWithin limit (State.ofStream stream line)).2.Doomed :=
  fun hdoomed => State.not_blamed_of_isAtEnd (isAtEnd_statements hstream) hclean
    (hdoomed.blamed (isAtEnd_statements hstream))

/-- Where nothing is reported about the statements, the tokens are well-formed and the last one
closes a statement. -/
theorem tokens_of_statements (hclean : ((sequence .endOfInput statement).runWithin limit
      (State.ofStream stream line)).2.diagnostics = []) :
    (∀ t ∈ stream.tokens, LexicalError.ofToken? t = none) ∧
      ∀ t ∈ stream.tokens.getLast?, t.kind.closes = true := by
  have hstart := State.honest_ofStream hstream line
  have hbehind : (([] : List Token).head?.getD stream.final).kind ≠ .keyword .else := by
    intro hkind
    rw [Token.isEof, show stream.final.kind = _ from hkind] at hstream
    cases hstream
  have hsafe : ¬(State.ofStream stream line).Doomed := by
    intro hdoomed
    have hread := Simulation.Nesting.doomed_loop
      (Simulation.Nesting.orderly_parse hstream hbehind limit limit) hdoomed []
    exact not_doomed_statements hstream hclean (run_statements limit _ ▸ hread)
  have hblamed : ¬(State.ofStream stream line).Blamed := fun h => hsafe ⟨hstart, Or.inl h⟩
  constructor
  · have hlexical : (State.ofStream stream line).lexicalReports = [] :=
      not_not.mp fun hne => hblamed (Or.inr hne)
    rw [State.lexicalReports, List.append_eq_nil_iff, List.map_eq_nil_iff,
      List.filterMap_eq_nil_iff] at hlexical
    exact hlexical.2
  · intro t ht
    have hpending : stream.tokens ≠ [] := by
      rintro hnil
      rw [hnil] at ht
      cases ht
    by_contra hcloses
    refine hsafe ⟨hstart, Or.inr ⟨hpending, fun u hu => ?_⟩⟩
    obtain rfl : t = u := Option.some.inj (ht.symm.trans hu)
    exact Bool.not_eq_true _ ▸ hcloses

end Statements

/-- Behind the statements of a text without a mistake nothing is left of what it has been. -/
theorem State.repeats_followedBy {stream : Token.Stream} {line : Nat} {rest : List Token}
    {last : Token} (hlast : last.isEof = true)
    (htokens : List.Forall₂ Token.Twin stream.tokens rest) (hfinal : stream.final.Twin last)
    {s : State} (hs : s.Honest) (hend : s.isAtEnd = true) (hclean : s.diagnostics = [])
    (hdepth : s.depth = 0) :
    (ofStream stream line).Repeats s.consumed (s.followedBy rest last) where
  pending := by
    rw [followedBy, isAtEnd_iff.mp hend]
    exact htokens
  isEof_final := by
    rw [Token.isEof, hfinal.kind_eq] at hlast
    exact hlast
  final := hfinal
  consumed_eq := (Nat.zero_add s.consumed).symm
  reported_eq := List.reverse_eq_nil_iff.mp hclean
  recovering_eq := by
    refine Bool.eq_false_iff.mpr fun hrecovering => ?_
    exact not_blamed_of_isAtEnd hend hclean (hs.blamed hrecovering)
  depth_eq := hdepth

/-- Behind nodes that have been read already the same ones are read again. -/
theorem matches_items_behind {M : Simulation}
    (hshape : ∀ {node node'}, M.Nodes node node' → node'.shape = node.shape) (limit : Nat)
    (nodes : List Node) :
    (Simulation.Nesting.ofParse (M := M) (Simulation.outcome_parse limit limit)).Matches
      (loop (sequenceStep .endOfInput statement) [])
      (loop (sequenceStep .endOfInput statement) nodes)
      fun items items' => Node.shapes items' = Node.shapes items ++ Node.shapes nodes := by
  refine (Simulation.Nesting.call _ .statement).items .endOfInput (fun hnode hnodes => ?_) rfl
  rw [Node.shapes, Node.shapes, hshape hnode, hnodes, List.cons_append]

/-- A text about which nothing is reported and another one behind it are read one after the
other. -/
theorem statements_append (limit : Nat) {stream stream' : Token.Stream} (line line' : Nat)
    {rest : List Token} {last : Token} (hstream : stream.final.isEof = true)
    (hlast : last.isEof = true) (htokens : List.Forall₂ Token.Twin stream'.tokens rest)
    (hfinal : stream'.final.Twin last)
    (hbehind : (rest.head?.getD last).kind ≠ .keyword .else) :
    let statements := (sequence .endOfInput statement).runWithin limit
    let first := statements (State.ofStream stream line)
    let second := statements (State.ofStream stream' line')
    let both := statements (State.ofStream ⟨stream.tokens ++ rest, last⟩ line)
    first.2.diagnostics = [] →
      both.2.diagnostics = second.2.diagnostics ∧
        Node.shapes both.1 = Node.shapes first.1 ++ Node.shapes second.1 := by
  intro statements first second both hclean
  let items := loop (sequenceStep .endOfInput statement)
  let read := (items []).runWithin limit (State.ofStream stream line)
  have hfirst : first = (read.1.reverse, read.2) := run_statements limit _
  have hend : read.2.isAtEnd = true := congrArg Prod.snd hfirst ▸ isAtEnd_statements hstream
  have hdepth : read.2.depth = 0 := run_depth (parse_depth limit limit) _ _
  have hsafe : ¬read.2.Doomed := congrArg Prod.snd hfirst ▸ not_doomed_statements hstream hclean
  rw [hfirst] at hclean
  -- the longer text is read like the first one up to its end
  obtain ⟨u, ⟨hhonest, hu⟩, hboth⟩ := Simulation.Nesting.exists_boundary
    (Simulation.Nesting.orderly_parse hlast hbehind limit limit) (s := State.ofStream stream line)
    ⟨State.honest_ofStream hstream line, rfl⟩ [] hsafe
  -- and from there on like the second one
  have hrepeats : (State.ofStream stream' line').Repeats read.2.consumed u :=
    hu ▸ State.repeats_followedBy hlast htokens hfinal hhonest hend hclean hdepth
  obtain ⟨hshapes, hafter⟩ :=
    (matches_items_behind (M := replay read.2.consumed) id limit read.1 _ _ hrepeats).resolve_left
      id
  have hsecond : second = _ := run_statements limit _
  have hother : both = _ := run_statements limit _
  have hlonger : (items []).runWithin limit (State.ofStream ⟨stream.tokens ++ rest, last⟩ line)
      = (items read.1).runWithin limit u := hboth
  rw [hfirst, hsecond, hother, hlonger]
  refine ⟨congrArg List.reverse hafter.reported_eq, ?_⟩
  dsimp only
  rw [Node.shapes_reverse, Node.shapes_reverse, Node.shapes_reverse, ← List.reverse_append]
  exact congrArg List.reverse hshapes

/-- A text without tokens has no statements, and there is nothing to report about it. -/
theorem script_eq (options : Options) {s : State} (hfinal : s.final.isEof = true) :
    let read := (sequence .endOfInput statement).runWithin options.limit s
    (script options s).1.topLevel = read.1 ∧ (script options s).2 = read.2.diagnostics := by
  intro read
  have hnested := onlyTakes_parse options.limit options.limit
  rw [script]
  split_ifs with hend
  · have hloop := (Parser.shrinks_sequenceStep hnested .endOfInput statement).run_loop hnested []
      hfinal
    rw [Simulation.Nesting.run_sequenceStep_nil (State.isAtEnd_iff.mp hend)] at hloop
    have hread : read = _ := run_statements options.limit s
    rw [hread, Parser.runWithin, hloop]
    exact ⟨rfl, rfl⟩
  · exact ⟨rfl, rfl⟩

theorem firstLine_behind (text : List Char) (options : Options) :
    (options.behind text).firstLine
      = max options.firstLine 1 + (lineEnds text text.length).length := by
  have hone : 1 ≤ options.firstLine := Nat.le_max_right _ _
  change max (options.firstLine + (lineEnds text text.length).length) 1 = _
  omega

/-- The tokens of the longer text are those of the two texts. -/
theorem start_append {text : List Char} {options : Options}
    (hclean : (QoreSyntax.parse text options).2 = []) (hreturn : text.getLast? ≠ some '\r')
    (rest : List Char) :
    let stream := Token.Stream.ofText text options.firstLine
    let behind := (Token.Stream.ofText ('\n' :: rest) (options.behind text).firstLine).behind
      (String.utf8Len text)
    start (text ++ '\n' :: rest) options
      = State.ofStream ⟨stream.tokens ++ behind.tokens, behind.final⟩ options.firstLine := by
  intro stream behind
  have hstream : stream.final.isEof = true := Token.Stream.isEof_ofText_final text _
  obtain ⟨-, hread⟩ := script_eq options (s := start text options) hstream
  obtain ⟨hvalid, hcloses⟩ := tokens_of_statements hstream (hread.symm.trans hclean)
  have hmatch : ∀ t ∈ stream.tokens.getLast?, t.kind.isMatch = false := by
    intro t ht
    rcases Token.Kind.closes_iff.mp (hcloses t ht) with hkind | hkind | ⟨name, argument, hkind⟩ <;>
      rw [hkind] <;> rfl
  have happend := Token.Stream.ofText_append hreturn hvalid hmatch rest
  rw [← firstLine_behind] at happend
  exact congrArg (State.ofStream · options.firstLine) happend

/-- Behind a text about which nothing is reported, and a line end, another text is read as by
itself, unless it begins with the alternative of a branch. -/
theorem texts_are_read_one_after_the_other (text rest : List Char) (options : Options)
    (hclean : (QoreSyntax.parse text options).2 = []) (hreturn : text.getLast? ≠ some '\r')
    (hbehind : (Token.Reader.ofText rest 1).next.1.kind ≠ .keyword .else) :
    let first := QoreSyntax.parse text options
    let second := QoreSyntax.parse ('\n' :: rest) (options.behind text)
    let both := QoreSyntax.parse (text ++ '\n' :: rest) options
    both.2 = second.2 ∧
      Node.shapes both.1.topLevel
        = Node.shapes first.1.topLevel ++ Node.shapes second.1.topLevel := by
  intro first second both
  let stream := Token.Stream.ofText ('\n' :: rest) (options.behind text).firstLine
  let behind := stream.behind (String.utf8Len text)
  have htext := Token.Stream.isEof_ofText_final text options.firstLine
  have hstream : stream.final.isEof = true := Token.Stream.isEof_ofText_final ('\n' :: rest) _
  have hkind : (behind.tokens.head?.getD behind.final).kind ≠ .keyword .else := by
    have hnext : stream.tokens.head?.getD stream.final
        = (Token.Reader.ofText ('\n' :: rest) _).next.1 := Token.Reader.head?_stream _
    rw [Token.Stream.head?_behind, hnext]
    rw [← Token.Reader.next_kind_lineEnd rest (options.behind text).firstLine 1] at hbehind
    exact hbehind
  obtain ⟨hfirst, hfirst'⟩ := script_eq options (s := start text options) htext
  obtain ⟨hsecond, hsecond'⟩ :=
    script_eq (options.behind text) (s := start ('\n' :: rest) (options.behind text)) hstream
  have hstart : both = script options (State.ofStream _ _) :=
    congrArg (script options) (start_append hclean hreturn rest)
  obtain ⟨hboth, hboth'⟩ := script_eq options (s := State.ofStream ⟨_, behind.final⟩ _) hstream
  obtain ⟨hreports, hshapes⟩ := statements_append options.limit options.firstLine
    (options.behind text).firstLine htext (show behind.final.isEof = true from hstream)
    (Token.twins_behind _ stream.tokens) (Token.twin_behind _ _) hkind (hfirst'.symm.trans hclean)
  rw [hstart]
  refine ⟨hboth'.trans (hreports.trans hsecond'.symm), ?_⟩
  have hfirst : first.1.topLevel = _ := hfirst
  have hsecond : second.1.topLevel = _ := hsecond
  rw [hboth, hfirst, hsecond]
  exact hshapes

/-- A text with a comment in its last line, and behind it one with a mistake. -/
theorem texts_are_read_one_after_the_other_broken :
    let first : List Char := ['f', '(', ')', ';', ' ', '#', ' ', 'x']
    let rest : List Char := ['g', '(', ';', ' ', 'h', '(', ')', ';']
    let options : Options := Options.standard
    let second := QoreSyntax.parse ('\n' :: rest) (options.behind first)
    let both := QoreSyntax.parse (first ++ '\n' :: rest) options
    second.2.length = 1 ∧ both.2 = second.2 ∧
      Node.shapes both.1.topLevel
        = Node.shapes (QoreSyntax.parse first options).1.topLevel
          ++ Node.shapes second.1.topLevel :=
  ⟨by decide +kernel, texts_are_read_one_after_the_other _ _ Options.standard (by decide +kernel)
    (by decide) (by decide +kernel)⟩

end Grammar

end QoreSyntax

import QoreSyntax.Proofs.Grammar.Simulation.Script
import QoreSyntax.Proofs.Token.Shift

namespace QoreSyntax

theorem Position.down_le_down {n : Nat} {p q : Position} : p.down n ≤ q.down n ↔ p ≤ q := by
  simp only [le_iff, down]
  omega

theorem Position.earlier_down (n : Nat) (p q : Position) :
    (p.down n).earlier (q.down n) = (p.earlier q).down n := by
  simp only [earlier, down_le_down]
  split_ifs <;> rfl

theorem Position.later_down (n : Nat) (p q : Position) :
    (p.down n).later (q.down n) = (p.later q).down n := by
  simp only [later, down_le_down]
  split_ifs <;> rfl

theorem Range.cover_down (n : Nat) (r s : Range) :
    (r.down n).cover (s.down n) = (r.cover s).down n := by
  rw [cover, cover, down, down, Position.earlier_down, Position.later_down]
  rfl

theorem Token.middle_down (n : Nat) (t : Token) : (t.down n).middle = t.middle.down n :=
  rfl

theorem Token.secondHalf_down (n : Nat) (t : Token) :
    (t.down n).secondHalf = t.secondHalf.down n :=
  rfl

namespace Node

mutual

/-- The tree `n` lines further down. -/
def down (n : Nat) : Node → Node
  | ⟨kind, range, payload, children⟩ => ⟨kind, range.down n, payload, downs n children⟩

def downs (n : Nat) : List Node → List Node
  | [] => []
  | node :: rest => node.down n :: downs n rest

end

theorem range_down (n : Nat) (node : Node) : (node.down n).range = node.range.down n := by
  cases node
  rfl

theorem name?_down (n : Nat) (node : Node) : (node.down n).name? = node.name? := by
  cases node
  rfl

theorem downs_eq_map (n : Nat) (nodes : List Node) : downs n nodes = nodes.map (down n) := by
  induction nodes with
  | nil => rfl
  | cons node rest ih => rw [downs, ih, List.map_cons]

theorem eq_downs {n : Nat} {nodes nodes' : List Node}
    (h : List.Forall₂ (fun node node' => node' = node.down n) nodes nodes') :
    nodes' = downs n nodes := by
  induction h with
  | nil => rfl
  | cons hnode _ ih => rw [downs, hnode, ih]

end Node

def Tree.down (n : Nat) (tree : Tree) : Tree :=
  ⟨tree.root?.map (Node.down n)⟩

def Diagnostic.down (n : Nat) (d : Diagnostic) : Diagnostic :=
  { d with range := d.range.down n }

namespace Grammar

def Mark.down (n : Nat) (m : Mark) : Mark :=
  { m with start := m.start.down n }

namespace State

/-- The same state of a parse `n` lines further down. -/
def down (n : Nat) (s : State) : State :=
  { s with
    pending := s.pending.map (Token.down n)
    final := s.final.down n
    previousEnd := s.previousEnd.down n
    reported := s.reported.map (Diagnostic.down n) }

theorem current_down (n : Nat) (s : State) : (s.down n).current = s.current.down n := by
  rw [current, current, down, List.head?_map]
  cases s.pending.head? <;> rfl

theorem mark_down (n : Nat) (s : State) : (s.down n).mark = s.mark.down n := by
  rw [mark, current_down]
  rfl

theorem advance_down (n : Nat) (s : State) : (s.down n).advance = s.advance.down n := by
  rcases hpending : s.pending with - | ⟨t, rest⟩
  · rw [advance_nil hpending, advance_nil (by rw [down, hpending]; rfl)]
  · have hdown : (s.down n).pending = t.down n :: rest.map (Token.down n) := by
      rw [down, hpending]
      rfl
    rw [advance_cons hpending, advance_cons hdown, LexicalError.ofToken?_down]
    cases LexicalError.ofToken? t <;> rfl

theorem splitShift_down (n : Nat) (s : State) : (s.down n).splitShift = s.splitShift.down n := by
  rcases hpending : s.pending with - | ⟨t, rest⟩
  · simp only [splitShift, down, hpending, List.map_nil]
  · simp only [splitShift, down, hpending, List.map_cons, Token.secondHalf_down, Token.middle_down]
    change (if (t.kind == .symbol .shr) = true then _ else _) = _
    split_ifs
    · rfl
    · rw [hpending]
      rfl

theorem report_down (problem : Problem) (n : Nat) (s : State) :
    (s.down n).report problem = (s.report problem).down n := by
  rw [report, report, current_down, LexicalError.ofToken?_down, Option.isSome_map]
  simp only [down, apply_ite (List.map (Diagnostic.down n))]
  rfl

theorem close_down (n : Nat) (s : State) (m : Mark) (kind : Node.Kind) (payload : Payload)
    (children : List Node) :
    (s.down n).close (m.down n) kind payload (Node.downs n children)
      = (s.close m kind payload children).down n := by
  have hown : (if (m.down n).consumed < (s.down n).consumed then
      (⟨(m.down n).start, (s.down n).previousEnd⟩ : Range) else .empty (s.down n).previousEnd)
      = (if m.consumed < s.consumed then ⟨m.start, s.previousEnd⟩
          else Range.empty s.previousEnd).down n := by
    change (if m.consumed < s.consumed then _ else _) = _
    split_ifs <;> rfl
  rw [close, close, Node.down, hown, Node.downs_eq_map, List.head?_map, List.getLast?_map]
  cases children.head? <;> cases children.getLast? <;>
    simp [Node.range_down, Range.cover_down]

theorem resembles_down (n : Nat) {s : State} (h : s.final.isEof = true) :
    s.Resembles (s.down n) := by
  refine resembles_of_alike ?_ h h rfl
  rw [down, List.forall₂_map_right_iff]
  exact List.forall₂_same.mpr fun _ _ => ⟨rfl, rfl⟩

end State

/-- A parse and the same parse `n` lines further down. -/
def downwards (n : Nat) : Simulation where
  Related s t := s.final.isEof = true ∧ t = s.down n
  Lost _ := False
  Marks m m' := m' = m.down n
  Nodes node node' := node' = node.down n
  offset := 0
  earlier := 0
  isTrail_lost := isTrail_false
  resembles h _ := h.2 ▸ State.resembles_down n h.1
  consumed_eq h := h.2 ▸ rfl
  reported_eq h := h.2 ▸ List.length_map _
  depth_eq h := h.2 ▸ rfl
  advance h _ := ⟨by rw [State.advance_final]; exact h.1, h.2 ▸ State.advance_down n _⟩
  splitShift h _ := ⟨by rw [(State.Reaches.splitShift _).final_eq]; exact h.1,
    h.2 ▸ State.splitShift_down n _⟩
  report problem _ _ h _ := Or.inr ⟨h.1, h.2 ▸ State.report_down problem n _⟩
  resume h := ⟨h.1, h.2 ▸ rfl⟩
  nest _ _ _ h := ⟨h.1, h.2 ▸ rfl⟩
  mark h _ := h.2 ▸ State.mark_down n _
  close kind payload h hm hnodes := by
    rw [h.2, hm, Node.eq_downs hnodes, State.close_down]
  placeholder _ h := h.2 ▸ rfl
  name?_eq h := h ▸ Node.name?_down n _

theorem start_down (text : List Char) (options : Options) :
    start text options
      = (start text { options with startLine := 1 }).down (options.firstLine - 1) := by
  have hline : 1 ≤ options.firstLine := Nat.le_max_right _ _
  rw [start, Token.Stream.ofText_down text hline, start]
  simp only [State.ofStream, State.down, Token.Stream.down, Position.down, List.map_nil]
  have hfirst : Options.firstLine { options with startLine := 1 } = 1 := rfl
  rw [hfirst, Nat.add_sub_cancel' hline]

theorem diagnostics_down (n : Nat) (s : State) :
    (s.down n).diagnostics = s.diagnostics.map (Diagnostic.down n) :=
  List.map_reverse.symm

theorem script_down (options : Options) {s : State} (hfinal : s.final.isEof = true) :
    let first := script { options with startLine := 1 } s
    script options (s.down (options.firstLine - 1))
      = (first.1.down (options.firstLine - 1),
          first.2.map (Diagnostic.down (options.firstLine - 1))) := by
  intro first
  have hend : (s.down (options.firstLine - 1)).isAtEnd = s.isAtEnd :=
    (State.resembles_down _ hfinal).isAtEnd
  simp only [first, script, hend]
  split_ifs
  · rw [diagnostics_down]
    rfl
  · have hlimit : Options.limit { options with startLine := 1 } = options.limit := rfl
    have hfirst : Options.firstLine { options with startLine := 1 } = 1 := rfl
    have hline : 1 ≤ options.firstLine := Nat.le_max_right _ _
    rcases (downwards (options.firstLine - 1)).outcome_statements options.limit
      ⟨hfinal, rfl⟩ with hlost | ⟨hitems, -, hafter⟩
    · exact hlost.elim
    · rw [hafter, Node.eq_downs hitems, hlimit, hfirst, diagnostics_down, State.current_down]
      simp [Tree.down, Node.down, Range.down, Position.down, Token.down,
        Nat.add_sub_cancel' hline]

/-- A text is parsed in the same way whatever the number of its first line is. -/
theorem parse_moves_with_start_line (text : List Char) (options : Options) :
    let first := QoreSyntax.parse text { options with startLine := 1 }
    let lines := max options.startLine 1 - 1
    QoreSyntax.parse text options
      = (first.1.down lines, first.2.map (Diagnostic.down lines)) := by
  intro first lines
  rw [QoreSyntax.parse, start_down]
  exact script_down options (Token.Stream.isEof_ofText_final text 1)

end Grammar

end QoreSyntax

import QoreSyntax.Proofs.Grammar.Account.Script
import QoreSyntax.Proofs.Grammar.Iteration
import QoreSyntax.Proofs.Grammar.Report
import QoreSyntax.Proofs.Node.Preorder

/-!
Mistakes in the tree and mistakes reported. Not every node that stands for a mistake comes with a
report of its own: reports are dropped while the parse is recovering and at a token at fault. But
then a report has been made before, or is made when that token is taken.
-/

namespace QoreSyntax.Grammar

open Node

namespace State

/-- A report has been made, or will be when the tokens ahead are taken. -/
def Blamed (s : State) : Prop :=
  s.reported ≠ [] ∨ s.lexicalReports ≠ []

theorem not_blamed_of_isAtEnd {s : State} (hend : s.isAtEnd = true) (h : s.diagnostics = []) :
    ¬s.Blamed := by
  have hlexical : s.lexicalReports = [] := by
    rw [lexicalReports, h, isAtEnd_iff.mp hend]
    rfl
  rintro (hreported | hreports)
  · exact hreported (List.reverse_eq_nil_iff.mp h)
  · exact hreports hlexical

/-- A token at fault is blamed even before it is taken. -/
theorem blamed_of_current {s : State} (hfinal : s.final.isEof = true)
    (h : LexicalError.ofToken? s.current ≠ none) : s.Blamed := by
  rcases hpending : s.pending with - | ⟨t, rest⟩
  · have hkind : s.current.kind = .eof := by
      rw [current, hpending]
      exact eq_of_beq hfinal
    exact absurd (by rw [LexicalError.ofToken?, hkind]) h
  · have hcurrent : s.current = t := by
      rw [current, hpending]
      rfl
    obtain ⟨error, herror⟩ := Option.ne_none_iff_exists'.mp (hcurrent ▸ h)
    right
    rw [lexicalReports, hpending, List.filterMap_cons_some herror]
    simp

/-- Reports are dropped only if there is one. -/
structure Honest (s : State) : Prop where
  isEof_final : s.final.isEof = true
  blamed (h : s.recovering = true) : s.Blamed

theorem reported_report_ne_nil {s : State} (problem : Problem) (h : s.reported ≠ []) :
    (s.report problem).reported ≠ [] := by
  rw [report]
  dsimp only
  split_ifs
  · exact h
  · exact List.cons_ne_nil _ _

/-- A report is made, unless there is a reason to drop it. -/
theorem Honest.blamed_report {s : State} (h : s.Honest) (problem : Problem) :
    (s.report problem).Blamed := by
  by_cases hdropped : s.recovering = true ∨ LexicalError.ofToken? s.current ≠ none
  · have hblamed : s.Blamed := hdropped.elim h.blamed (blamed_of_current h.isEof_final)
    exact hblamed.imp (reported_report_ne_nil problem) fun hne =>
      (lexicalReports_report problem s).symm ▸ hne
  · left
    rw [report]
    dsimp only
    rw [if_neg (by simpa [Option.isSome_iff_ne_none] using hdropped)]
    exact List.cons_ne_nil _ _

/-- What has been blamed stays so. -/
structure Upholds (s t : State) : Prop where
  reaches : s.Reaches t
  honest : t.Honest
  blamed (h : s.Blamed) : t.Blamed

namespace Upholds

theorem refl {s : State} (h : s.Honest) : s.Upholds s :=
  ⟨Reaches.refl s, h, id⟩

theorem trans {s t u : State} (hst : s.Upholds t) (htu : t.Upholds u) : s.Upholds u :=
  ⟨hst.reaches.trans htu.reaches, htu.honest, fun h => htu.blamed (hst.blamed h)⟩

/-- What matters is that no report is taken back, and that there is a reason to recover. -/
theorem of_reported {s t : State} (h : s.Honest) (hreaches : s.Reaches t)
    (hlexical : t.lexicalReports = s.lexicalReports)
    (hreported : s.reported ≠ [] → t.reported ≠ [])
    (hrecovering : t.recovering = true → s.recovering = true ∨ t.Blamed) : s.Upholds t := by
  have hblamed : s.Blamed → t.Blamed := Or.imp hreported fun hne => hlexical ▸ hne
  refine ⟨hreaches, ⟨hreaches.final_eq ▸ h.isEof_final, fun ht => ?_⟩, hblamed⟩
  rcases hrecovering ht with hs | hb
  · exact hblamed (h.blamed hs)
  · exact hb

theorem advance {s : State} (h : s.Honest) : s.Upholds s.advance := by
  rcases hpending : s.pending with - | ⟨t, rest⟩
  · rw [advance_nil hpending]
    exact refl h
  · have hreported := advance_reported hpending
    have hrecovering := congrArg State.recovering (advance_cons hpending)
    refine of_reported h (Reaches.advance s) (lexicalReports_advance s) ?_ ?_
    · intro hne
      rw [hreported]
      exact List.append_ne_nil_of_right_ne_nil _ hne
    · intro hafter
      rw [hrecovering, Bool.or_eq_true, Option.isSome_iff_exists] at hafter
      refine hafter.imp_right ?_
      rintro ⟨error, herror⟩
      left
      rw [hreported, herror]
      exact List.cons_ne_nil _ _

theorem splitShift {s : State} (h : s.Honest) : s.Upholds s.splitShift := by
  have hsame : s.splitShift.reported = s.reported ∧ s.splitShift.recovering = s.recovering := by
    rcases splitShift_cases s with ⟨t, rest, hpending, hshr⟩ | hsame
    · rw [splitShift_of_shr hpending hshr]
      exact ⟨rfl, rfl⟩
    · rw [hsame]
      exact ⟨rfl, rfl⟩
  refine of_reported h (Reaches.splitShift s) (lexicalReports_splitShift s) ?_ ?_
  · rw [hsame.1]
    exact id
  · rw [hsame.2]
    exact Or.inl

theorem report {s : State} (h : s.Honest) (problem : Problem) : s.Upholds (s.report problem) :=
  of_reported h (Reaches.report problem s) (lexicalReports_report problem s)
    (reported_report_ne_nil problem) fun _ => Or.inr (h.blamed_report problem)

end Upholds

theorem isTrail_upholds : IsTrail fun s t => s.Honest → s.Upholds t where
  refl _ h := Upholds.refl h
  trans hst htu h := (hst h).trans (htu (hst h).honest)
  advance _ h := Upholds.advance h
  splitShift _ h := Upholds.splitShift h
  report problem _ h := Upholds.report h problem
  resume s h := Upholds.of_reported h (Reaches.resume s) (lexicalReports_of_same rfl rfl) id nofun
  nest depth s h :=
    Upholds.of_reported h (Reaches.nest depth s) (lexicalReports_of_same rfl rfl) id Or.inl

theorem honest_start (text : List Char) (options : Options) : (start text options).Honest :=
  ⟨Token.Stream.isEof_ofText_final text options.firstLine, nofun⟩

end State

/-- A node that stands for a mistake has been made only with something to blame, and one for what is
missing has no text and no children. -/
structure Answers (s : State) (node : Node) : Prop where
  blamed (h : node.kind.isRecovery = true) : s.Blamed
  missing (h : node.kind = .missing) : node.range.start = node.range.stop ∧ node.children = []

/-- All nodes that have been read from the state `o` to the state `s` are answered for. -/
structure Answered (o : State) (nodes : List Node) (s : State) : Prop where
  upholds : o.Upholds s
  answers : ∀ node ∈ preorders nodes, Answers s node

namespace Answered

variable {o s t : State} {nodes more : List Node}

theorem nil (h : o.Honest) : Answered o [] o :=
  ⟨State.Upholds.refl h, fun _ hmem => absurd hmem List.not_mem_nil⟩

theorem extend (h : Answered o nodes s) (hst : s.Upholds t) : Answered o nodes t :=
  ⟨h.upholds.trans hst, fun node hmem =>
    ⟨fun hkind => hst.blamed ((h.answers node hmem).blamed hkind), (h.answers node hmem).missing⟩⟩

theorem append (h : Answered o nodes s) (hmore : Answered s more t) :
    Answered o (nodes ++ more) t := by
  refine ⟨h.upholds.trans hmore.upholds, fun node hmem => ?_⟩
  rw [preorders_append, List.mem_append] at hmem
  rcases hmem with hmem | hmem
  · exact (h.extend hmore.upholds).answers node hmem
  · exact hmore.answers node hmem

theorem of_append (h : Answered o (nodes ++ more) s) : Answered o nodes s := by
  refine ⟨h.upholds, fun node hmem => h.answers node ?_⟩
  rw [preorders_append]
  exact List.mem_append_left _ hmem

/-- A node that takes others in has to be answered for itself. -/
theorem singleton {node : Node} (h : Answered o node.children s) (hnode : Answers s node) :
    Answered o [node] s := by
  refine ⟨h.upholds, fun below hmem => ?_⟩
  rw [preorders_cons, preorders_nil, List.append_nil, preorder_eq] at hmem
  rcases List.mem_cons.mp hmem with rfl | hmem
  · exact hnode
  · exact h.answers below hmem

theorem close {kind : Node.Kind} (payload : Payload) (h : Answered o nodes s)
    (hkind : kind.isRecovery = true → kind = .error ∧ s.Blamed) :
    Answered o [s.close o.mark kind payload nodes] s := by
  refine singleton h ⟨fun hrecovery => (hkind hrecovery).2, ?_⟩
  rintro (rfl : kind = .missing)
  cases (hkind rfl).1

theorem close_missing (payload : Payload) (h : Answered o [] s)
    (hconsumed : s.consumed = o.consumed) (hblamed : s.Blamed) :
    Answered o [s.close o.mark .missing payload []] s := by
  refine singleton h ⟨fun _ => hblamed, fun _ => ⟨?_, rfl⟩⟩
  have hrange : (s.close o.mark .missing payload []).range = Range.empty s.previousEnd :=
    if_neg (by rw [State.mark, hconsumed]; exact Nat.lt_irrefl _)
  rw [hrange]
  rfl

theorem placeholder (kind : Node.Kind) (h : Answered o nodes s)
    (hkind : kind.isRecovery = true → s.Blamed) :
    Answered o (nodes ++ [s.placeholder kind]) s :=
  h.append (singleton (nil h.upholds.honest) ⟨hkind, fun _ => ⟨rfl, rfl⟩⟩)

/-- Nodes that stand for mistakes are on the account of what is blamed. -/
def account : Account where
  Ready := State.Honest
  Follows := State.Upholds
  Excuses := State.Blamed
  Names _ := True
  Holds := Answered
  isTrail := State.isTrail_upholds
  ready := State.Upholds.honest
  excuses_follows h hst := hst.blamed h
  excuses_report problem _ h := h.blamed_report problem
  excuses_invalid h hkind := State.blamed_of_current h.isEof_final (by
    rw [LexicalError.ofToken?, ← State.kind, hkind]
    exact Option.some_ne_none _)
  names_scoped _ _ _ _ := trivial
  names_conversion _ _ _ _ := trivial
  nil := nil
  follows := upholds
  extend := extend
  append := append
  of_append := of_append
  close payload h hkind _ := close payload h hkind
  close_missing := close_missing
  placeholder kind h hkind _ := placeholder kind h hkind

end Answered

/-- The nodes of the tree are answered for at the end of the text, where nothing can be blamed but a
report that has been made. -/
theorem answers_of_mem_parse (text : List Char) (options : Options) :
    ∃ s : State, (QoreSyntax.parse text options).2 = s.diagnostics ∧ s.isAtEnd = true ∧
      ∀ node ∈ (QoreSyntax.parse text options).1.walk, Answers s node := by
  have hstart := State.honest_start text options
  rw [QoreSyntax.parse, script]
  split_ifs with hend
  · exact ⟨_, rfl, hend, fun node hmem => absurd hmem List.not_mem_nil⟩
  · have hanswered := Answered.account.holds_statements options.limit hstart
    have hafter := Parser.ensures_sequence_endOfInput (onlyTakes_parse options.limit options.limit)
      statement _ hstart.isEof_final
    refine ⟨_, rfl, hafter, fun node hmem => ?_⟩
    change node ∈ Node.walk _ at hmem
    rw [walk_eq_preorder, preorder_eq] at hmem
    rcases List.mem_cons.mp hmem with rfl | hmem
    · constructor <;> intro hkind <;> cases hkind
    · exact hanswered.answers node hmem

/-- A text without a report has a tree in which no node stands for a mistake, and in any tree a node
for what is missing has no text and no children. -/
theorem mistakes_are_reported (text : List Char) (options : Options) :
    let (tree, diagnostics) := QoreSyntax.parse text options
    (diagnostics = [] → ∀ node ∈ tree.walk, node.kind.isRecovery = false) ∧
      ∀ node ∈ tree.walk, node.kind = .missing →
        node.range.start = node.range.stop ∧ node.children = [] := by
  obtain ⟨s, hdiagnostics, hend, hanswers⟩ := answers_of_mem_parse text options
  refine ⟨fun hclean node hmem => ?_, fun node hmem => (hanswers node hmem).missing⟩
  rw [Bool.eq_false_iff]
  intro hrecovery
  exact State.not_blamed_of_isAtEnd hend (hdiagnostics ▸ hclean)
    ((hanswers node hmem).blamed hrecovery)

end QoreSyntax.Grammar

import QoreSyntax.Proofs.Grammar.Account
import QoreSyntax.Proofs.Grammar.Order
import QoreSyntax.Proofs.Tree.Enclosure

namespace QoreSyntax.Grammar

open Node

/-- The nodes stand one after the other in the text that is taken from the state `o` to the
state `s`. -/
structure Spans (o : State) (nodes : List Node) (s : State) : Prop where
  ordered : o.Ordered
  before : o.Before s
  placed : WellPlaced nodes o.previousEnd s.previousEnd

namespace Spans

variable {o s t : State} {nodes : List Node}

theorem nil (h : o.Ordered) : Spans o [] o :=
  ⟨h, State.Before.refl h, le_rfl⟩

theorem append {more : List Node} (h : Spans o nodes s) (hmore : Spans s more t) :
    Spans o (nodes ++ more) t :=
  ⟨h.ordered, h.before.trans hmore.before, h.placed.append hmore.placed⟩

/-- Text without a node may follow. -/
theorem extend (h : Spans o nodes s) (hst : s.Before t) : Spans o nodes t :=
  ⟨h.ordered, h.before.trans hst, h.placed.widen le_rfl hst.previousEnd_le⟩

/-- The last nodes may be left out. -/
theorem of_append {more : List Node} (h : Spans o (nodes ++ more) s) : Spans o nodes s := by
  obtain ⟨q, hnodes, hmore⟩ := h.placed.of_append
  exact ⟨h.ordered, h.before, hnodes.widen le_rfl hmore.le⟩

end Spans

namespace State

/-- The text that a node has taken itself. -/
def own (s : State) (m : Mark) : Range :=
  if m.consumed < s.consumed then ⟨m.start, s.previousEnd⟩ else Range.empty s.previousEnd

theorem close_childless (s : State) (m : Mark) (kind : Node.Kind) (payload : Payload) :
    s.close m kind payload [] = ⟨kind, s.own m, payload, []⟩ :=
  rfl

theorem close_range {s : State} {m : Mark} {kind : Node.Kind} {payload : Payload}
    {children : List Node} {first last : Node} (hfirst : children.head? = some first)
    (hlast : children.getLast? = some last) :
    (s.close m kind payload children).range = ((s.own m).cover first.range).cover last.range := by
  simp only [close, hfirst, hlast, own]

theorem Before.own_bounds {o s : State} (ho : o.Ordered) (h : o.Before s) :
    o.previousEnd ≤ (s.own o.mark).start ∧ (s.own o.mark).start ≤ (s.own o.mark).stop ∧
      (s.own o.mark).stop = s.previousEnd := by
  rw [own]
  split_ifs with hconsumed
  · exact ⟨ho.previousEnd_le, h.start_le hconsumed, rfl⟩
  · exact ⟨h.previousEnd_le, le_rfl, rfl⟩

end State

/-- A node takes in the nodes that have been read since its mark. -/
theorem Spans.close {o s : State} {children : List Node} (h : Spans o children s)
    (kind : Node.Kind) (payload : Payload) :
    Spans o [s.close o.mark kind payload children] s := by
  obtain ⟨hstart, hle, hstop⟩ := h.before.own_bounds h.ordered
  refine ⟨h.ordered, h.before, ?_⟩
  rw [wellPlaced_singleton, wellFormed_iff]
  rcases children with - | ⟨first, rest⟩
  · rw [State.close_childless]
    exact ⟨hstart, ⟨hle, hle⟩, hstop.le⟩
  · obtain ⟨last, hlast⟩ : ∃ last, (first :: rest).getLast? = some last :=
      ⟨_, List.getLast?_cons⟩
    obtain ⟨hfirst, -, -⟩ := h.placed.mem List.mem_cons_self
    obtain ⟨hbehind, -, hinside⟩ := h.placed.mem (List.mem_of_getLast? hlast)
    have hchildren : (s.close o.mark kind payload (first :: rest)).children = first :: rest := rfl
    rw [hchildren, State.close_range rfl hlast]
    refine ⟨?_, ⟨?_, ?_⟩, ?_⟩
    · exact Position.le_earlier (Position.le_earlier hstart hfirst) hbehind
    · exact (Position.earlier_le_left _ _).trans ((Position.earlier_le_left _ _).trans
        (hle.trans ((Position.le_later_left _ _).trans (Position.le_later_left _ _))))
    · apply h.placed.narrow hlast
      · exact (Position.earlier_le_left _ _).trans (Position.earlier_le_right _ _)
      · exact Position.le_later_right _ _
    · refine Position.later_le (Position.later_le hstop.le ?_) hinside
      exact (h.placed.mem List.mem_cons_self).2.2

/-- A node without text stands behind the nodes that have been read. -/
theorem Spans.placeholder {o s : State} {nodes : List Node} (h : Spans o nodes s)
    (kind : Node.Kind) : Spans o (nodes ++ [s.placeholder kind]) s := by
  refine ⟨h.ordered, h.before, h.placed.append ?_⟩
  exact ⟨le_rfl, ⟨le_rfl, le_rfl⟩, le_rfl⟩

/-- Nodes stand where the account of their places says. -/
def Spans.account : Account where
  Ready := State.Ordered
  Follows := State.Before
  Excuses _ := True
  Names _ := True
  Holds := Spans
  isTrail := State.isTrail_before
  ready := State.Before.ordered
  excuses_follows _ _ := trivial
  excuses_report _ _ _ := trivial
  excuses_invalid _ _ := trivial
  names_scoped _ _ _ _ := trivial
  names_conversion _ _ _ _ := trivial
  nil := Spans.nil
  follows := Spans.before
  extend := Spans.extend
  append := Spans.append
  of_append := Spans.of_append
  close payload h _ _ := h.close _ payload
  close_missing payload h _ _ := h.close .missing payload
  placeholder kind h _ _ := h.placeholder kind

end QoreSyntax.Grammar

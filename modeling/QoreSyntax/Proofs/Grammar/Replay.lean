import QoreSyntax.Proofs.Grammar.Simulation.Script
import QoreSyntax.Proofs.Node.Shape

namespace QoreSyntax

/-- The tokens are the same and stand at the same place, but for the bytes before them. -/
structure Token.Twin (t u : Token) : Prop extends t.Alike u where
  range_eq : u.range = t.range

theorem Token.Twin.ofToken?_eq {t u : Token} (h : t.Twin u) :
    LexicalError.ofToken? u = LexicalError.ofToken? t := by
  rw [LexicalError.ofToken?, LexicalError.ofToken?, h.kind_eq, h.range_eq]

theorem Token.Twin.secondHalf {t u : Token} (h : t.Twin u) : t.secondHalf.Twin u.secondHalf := by
  refine ⟨⟨rfl, rfl⟩, ?_⟩
  rw [Token.secondHalf, Token.secondHalf, Token.middle, Token.middle, h.range_eq]

namespace Node

theorem shape_eq (node : Node) : node.shape = ⟨node.kind, node.payload, shapes node.children⟩ := by
  cases node
  rfl

theorem name?_of_shape {node node' : Node} (h : node'.shape = node.shape) :
    node'.name? = node.name? := by
  rw [shape_eq, shape_eq, Shape.mk.injEq] at h
  rw [name?, name?, h.2.1]

theorem shapes_of_forall₂ {nodes nodes' : List Node}
    (h : List.Forall₂ (fun node node' => node'.shape = node.shape) nodes nodes') :
    shapes nodes' = shapes nodes := by
  induction h with
  | nil => rfl
  | cons hnode _ ih => rw [shapes, shapes, hnode, ih]

end Node

namespace Grammar

namespace State

/-- The second parse has taken `before` tokens more than the first one, and is to take the same. -/
structure Repeats (before : Nat) (s t : State) : Prop where
  pending : List.Forall₂ Token.Twin s.pending t.pending
  isEof_final : s.final.isEof = true
  final : s.final.Twin t.final
  consumed_eq : t.consumed = s.consumed + before
  reported_eq : t.reported = s.reported
  recovering_eq : t.recovering = s.recovering
  depth_eq : t.depth = s.depth

namespace Repeats

variable {before : Nat} {s t : State} (h : s.Repeats before t)
include h

theorem current : s.current.Twin t.current := by
  have hpending := h.pending
  rw [State.current, State.current]
  generalize s.pending = tokens at hpending ⊢
  generalize t.pending = tokens' at hpending ⊢
  cases hpending with
  | nil => exact h.final
  | cons htoken _ => exact htoken

theorem resembles : s.Resembles t := by
  refine resembles_of_alike (h.pending.imp fun _ _ htoken => htoken.toAlike) h.isEof_final ?_
    h.recovering_eq
  rw [Token.isEof, h.final.kind_eq]
  exact h.isEof_final

theorem advance : s.advance.Repeats before t.advance := by
  rcases hs : s.pending with - | ⟨u, tokens⟩
  · have ht : t.pending = [] := by
      have hpending := h.pending
      rw [hs] at hpending
      exact List.forall₂_nil_left_iff.mp hpending
    rwa [advance_nil hs, advance_nil ht]
  · have hpending := h.pending
    rw [hs] at hpending
    obtain ⟨v, tokens', htoken, htokens, ht⟩ := List.forall₂_cons_left_iff.mp hpending
    rw [advance_cons hs, advance_cons ht, htoken.ofToken?_eq]
    exact
      { pending := htokens
        isEof_final := h.isEof_final
        final := h.final
        consumed_eq := by
          dsimp only
          rw [h.consumed_eq, Nat.add_right_comm]
        reported_eq := by
          dsimp only
          rw [h.reported_eq]
        recovering_eq := by
          dsimp only
          rw [h.recovering_eq]
        depth_eq := h.depth_eq }

theorem splitShift : s.splitShift.Repeats before t.splitShift := by
  rcases hs : s.pending with - | ⟨u, tokens⟩
  · have ht : t.pending = [] := by
      have hpending := h.pending
      rw [hs] at hpending
      exact List.forall₂_nil_left_iff.mp hpending
    rwa [State.splitShift, State.splitShift, hs, ht]
  · have hpending := h.pending
    rw [hs] at hpending
    obtain ⟨v, tokens', htoken, htokens, ht⟩ := List.forall₂_cons_left_iff.mp hpending
    rw [State.splitShift, State.splitShift, hs, ht]
    dsimp only
    rw [htoken.kind_eq]
    split_ifs
    · exact
        { h with
          pending := .cons htoken.secondHalf htokens
          consumed_eq := by
            dsimp only
            rw [h.consumed_eq, Nat.add_right_comm] }
    · exact h

theorem report (problem : Problem) : (s.report problem).Repeats before (t.report problem) := by
  refine { h with reported_eq := ?_, recovering_eq := rfl }
  rw [State.report, State.report, h.recovering_eq, h.current.ofToken?_eq, h.current.range_eq,
    h.reported_eq]

end Repeats

end State

/-- Two parses of texts that go on in the same way. -/
def replay (before : Nat) : Simulation where
  Related := State.Repeats before
  Lost _ := False
  Marks _ _ := True
  Nodes node node' := node'.shape = node.shape
  offset := before
  earlier := 0
  isTrail_lost := isTrail_false
  resembles h _ := h.resembles
  consumed_eq h := h.consumed_eq
  reported_eq h := congrArg List.length h.reported_eq
  depth_eq h := h.depth_eq
  advance h _ := h.advance
  splitShift h _ := h.splitShift
  report problem _ _ h _ := Or.inr (h.report problem)
  resume h := { h with recovering_eq := rfl }
  nest _ _ _ h := { h with depth_eq := rfl }
  mark _ _ := trivial
  close kind payload _ _ hnodes := by
    rw [Node.shape_eq, Node.shape_eq]
    exact congrArg (Node.Shape.mk kind payload) (Node.shapes_of_forall₂ hnodes)
  placeholder _ _ := rfl
  name?_eq h := Node.name?_of_shape h

end Grammar

end QoreSyntax

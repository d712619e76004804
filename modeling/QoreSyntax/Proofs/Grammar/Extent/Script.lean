import QoreSyntax.Proofs.Grammar.Account.Script
import QoreSyntax.Proofs.Grammar.Extent

namespace QoreSyntax

namespace Node

/-- What the check of a tree promises about each of its nodes. -/
structure IsOrderly (node : Node) : Prop where
  start_le_stop : node.range.start ≤ node.range.stop
  encloses : ∀ child ∈ node.children, node.range.encloses child.range = true
  pairwise : node.children.Pairwise fun left right => left.range.stop ≤ right.range.start

theorem WellFormed.isOrderly {node : Node} (h : node.WellFormed) : node.IsOrderly where
  start_le_stop := h.start_le_stop
  encloses _ hmem :=
    Range.encloses_iff.mpr ⟨(h.children.mem hmem).1, (h.children.mem hmem).2.2⟩
  pairwise := h.children.pairwise

end Node

/-- The tree passes the check, and its nodes are as the check promises. -/
structure Tree.IsOrderly (tree : Tree) : Prop where
  isWellFormed : tree.isWellFormed = true
  nodes : ∀ node ∈ tree.walk, node.IsOrderly

theorem Node.WellFormed.isOrderly_tree {root : Node} (h : root.WellFormed) :
    (⟨some root⟩ : Tree).IsOrderly := by
  refine ⟨Tree.isWellFormed_iff.mpr h, fun node hmem => ?_⟩
  have hwalk : (⟨some root⟩ : Tree).walk = root.preorder := walk_eq_preorder root
  rw [hwalk] at hmem
  exact (h.mem_preorder root node hmem).1.isOrderly

theorem Tree.isOrderly_empty : Tree.empty.IsOrderly :=
  ⟨Tree.isWellFormed_empty, fun _ hmem => by cases hmem⟩

namespace Grammar

open Node

theorem wellFormed_of_mem_expressions (limit count : Nat) {s : State} (hs : s.Ordered) :
    ∀ node ∈ (expressions limit count s).1, node.WellFormed := by
  induction count generalizing s with
  | zero =>
      intro node hmem
      cases hmem
  | succ count ih =>
      have hfirst : Spans s _ _ := Spans.account.sound_parse limit limit (.expression 0) s hs
      intro node hmem
      rcases List.mem_cons.mp hmem with rfl | hmem
      · exact (hfirst.placed.mem List.mem_cons_self).2.1
      · exact ih hfirst.before.ordered node hmem

/-- The root reaches from the beginning of the text to the end marker. -/
theorem isOrderly_script (options : Options) {s : State} (hs : s.Ordered)
    (hstart : ⟨options.firstLine, 1⟩ ≤ s.previousEnd) : (script options s).1.IsOrderly := by
  rw [script]
  split_ifs
  · exact Tree.isOrderly_empty
  · have hspans : Spans s _ _ := Spans.account.holds_statements options.limit hs
    have hplaced := hspans.placed.widen hstart hspans.before.ordered.previousEnd_le
    exact WellFormed.isOrderly_tree ⟨hplaced.le, hplaced⟩

/-- The tree of a text is orderly, and so is what is read from it in pieces: any number of
expressions, and the statements after them. -/
theorem parsed_trees_are_orderly (text : List Char) (options : Options) (count : Nat) :
    let (nodes, s) := expressions options.limit count (start text options)
    ∀ tree ∈ (QoreSyntax.parse text options).1 :: (script options s).1 ::
      nodes.map (fun node => ⟨some node⟩), tree.IsOrderly := by
  have hordered := State.ordered_start text options
  have hbefore := State.isTrail_before.expressions options.limit count _ hordered
  simp only [List.mem_cons, List.mem_map]
  rintro tree (rfl | rfl | ⟨node, hmem, rfl⟩)
  · exact isOrderly_script options hordered le_rfl
  · exact isOrderly_script options hbefore.ordered hbefore.previousEnd_le
  · exact (wellFormed_of_mem_expressions _ count hordered node hmem).isOrderly_tree

end Grammar

end QoreSyntax

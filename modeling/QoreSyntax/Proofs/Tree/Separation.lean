import QoreSyntax.Proofs.Tree.Traversal

/-!
What the check of a tree says about nodes that are far apart. It compares nodes with their children
and neighbours only; along the way from one node to another this adds up, so that a node encloses
all that lies below it, and of two nodes on different branches the left one ends before the right
one starts.
-/

namespace QoreSyntax

namespace Node

namespace Visit

/-- If the nodes are on different branches, the first one ends before the second one starts. -/
def IsApart (first second : Visit) : Prop :=
  ¬first.IsAbove second → ¬second.IsAbove first →
    first.node.range.stop ≤ second.node.range.start

theorem isAbove_under {i : Nat} {upper lower : Visit} :
    (upper.under i).IsAbove (lower.under i) ↔ upper.IsAbove lower := by
  simp only [IsAbove, under, List.cons_prefix_cons, true_and, ne_eq, List.cons.injEq]

theorem isApart_under {i : Nat} {first second : Visit} :
    (first.under i).IsApart (second.under i) ↔ first.IsApart second := by
  simp only [IsApart, isAbove_under]
  rfl

theorem not_isAbove_of_ne {i j : Nat} (h : i ≠ j) (first second : Visit) :
    ¬(first.under i).IsAbove (second.under j) :=
  fun habove => h (List.cons_prefix_cons.mp habove.1).1

theorem isAbove_nil {visit : Visit} (node : Node) (h : visit.address ≠ []) :
    IsAbove ⟨[], node⟩ visit :=
  ⟨List.nil_prefix, h.symm⟩

theorem address_ne_nil_of_mem {visit : Visit} {i : Nat} {nodes : List Node}
    (h : visit ∈ visitsFrom i nodes) : visit.address ≠ [] := by
  obtain ⟨j, node, -, inner, -, rfl⟩ := mem_visitsFrom.mp h
  exact List.cons_ne_nil _ _

end Visit

open Visit

theorem mem_preorder_of_mem_visits {root : Node} {visit : Visit} (h : visit ∈ root.visits) :
    visit.node ∈ root.preorder :=
  map_node_visits root ▸ List.mem_map_of_mem h

theorem mem_preorders_of_mem_visitsFrom {i : Nat} {nodes : List Node} {visit : Visit}
    (h : visit ∈ visitsFrom i nodes) : visit.node ∈ preorders nodes :=
  map_node_visitsFrom i nodes ▸ List.mem_map_of_mem h

/-- What lies below a node of a well-formed tree is enclosed by it. -/
theorem WellFormed.encloses_of_isAbove {root : Node} (h : root.WellFormed) {upper lower : Visit}
    (hupper : upper ∈ root.visits) (hlower : lower ∈ root.visits) (habove : upper.IsAbove lower) :
    upper.node.range.encloses lower.node.range = true := by
  obtain ⟨more, hmore⟩ := habove.1
  have hbelow : ⟨more, lower.node⟩ ∈ upper.node.visits := by
    have hfound := mem_visits_iff.mp hlower
    rw [← hmore, descendant?_append, mem_visits_iff.mp hupper] at hfound
    exact mem_visits_iff.mpr hfound
  have hformed := (h.mem_preorder root _ (mem_preorder_of_mem_visits hupper)).1
  exact Range.encloses_iff.mpr
    (hformed.mem_preorder _ _ (mem_preorder_of_mem_visits hbelow)).2

mutual

theorem WellFormed.pairwise_isApart : (root : Node) → root.WellFormed →
    root.visits.Pairwise IsApart
  | ⟨_, _, _, children⟩, h => by
      refine List.pairwise_cons.mpr ⟨fun visit hvisit hnot => ?_,
        WellPlaced.pairwise_isApart 0 children h.children⟩
      exact absurd (isAbove_nil _ (address_ne_nil_of_mem hvisit)) hnot

theorem WellPlaced.pairwise_isApart (i : Nat) : (nodes : List Node) → {p q : Position} →
    WellPlaced nodes p q → (visitsFrom i nodes).Pairwise IsApart
  | [], _, _, _ => List.Pairwise.nil
  | node :: rest, p, q, ⟨_, hnode, hrest⟩ => by
      refine List.pairwise_append.mpr ⟨?_, WellPlaced.pairwise_isApart (i + 1) rest hrest, ?_⟩
      · refine List.pairwise_map.mpr ((WellFormed.pairwise_isApart node hnode).imp ?_)
        exact isApart_under.mpr
      · intro first hfirst second hsecond _ _
        obtain ⟨inner, hinner, rfl⟩ := List.mem_map.mp hfirst
        have hleft := (hnode.mem_preorder node _ (mem_preorder_of_mem_visits hinner)).2.2
        have hright :=
          (hrest.mem_preorders rest _ (mem_preorders_of_mem_visitsFrom hsecond)).2.1
        exact hleft.trans hright

end

/-- No range ends before it starts, each node encloses those below it, and other nodes are apart. -/
structure AreSeparate (visits : List Visit) : Prop where
  start_le_stop : ∀ visit ∈ visits, visit.node.range.start ≤ visit.node.range.stop
  encloses : ∀ upper ∈ visits, ∀ lower ∈ visits, upper.IsAbove lower →
    upper.node.range.encloses lower.node.range = true
  pairwise : visits.Pairwise IsApart

namespace AreSeparate

theorem sublist {visits others : List Visit} (h : AreSeparate visits)
    (hsub : others.Sublist visits) : AreSeparate others where
  start_le_stop visit hvisit := h.start_le_stop visit (hsub.mem hvisit)
  encloses upper hupper lower hlower := h.encloses upper (hsub.mem hupper) lower (hsub.mem hlower)
  pairwise := h.pairwise.sublist hsub

theorem of_map_under {i : Nat} {visits : List Visit}
    (h : AreSeparate (visits.map (Visit.under i))) : AreSeparate visits where
  start_le_stop visit hvisit := h.start_le_stop (visit.under i) (List.mem_map_of_mem hvisit)
  encloses upper hupper lower hlower habove :=
    h.encloses (upper.under i) (List.mem_map_of_mem hupper) (lower.under i)
      (List.mem_map_of_mem hlower) (isAbove_under.mpr habove)
  pairwise := (List.pairwise_map.mp h.pairwise).imp isApart_under.mp

end AreSeparate

mutual

theorem wellFormed_of_areSeparate : (root : Node) → AreSeparate root.visits → root.WellFormed
  | ⟨kind, range, payload, children⟩, h => by
      rw [visits_eq] at h
      have hle : range.start ≤ range.stop := h.start_le_stop _ List.mem_cons_self
      refine ⟨hle, wellPlaced_of_areSeparate 0 children hle (fun visit hvisit => ?_)
        (h.sublist (List.sublist_cons_self _ _))⟩
      exact Range.encloses_iff.mp (h.encloses _ List.mem_cons_self visit
        (List.mem_cons_of_mem _ hvisit) (isAbove_nil _ (address_ne_nil_of_mem hvisit)))

theorem wellPlaced_of_areSeparate (i : Nat) : (nodes : List Node) → {p q : Position} → p ≤ q →
    (∀ visit ∈ visitsFrom i nodes,
      p ≤ visit.node.range.start ∧ visit.node.range.stop ≤ q) →
    AreSeparate (visitsFrom i nodes) → WellPlaced nodes p q
  | [], _, _, hpq, _, _ => hpq
  | node :: rest, p, q, hpq, hinside, h => by
      rw [visitsFrom] at hinside h
      have hself : Visit.under i ⟨[], node⟩ ∈ node.visits.map (Visit.under i) :=
        List.mem_map_of_mem (mem_visits_iff.mpr rfl)
      have hnode := hinside _ (List.mem_append_left _ hself)
      refine ⟨hnode.1, ?_, wellPlaced_of_areSeparate (i + 1) rest hnode.2 ?_ ?_⟩
      · exact wellFormed_of_areSeparate node (h.sublist (List.sublist_append_left _ _)).of_map_under
      · -- What is visited later stands on another branch than the first of the siblings.
        intro visit hvisit
        have hapart := (List.pairwise_append.mp h.pairwise).2.2 _ hself visit hvisit
        have hstop := (hinside _ (List.mem_append_right _ hvisit)).2
        obtain ⟨j, other, -, inner, -, rfl⟩ := mem_visitsFrom.mp hvisit
        have hne : i ≠ i + 1 + j := by omega
        exact ⟨hapart (not_isAbove_of_ne hne _ _) (not_isAbove_of_ne hne.symm _ _), hstop⟩
      · exact h.sublist (List.sublist_append_right _ _)

end

/-- A tree is well formed exactly when the nodes of a visit are separate. -/
theorem wellFormed_iff_areSeparate {root : Node} :
    root.WellFormed ↔ AreSeparate root.visits := by
  refine ⟨fun h => ⟨fun visit hvisit => ?_, fun upper hupper lower => h.encloses_of_isAbove hupper,
    h.pairwise_isApart⟩, wellFormed_of_areSeparate root⟩
  exact (h.mem_preorder root _ (mem_preorder_of_mem_visits hvisit)).1.start_le_stop

end Node

namespace Tree

open Node Visit

/-- A tree passes the check exactly when no range ends before it starts, every node encloses all
nodes below it, and of any two nodes of which none is above the other the one that is visited first
ends before the other one starts. -/
theorem check_separates_all_nodes (tree : Tree) :
    tree.visits.map Visit.node = tree.walk ∧
    (tree.isWellFormed = true ↔
      (∀ visit ∈ tree.visits, visit.node.range.start ≤ visit.node.range.stop) ∧
      (∀ upper ∈ tree.visits, ∀ lower ∈ tree.visits, upper.IsAbove lower →
        upper.node.range.encloses lower.node.range = true) ∧
      tree.visits.Pairwise fun first second =>
        ¬first.IsAbove second → ¬second.IsAbove first →
          first.node.range.stop ≤ second.node.range.start) := by
  refine ⟨map_node_visits tree, ?_⟩
  rcases tree with ⟨_ | root⟩
  · refine ⟨fun _ => ⟨?_, ?_, List.Pairwise.nil⟩, fun _ => isWellFormed_empty⟩
    · exact fun visit hvisit => nomatch hvisit
    · exact fun upper hupper => nomatch hupper
  · rw [isWellFormed_iff, wellFormed_iff_areSeparate]
    exact ⟨fun h => ⟨h.start_le_stop, h.encloses, h.pairwise⟩,
      fun ⟨hordered, hencloses, hapart⟩ => ⟨hordered, hencloses, hapart⟩⟩

end Tree

end QoreSyntax

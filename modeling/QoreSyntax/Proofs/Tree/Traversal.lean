import QoreSyntax.Proofs.Node.Address
import QoreSyntax.Proofs.Tree.Outline

/-!
The visit of a tree. The stack holds the trees that are still to be visited, the next one first, so
that a visit meets each place of the tree once and every node before what lies below it. The
outline has an entry for each step of the visit.
-/

namespace QoreSyntax

namespace Node

namespace Walk

/-- Asked for one node after the other the visit gives these, and then comes to its end. -/
inductive Yields : Walk → List Node → Prop where
  | stop {w : Walk} (h : w.next? = none) : w.Yields []
  | next {w rest : Walk} {node : Node} {nodes : List Node} (h : w.next? = some (node, rest))
      (hrest : rest.Yields nodes) : w.Yields (node :: nodes)

/-- What a visit gives is known from its stack. -/
theorem Yields.unique {w : Walk} {nodes others : List Node} (h : w.Yields nodes)
    (hothers : w.Yields others) : nodes = others := by
  induction h generalizing others with
  | stop h =>
      cases hothers with
      | stop _ => rfl
      | next hnext _ => exact nomatch h.symm.trans hnext
  | next h _ ih =>
      cases hothers with
      | stop hstop => exact nomatch hstop.symm.trans h
      | next hnext hmore =>
          obtain ⟨rfl, rfl⟩ := Prod.mk.inj (Option.some.inj (h.symm.trans hnext))
          rw [ih hmore]

mutual

/-- The tree on top of the stack is visited before those below it. -/
theorem yields_cons {rest nodes : List Node} (h : Yields ⟨rest⟩ nodes) :
    (node : Node) → Yields ⟨node :: rest⟩ (node.preorder ++ nodes)
  | ⟨_, _, _, children⟩ => Yields.next rfl (yields_append h children)

theorem yields_append {rest nodes : List Node} (h : Yields ⟨rest⟩ nodes) :
    (stack : List Node) → Yields ⟨stack ++ rest⟩ (preorders stack ++ nodes)
  | [] => h
  | node :: stack => by
      rw [preorders_cons, List.append_assoc]
      exact yields_cons (yields_append h stack) node

end

theorem yields_iff {node : Node} {nodes : List Node} :
    Yields ⟨[node]⟩ nodes ↔ nodes = node.preorder := by
  have hall : Yields ⟨[node]⟩ node.preorder := by
    have hnil : Yields ⟨[]⟩ [] := Yields.stop rfl
    have h := yields_cons hnil node
    rwa [List.append_nil] at h
  constructor
  · exact fun h => h.unique hall
  · rintro rfl
    exact hall

end Walk

theorem preorders_eq_flatMap (nodes : List Node) : preorders nodes = nodes.flatMap preorder := by
  induction nodes with
  | nil => rfl
  | cons node nodes ih => rw [preorders_cons, List.flatMap_cons, ih]

mutual

theorem length_preorder : (node : Node) → node.preorder.length = node.size
  | ⟨kind, range, payload, children⟩ => by
      rw [preorder, size, List.length_cons, length_preorders children]

theorem length_preorders : (nodes : List Node) → (preorders nodes).length = sizes nodes
  | [] => rfl
  | node :: rest => by
      rw [preorders_cons, sizes, List.length_append, length_preorder node, length_preorders rest]

end

/-- The node and the number of nodes above it, where `depth` nodes are above the whole tree. -/
def Visit.level (depth : Nat) (visit : Visit) : Nat × Node :=
  (depth + visit.address.length, visit.node)

theorem Visit.level_under (depth i : Nat) (visit : Visit) :
    (visit.under i).level depth = visit.level (depth + 1) := by
  rw [level, level, under, List.length_cons, Nat.add_right_comm, Nat.add_assoc]

mutual

/-- The levels of a tree are its visits, each with the length of its address. -/
theorem map_level_visits (depth : Nat) :
    (node : Node) → node.visits.map (Visit.level depth) = levelsOfAll depth [node]
  | ⟨kind, range, payload, children⟩ => by
      rw [visits, List.map_cons, map_level_visitsFrom depth 0 children, levelsOfAll_cons,
        levelsOfAll_nil, List.append_nil]
      rfl

theorem map_level_visitsFrom (depth i : Nat) : (nodes : List Node) →
    (visitsFrom i nodes).map (Visit.level depth) = levelsOfAll (depth + 1) nodes
  | [] => rfl
  | node :: rest => by
      have hunder : Visit.level depth ∘ Visit.under i = Visit.level (depth + 1) :=
        funext (Visit.level_under depth i)
      rw [visitsFrom, List.map_append, List.map_map, hunder, map_level_visits (depth + 1) node,
        map_level_visitsFrom depth (i + 1) rest, ← levelsOfAll_append, List.singleton_append]

end

end Node

namespace Tree

open Node

/-- The nodes of the tree and where they stand, every node before its children. -/
def visits (tree : Tree) : List Visit :=
  (tree.root?.map Node.visits).getD []

theorem map_node_visits (tree : Tree) : tree.visits.map Visit.node = tree.walk := by
  rcases tree with ⟨_ | root⟩
  · rfl
  · exact (Node.map_node_visits root).trans (walk_eq_preorder root).symm

theorem levels_eq_map_visits (tree : Tree) : tree.levels = tree.visits.map (Visit.level 0) := by
  rcases tree with ⟨_ | root⟩
  · rfl
  · change root.levels = root.visits.map (Visit.level 0)
    rw [map_level_visits, levels_eq, levelsOfAll_cons, levelsOfAll_nil, List.append_nil]

/-- An entry of the outline is indented by two blanks for each node above its own. -/
theorem outline_eq_map_visits (tree : Tree) :
    tree.outline = tree.visits.map fun visit =>
      String.ofList (List.replicate (2 * visit.address.length) ' ')
        ++ (visit.node.label ++ " [" ++ visit.node.range.text ++ "]") := by
  rw [outline, levels_eq_map_visits, List.map_map]
  refine List.map_congr_left fun visit _ => ?_
  simp only [Function.comp_apply, Visit.level, Nat.zero_add, entry, String.append_assoc]

/-- A visit comes to its end. Until then it meets a node and then what lies below each of its
children, from left to right, and so each place of the tree once; how many these are is the size of
the tree. The outline has an entry for each of them in the same order, indented by twice the depth
of the place. -/
theorem walk_meets_every_place_once (tree : Tree) :
    (∀ node : Node,
      (∀ nodes, Walk.Yields ⟨[node]⟩ nodes ↔ nodes = node.walk) ∧
      node.walk = node.preorder ∧ node.walk = node :: node.children.flatMap Node.walk ∧
      node.visits.map Visit.node = node.walk ∧ (node.visits.map Visit.address).Nodup ∧
      (∀ address below,
        ⟨address, below⟩ ∈ node.visits ↔ node.descendant? address = some below) ∧
      node.subtreeSize = node.size) ∧
    tree.size = (tree.root?.map Node.size).getD 0 ∧ tree.visits.map Visit.node = tree.walk ∧
    tree.outline = tree.visits.map fun visit =>
      String.ofList (List.replicate (2 * visit.address.length) ' ')
        ++ (visit.node.label ++ " [" ++ visit.node.range.text ++ "]") := by
  have hwalk : Node.walk = preorder := funext walk_eq_preorder
  have hsize (node : Node) : node.subtreeSize = node.size := by
    rw [subtreeSize, hwalk, length_preorder]
  refine ⟨fun node => ⟨fun nodes => ?_, ?_, ?_, ?_, ?_, fun _ _ => mem_visits_iff, hsize node⟩,
    ?_, map_node_visits tree, outline_eq_map_visits tree⟩
  · rw [hwalk]
    exact Walk.yields_iff
  · rw [hwalk]
  · rw [hwalk, ← preorders_eq_flatMap, preorder_eq]
  · rw [hwalk, Node.map_node_visits]
  · refine List.pairwise_map.mpr ((pairwise_visits node).imp fun hlt heq => ?_)
    exact List.lt_irrefl _ (heq ▸ hlt)
  · rw [size, funext hsize]

end Tree

end QoreSyntax

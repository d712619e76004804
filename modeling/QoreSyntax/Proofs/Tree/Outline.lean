import QoreSyntax.Proofs.Tree.Lookup
import QoreSyntax.Tree.Outline

namespace QoreSyntax

namespace Node

theorem levelsOnto_eq (depth : Nat) (rest : List (Nat × Node)) (node : Node) :
    node.levelsOnto depth rest
      = (depth, node) :: levelsOfAllOnto (depth + 1) rest node.children := by
  cases node
  rfl

mutual

theorem levelsOnto_append (depth : Nat) (rest more : List (Nat × Node)) :
    (node : Node) → node.levelsOnto depth (rest ++ more) = node.levelsOnto depth rest ++ more
  | ⟨kind, range, payload, children⟩ => by
      rw [levelsOnto, levelsOnto, levelsOfAllOnto_append (depth + 1) rest more children,
        List.cons_append]

theorem levelsOfAllOnto_append (depth : Nat) (rest more : List (Nat × Node)) :
    (nodes : List Node) →
    levelsOfAllOnto depth (rest ++ more) nodes = levelsOfAllOnto depth rest nodes ++ more
  | [] => rfl
  | node :: nodes => by
      rw [levelsOfAllOnto, levelsOfAllOnto, levelsOfAllOnto_append depth rest more nodes,
        levelsOnto_append depth _ more node]

end

/-- The nodes of the trees and their depths, where the roots have this depth. -/
def levelsOfAll (depth : Nat) (nodes : List Node) : List (Nat × Node) :=
  levelsOfAllOnto depth [] nodes

@[simp] theorem levelsOfAll_nil (depth : Nat) : levelsOfAll depth [] = [] :=
  rfl

@[simp] theorem levelsOfAll_cons (depth : Nat) (node : Node) (nodes : List Node) :
    levelsOfAll depth (node :: nodes)
      = (depth, node) :: levelsOfAll (depth + 1) node.children ++ levelsOfAll depth nodes := by
  rw [levelsOfAll, levelsOfAllOnto, ← List.nil_append (levelsOfAllOnto depth [] nodes),
    levelsOnto_append, levelsOnto_eq]
  rfl

theorem levelsOfAll_append (depth : Nat) (nodes rest : List Node) :
    levelsOfAll depth (nodes ++ rest) = levelsOfAll depth nodes ++ levelsOfAll depth rest := by
  induction nodes with
  | nil => rfl
  | cons node nodes ih => simp [ih]

theorem levels_eq (node : Node) : node.levels = (0, node) :: levelsOfAll 1 node.children :=
  levelsOnto_eq 0 [] node

mutual

theorem map_levelsOnto (depth : Nat) (rest : List (Nat × Node)) :
    (node : Node) → (node.levelsOnto depth rest).map Prod.snd = node.preorder ++ rest.map Prod.snd
  | ⟨kind, range, payload, children⟩ => by
      rw [levelsOnto, preorder, List.map_cons, map_levelsOfAllOnto (depth + 1) rest children,
        List.cons_append]

theorem map_levelsOfAllOnto (depth : Nat) (rest : List (Nat × Node)) : (nodes : List Node) →
    (levelsOfAllOnto depth rest nodes).map Prod.snd = preorders nodes ++ rest.map Prod.snd
  | [] => rfl
  | node :: nodes => by
      rw [levelsOfAllOnto, map_levelsOnto depth _ node, map_levelsOfAllOnto depth rest nodes,
        preorders_cons, List.append_assoc]

end

/-- Without their depths the levels are the nodes in the order of a visit. -/
theorem map_levelsOfAll (depth : Nat) (nodes : List Node) :
    (levelsOfAll depth nodes).map Prod.snd = preorders nodes := by
  rw [levelsOfAll, map_levelsOfAllOnto, List.map_nil, List.append_nil]

end Node

namespace Tree

open Node

/-- The levels of which the node contains the position. -/
def levelsAt (p : Position) (levels : List (Nat × Node)) : List (Nat × Node) :=
  levels.filter fun level => level.2.range.contains p

/-- Where no node contains the position no level is left. -/
theorem levelsAt_eq_nil {p : Position} {nodes : List Node} (depth : Nat)
    (h : (preorders nodes).filter (fun node => node.range.contains p) = []) :
    levelsAt p (levelsOfAll depth nodes) = [] := by
  rw [← map_levelsOfAll depth nodes, List.filter_map, List.map_eq_nil_iff] at h
  exact h

/-- Among siblings only the levels of the one that is found are left. -/
theorem levelsAt_siblings {nodes : List Node} {a b : Position} (h : WellPlaced nodes a b)
    (p : Position) (depth : Nat) :
    levelsAt p (levelsOfAll depth nodes)
      = levelsAt p (levelsOfAll depth (siblingAt? p nodes).toList) := by
  rcases siblingAt?_cases h p with
    ⟨hnone, hafter⟩ | ⟨left, node, right, rfl, hstart, hright, hfound⟩
  · rw [hnone]
    exact levelsAt_eq_nil depth (filter_contains_of_lt_start h hafter)
  · obtain ⟨c, hleft, hc, hformed, hrest⟩ := h.of_append
    have hbefore : ∀ other ∈ left, other.range.stop ≤ p := fun other hmem =>
      (hleft.mem hmem).2.2.trans (hc.trans hstart)
    have hnode : levelsAt p (levelsOfAll depth (left ++ node :: right))
        = levelsAt p (levelsOfAll depth [node]) := by
      rw [← List.singleton_append, levelsOfAll_append, levelsOfAll_append, levelsAt,
        List.filter_append, List.filter_append, ← levelsAt, ← levelsAt, ← levelsAt,
        levelsAt_eq_nil depth (filter_contains_of_stop_le hleft hbefore),
        levelsAt_eq_nil depth (filter_contains_of_lt_start hrest hright), List.nil_append,
        List.append_nil]
    rw [hnode, hfound]
    cases hcontains : node.range.contains p with
    | true => simp only [Option.filter_some, hcontains, if_true, Option.toList_some]
    | false =>
        have hnone := filter_contains_of_not_contains hformed hcontains
        rw [Option.filter_some, if_neg (by rw [hcontains]; exact Bool.false_ne_true),
          Option.toList_none, levelsOfAll_nil]
        apply levelsAt_eq_nil
        rw [preorders_cons, preorders_nil, List.append_nil, hnone]

/-- The levels at a position begin with the node itself and go on in the child that is found. -/
theorem levelsAt_of_contains {p : Position} {node : Node} (h : node.WellFormed)
    (hcontains : node.range.contains p = true) (depth : Nat) :
    levelsAt p (levelsOfAll depth [node]) = (depth, node) ::
      levelsAt p (levelsOfAll (depth + 1) (siblingAt? p node.children).toList) := by
  rw [levelsOfAll_cons, levelsOfAll_nil, List.append_nil, levelsAt, List.filter_cons,
    if_pos hcontains, ← levelsAt, levelsAt_siblings h.children]

/-- The number of a node on the way down is its depth. -/
theorem mapIdx_pathFrom {p : Position} {node : Node} (h : node.WellFormed)
    (hcontains : node.range.contains p = true) (depth : Nat) :
    (pathFrom p node).mapIdx (fun i node => (depth + i, node))
      = levelsAt p (levelsOfAll depth [node]) := by
  rw [levelsAt_of_contains h hcontains]
  fun_induction pathFrom p node generalizing depth with
  | case1 node hnone =>
      rw [hnone]
      rfl
  | case2 node child hchild ih =>
      have hformed := (h.children.mem (mem_of_siblingAt? hchild)).2.1
      have hinside := contains_of_siblingAt? hchild
      rw [hchild, Option.toList_some, levelsAt_of_contains hformed hinside,
        ← ih hformed hinside (depth + 1), List.mapIdx_cons]
      simp only [Nat.add_zero, Nat.add_assoc, Nat.add_comm 1]

/-- In a tree that passes the check the nodes at a position, numbered from the root on, are the
levels of the tree of which the node contains the position. -/
theorem mapIdx_ancestorsAt {tree : Tree} (h : tree.isWellFormed = true) (p : Position) :
    (tree.ancestorsAt p).mapIdx Prod.mk = levelsAt p tree.levels := by
  rcases tree with ⟨_ | root⟩
  · rfl
  · have hroot := isWellFormed_iff.mp h
    have hlevels : (⟨some root⟩ : Tree).levels = levelsOfAll 0 [root] := by
      rw [levelsOfAll_cons, levelsOfAll_nil, List.append_nil]
      exact levels_eq root
    rw [ancestorsAt_some, hlevels]
    split_ifs with hcontains
    · rw [← mapIdx_pathFrom hroot hcontains 0]
      simp only [Nat.zero_add]
    · rw [Bool.not_eq_true] at hcontains
      have hnone := filter_contains_of_not_contains hroot hcontains
      rw [levelsAt_eq_nil 0 (by rw [preorders_cons, preorders_nil, List.append_nil, hnone])]
      rfl

/-- In a tree that passes the check the entries at a position are those entries of the outline of
which the node contains it. -/
theorem outlineAt_eq {tree : Tree} (h : tree.isWellFormed = true) (p : Position) :
    tree.outlineAt p = (levelsAt p tree.levels).map fun (depth, node) => node.entry depth := by
  rw [← mapIdx_ancestorsAt h p, outlineAt, List.mapIdx_eq_zipIdx_map, List.mapIdx_eq_zipIdx_map,
    List.map_map]
  rfl

end Tree

end QoreSyntax

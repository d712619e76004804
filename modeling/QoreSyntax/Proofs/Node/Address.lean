import Mathlib.Data.List.Basic
import QoreSyntax.Proofs.Node.Preorder

namespace QoreSyntax.Node

/-- The node to which an address leads. -/
def descendant? (node : Node) : (address : List Nat) → Option Node
  | [] => some node
  | i :: address => node.children[i]?.bind fun child => child.descendant? address

/-- A node and where it stands. -/
structure Visit where
  address : List Nat
  node : Node

namespace Visit

/-- The same visit in a tree of which this one is the child with the number `i`. -/
def under (i : Nat) (visit : Visit) : Visit :=
  ⟨i :: visit.address, visit.node⟩

/-- The first node is on the way to the second one. -/
def IsAbove (upper lower : Visit) : Prop :=
  upper.address <+: lower.address ∧ upper.address ≠ lower.address

end Visit

mutual

/-- The nodes of a tree and where they stand, every node before its children. -/
def visits : Node → List Visit
  | ⟨kind, range, payload, children⟩ =>
      ⟨[], ⟨kind, range, payload, children⟩⟩ :: visitsFrom 0 children

/-- The nodes of siblings, of which the first one has the number `i`. -/
def visitsFrom (i : Nat) : List Node → List Visit
  | [] => []
  | node :: rest => node.visits.map (Visit.under i) ++ visitsFrom (i + 1) rest

end

theorem visits_eq (node : Node) : node.visits = ⟨[], node⟩ :: visitsFrom 0 node.children := by
  cases node
  rfl

theorem descendant?_append (node : Node) (address more : List Nat) :
    node.descendant? (address ++ more)
      = (node.descendant? address).bind fun below => below.descendant? more := by
  induction address generalizing node with
  | nil => rfl
  | cons i address ih =>
      rw [List.cons_append, descendant?, descendant?]
      cases node.children[i]? with
      | none => rfl
      | some child => exact ih child

theorem mem_visitsFrom {i : Nat} {nodes : List Node} {visit : Visit} :
    visit ∈ visitsFrom i nodes ↔
      ∃ (j : Nat) (node : Node), nodes[j]? = some node ∧
        ∃ inner ∈ node.visits, visit = inner.under (i + j) := by
  induction nodes generalizing i with
  | nil => simp [visitsFrom]
  | cons first rest ih =>
      rw [visitsFrom, List.mem_append, List.mem_map, ih]
      constructor
      · rintro (⟨inner, hinner, rfl⟩ | ⟨j, node, hnode, inner, hinner, rfl⟩)
        · exact ⟨0, first, rfl, inner, hinner, rfl⟩
        · exact ⟨j + 1, node, hnode, inner, hinner, by rw [Nat.add_right_comm, Nat.add_assoc]⟩
      · rintro ⟨_ | j, node, hnode, inner, hinner, rfl⟩
        · obtain rfl : first = node := Option.some.inj hnode
          exact Or.inl ⟨inner, hinner, rfl⟩
        · exact Or.inr ⟨j, node, hnode, inner, hinner, by rw [Nat.add_right_comm, Nat.add_assoc]⟩

/-- The nodes that are visited are those to which the addresses lead. -/
theorem mem_visits_iff {node below : Node} {address : List Nat} :
    ⟨address, below⟩ ∈ node.visits ↔ node.descendant? address = some below := by
  induction address generalizing node with
  | nil =>
      rw [visits_eq, List.mem_cons, mem_visitsFrom, descendant?]
      constructor
      · rintro (hself | ⟨j, child, -, inner, -, hunder⟩)
        · exact congrArg some (congrArg Visit.node hself).symm
        · exact nomatch congrArg Visit.address hunder
      · intro hself
        exact Or.inl (congrArg (Visit.mk []) (Option.some.inj hself).symm)
  | cons i address ih =>
      rw [visits_eq, List.mem_cons, mem_visitsFrom, descendant?, Option.bind_eq_some_iff]
      constructor
      · rintro (hself | ⟨j, child, hchild, inner, hinner, hunder⟩)
        · exact nomatch congrArg Visit.address hself
        · obtain ⟨hj, haddress⟩ := List.cons.inj (congrArg Visit.address hunder)
          obtain rfl : i = j := hj.trans (Nat.zero_add j)
          obtain rfl : below = inner.node := congrArg Visit.node hunder
          exact ⟨child, hchild, ih.mp (haddress ▸ hinner)⟩
      · rintro ⟨child, hchild, hbelow⟩
        exact Or.inr ⟨i, child, hchild, ⟨address, below⟩, ih.mpr hbelow, by
          rw [Nat.zero_add]
          rfl⟩

mutual

/-- Without their addresses the visits are the nodes in the order of the recursion on the tree. -/
theorem map_node_visits : (node : Node) → node.visits.map Visit.node = node.preorder
  | ⟨kind, range, payload, children⟩ => by
      rw [visits, preorder, List.map_cons, map_node_visitsFrom 0 children]

theorem map_node_visitsFrom (i : Nat) : (nodes : List Node) →
    (visitsFrom i nodes).map Visit.node = preorders nodes
  | [] => rfl
  | node :: rest => by
      rw [visitsFrom, preorders_cons, List.map_append, List.map_map, ← map_node_visits node,
        map_node_visitsFrom (i + 1) rest]
      rfl

end

mutual

/-- The addresses ascend, so that no two nodes of a visit stand at the same place. -/
theorem pairwise_visits : (node : Node) →
    node.visits.Pairwise fun first second => first.address < second.address
  | ⟨kind, range, payload, children⟩ => by
      refine List.pairwise_cons.mpr ⟨fun visit hvisit => ?_, pairwise_visitsFrom 0 children⟩
      obtain ⟨j, child, -, inner, -, rfl⟩ := mem_visitsFrom.mp hvisit
      exact List.nil_lt_cons _ _

theorem pairwise_visitsFrom (i : Nat) : (nodes : List Node) →
    (visitsFrom i nodes).Pairwise fun first second => first.address < second.address
  | [] => List.Pairwise.nil
  | node :: rest => by
      refine List.pairwise_append.mpr ⟨?_, pairwise_visitsFrom (i + 1) rest, ?_⟩
      · refine List.pairwise_map.mpr ((pairwise_visits node).imp fun h => ?_)
        exact List.cons_lt_cons_iff.mpr (Or.inr ⟨rfl, h⟩)
      · intro first hfirst second hsecond
        obtain ⟨inner, -, rfl⟩ := List.mem_map.mp hfirst
        obtain ⟨j, child, -, other, -, rfl⟩ := mem_visitsFrom.mp hsecond
        exact List.cons_lt_cons_iff.mpr (Or.inl (by omega))

end

end QoreSyntax.Node

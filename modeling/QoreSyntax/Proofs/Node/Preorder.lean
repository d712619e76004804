import QoreSyntax.Node.Walk

namespace QoreSyntax.Node

theorem preorder_eq (node : Node) : node.preorder = node :: preorders node.children := by
  cases node
  rfl

theorem size_eq (node : Node) : node.size = sizes node.children + 1 := by
  cases node
  rfl

theorem self_mem_preorder (node : Node) : node ∈ node.preorder := by
  rw [preorder_eq]
  exact List.mem_cons_self

@[simp] theorem preorders_nil : preorders [] = [] :=
  rfl

@[simp] theorem preorders_cons (node : Node) (rest : List Node) :
    preorders (node :: rest) = node.preorder ++ preorders rest :=
  rfl

theorem preorders_append (nodes rest : List Node) :
    preorders (nodes ++ rest) = preorders nodes ++ preorders rest := by
  induction nodes with
  | nil => rfl
  | cons node nodes ih =>
      rw [List.cons_append, preorders_cons, preorders_cons, ih, List.append_assoc]

theorem sizes_append (nodes rest : List Node) :
    sizes (nodes ++ rest) = sizes nodes + sizes rest := by
  induction nodes with
  | nil => simp only [List.nil_append, sizes, Nat.zero_add]
  | cons node nodes ih => simp only [List.cons_append, sizes, ih, Nat.add_assoc]

theorem mem_preorders_iff {node : Node} {nodes : List Node} :
    node ∈ preorders nodes ↔ ∃ root ∈ nodes, node ∈ root.preorder := by
  induction nodes with
  | nil => simp
  | cons root nodes ih => simp [ih]

/-- With enough fuel for all nodes of the trees on the stack the visit meets them all, one tree
after the other. -/
theorem Walk.collect_eq (fuel : Nat) (visited stack : List Node) (hfuel : sizes stack ≤ fuel) :
    Walk.collect fuel visited ⟨stack⟩ = visited.reverse ++ preorders stack := by
  induction fuel generalizing visited stack with
  | zero =>
      cases stack with
      | nil => simp [Walk.collect]
      | cons node rest =>
          rw [sizes, size_eq] at hfuel
          omega
  | succ fuel ih =>
      cases stack with
      | nil => simp [Walk.collect, Walk.next?]
      | cons node rest =>
          have hrest : sizes (node.children ++ rest) ≤ fuel := by
            rw [sizes, size_eq] at hfuel
            rw [sizes_append]
            omega
          calc Walk.collect (fuel + 1) visited ⟨node :: rest⟩
              = Walk.collect fuel (node :: visited) ⟨node.children ++ rest⟩ := rfl
            _ = visited.reverse ++ preorders (node :: rest) := by
                rw [ih _ _ hrest, preorders_cons, preorder_eq, preorders_append]
                simp

theorem walk_eq_preorder (node : Node) : node.walk = node.preorder := by
  have hsize : sizes [node] ≤ node.size := by simp [sizes]
  rw [walk, Walk.collect_eq _ _ _ hsize]
  simp

end QoreSyntax.Node

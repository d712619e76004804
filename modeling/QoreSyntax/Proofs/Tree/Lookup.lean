import QoreSyntax.Proofs.Tree.Enclosure

/-!
Looking up a position. The descent looks at one child of each node, which it finds by halving. In a
tree that passes the check it meets exactly the nodes that contain the position, in the order of a
visit.
-/

namespace QoreSyntax.Tree

open Node

/-- The nodes before `low` do not start after the position, and those from `high` on do. -/
def SplitsAt (p : Position) (nodes : List Node) (low high : Nat) : Prop :=
  (∀ i (h : i < nodes.length), i < low → nodes[i].range.start ≤ p) ∧
    ∀ i (h : i < nodes.length), high ≤ i → p < nodes[i].range.start

theorem start_le_start {nodes : List Node} {a b : Position} (h : WellPlaced nodes a b)
    {i j : Nat} (hij : i ≤ j) (hi : i < nodes.length) (hj : j < nodes.length) :
    nodes[i].range.start ≤ nodes[j].range.start := by
  rcases Nat.eq_or_lt_of_le hij with rfl | hlt
  · exact le_rfl
  · have hformed : nodes[i].WellFormed := (h.mem (List.getElem_mem hi)).2.1
    exact hformed.start_le_stop.trans (List.pairwise_iff_getElem.mp h.pairwise i j hi hj hlt)

/-- Halving keeps what is known of the two ends, until nothing is left between them. -/
theorem splitsAt_startedBy {nodes : List Node} {a b : Position} (hnodes : WellPlaced nodes a b)
    (p : Position) (low high : Nat) (hle : low ≤ high) (hhigh : high ≤ nodes.length)
    (h : SplitsAt p nodes low high) :
    SplitsAt p nodes (startedBy p nodes low high) (startedBy p nodes low high) ∧
      startedBy p nodes low high ≤ nodes.length := by
  fun_induction startedBy p nodes low high with
  | case1 low high hlt middle hstarted ih =>
      have hmiddle : middle < nodes.length := by omega
      rw [List.getElem?_eq_getElem hmiddle, Option.any_some, decide_eq_true_eq] at hstarted
      refine ih (by omega) hhigh ⟨fun i hi hlow => ?_, h.2⟩
      exact (start_le_start hnodes (by omega) hi hmiddle).trans hstarted
  | case2 low high hlt middle hstarted ih =>
      have hmiddle : middle < nodes.length := by omega
      rw [List.getElem?_eq_getElem hmiddle, Option.any_some, decide_eq_true_eq, not_le] at hstarted
      refine ih (by omega) (by omega) ⟨h.1, fun i hi hhigh => ?_⟩
      exact hstarted.trans_le (start_le_start hnodes hhigh hmiddle hi)
  | case3 low high hge =>
      have heq : low = high := by omega
      subst heq
      exact ⟨h, hhigh⟩

/-- No node of trees that all start after the position contains it. -/
theorem filter_contains_of_lt_start {nodes : List Node} {a b p : Position}
    (h : WellPlaced nodes a b) (hstart : ∀ node ∈ nodes, p < node.range.start) :
    (preorders nodes).filter (fun node => node.range.contains p) = [] := by
  apply List.filter_eq_nil_iff.mpr
  intro node hmem hcontains
  obtain ⟨root, hroot, hbelow⟩ := mem_preorders_iff.mp hmem
  have hinside := (h.mem hroot).2.1.mem_preorder root node hbelow
  have hlt := (hstart root hroot).trans_le hinside.2.1
  exact absurd (Range.contains_iff.mp hcontains).1 (not_le.mpr hlt)

/-- No node of trees that all stop before the position contains it. -/
theorem filter_contains_of_stop_le {nodes : List Node} {a b p : Position}
    (h : WellPlaced nodes a b) (hstop : ∀ node ∈ nodes, node.range.stop ≤ p) :
    (preorders nodes).filter (fun node => node.range.contains p) = [] := by
  apply List.filter_eq_nil_iff.mpr
  intro node hmem hcontains
  obtain ⟨root, hroot, hbelow⟩ := mem_preorders_iff.mp hmem
  have hinside := (h.mem hroot).2.1.mem_preorder root node hbelow
  have hle := hinside.2.2.trans (hstop root hroot)
  exact absurd (Range.contains_iff.mp hcontains).2 (not_lt.mpr hle)

/-- Among siblings only the nodes of one tree can contain the position: the tree of the last sibling
that does not start after it. -/
theorem filter_contains_of_split {left right : List Node} {node : Node} {a b p : Position}
    (h : WellPlaced (left ++ node :: right) a b) (hnode : node.range.start ≤ p)
    (hright : ∀ other ∈ right, p < other.range.start) :
    (preorders (left ++ node :: right)).filter (fun node => node.range.contains p) =
      node.preorder.filter fun node => node.range.contains p := by
  obtain ⟨c, hleft, hstart, _, hrest⟩ := h.of_append
  have hbefore : ∀ other ∈ left, other.range.stop ≤ p := fun other hmem =>
    (hleft.mem hmem).2.2.trans (hstart.trans hnode)
  rw [preorders_append, preorders_cons, List.filter_append, List.filter_append,
    filter_contains_of_stop_le hleft hbefore, filter_contains_of_lt_start hrest hright,
    List.nil_append, List.append_nil]

/-- A well-formed node that does not contain the position has no node that does. -/
theorem filter_contains_of_not_contains {node : Node} {p : Position} (h : node.WellFormed)
    (hnot : node.range.contains p = false) :
    node.preorder.filter (fun node => node.range.contains p) = [] := by
  apply List.filter_eq_nil_iff.mpr
  intro other hmem hcontains
  obtain ⟨_, hstart, hstop⟩ := h.mem_preorder node other hmem
  obtain ⟨hle, hlt⟩ := Range.contains_iff.mp hcontains
  have := Range.contains_iff.mpr ⟨hstart.trans hle, hlt.trans_le hstop⟩
  rw [hnot] at this
  exact Bool.noConfusion this

/-- What halving finds: the last sibling that does not start after the position, if it contains
it. -/
theorem siblingAt?_cases {nodes : List Node} {a b : Position} (h : WellPlaced nodes a b)
    (p : Position) :
    (siblingAt? p nodes = none ∧ ∀ node ∈ nodes, p < node.range.start) ∨
      ∃ left node right, nodes = left ++ node :: right ∧ node.range.start ≤ p ∧
        (∀ other ∈ right, p < other.range.start) ∧
        siblingAt? p nodes = (some node).filter fun node => node.range.contains p := by
  obtain ⟨⟨hbefore, hafter⟩, hle⟩ := splitsAt_startedBy h p 0 nodes.length (Nat.zero_le _)
    (Nat.le_refl _)
    ⟨fun i _ hi => absurd hi (Nat.not_lt_zero i), fun i hi hlen => absurd hi (by omega)⟩
  rw [siblingAt?]
  rcases hcount : startedBy p nodes 0 nodes.length with _ | n
  · rw [hcount] at hafter
    refine Or.inl ⟨rfl, fun node hmem => ?_⟩
    obtain ⟨i, hi, rfl⟩ := List.getElem_of_mem hmem
    exact hafter i hi (Nat.zero_le i)
  · rw [hcount] at hbefore hafter hle
    have hn : n < nodes.length := by omega
    refine Or.inr ⟨nodes.take n, nodes[n], nodes.drop (n + 1), ?_, ?_, ?_, ?_⟩
    · rw [List.getElem_cons_drop, List.take_append_drop]
    · exact hbefore n hn (Nat.lt_succ_self n)
    · intro other hmem
      obtain ⟨i, hi, rfl⟩ := List.getElem_of_mem hmem
      rw [List.getElem_drop]
      exact hafter _ _ (by omega)
    · simp only [List.getElem?_eq_getElem hn]

/-- The sibling that is found is the only one with nodes that contain the position; where none is
found there are no such nodes. -/
theorem filter_contains_eq {nodes : List Node} {a b : Position} (h : WellPlaced nodes a b)
    (p : Position) :
    (preorders nodes).filter (fun node => node.range.contains p) =
      match siblingAt? p nodes with
      | none => []
      | some node => node.preorder.filter fun node => node.range.contains p := by
  rcases siblingAt?_cases h p with
    ⟨hnone, hafter⟩ | ⟨left, node, right, rfl, hstart, hright, hfound⟩
  · rw [hnone]
    exact filter_contains_of_lt_start h hafter
  · rw [hfound, filter_contains_of_split h hstart hright]
    cases hcontains : node.range.contains p with
    | true => simp only [Option.filter_some, hcontains, if_true]
    | false =>
        have hformed := (h.mem (List.mem_append_right left List.mem_cons_self)).2.1
        simp only [Option.filter_some, hcontains, Bool.false_eq_true, if_false,
          filter_contains_of_not_contains hformed hcontains]

theorem contains_of_siblingAt? {p : Position} {nodes : List Node} {node : Node}
    (h : siblingAt? p nodes = some node) : node.range.contains p = true := by
  rw [siblingAt?] at h
  split at h
  · exact absurd h (by simp)
  · exact (Option.filter_eq_some_iff.mp h).2

theorem pathFrom_eq_filter {p : Position} {node : Node} (h : node.WellFormed)
    (hcontains : node.range.contains p = true) :
    pathFrom p node = node.preorder.filter fun node => node.range.contains p := by
  fun_induction pathFrom p node with
  | case1 node hnone =>
      rw [preorder_eq, List.filter_cons, if_pos hcontains, filter_contains_eq h.children, hnone]
  | case2 node child hchild ih =>
      have hformed := (h.children.mem (mem_of_siblingAt? hchild)).2.1
      rw [preorder_eq, List.filter_cons, if_pos hcontains, filter_contains_eq h.children, hchild,
        ih hformed (contains_of_siblingAt? hchild)]

/-- The descent ends at a node of the tree of which no child is found. -/
theorem siblingAt?_getLast?_pathFrom {p : Position} {node last : Node}
    (h : (pathFrom p node).getLast? = some last) :
    last ∈ node.preorder ∧ siblingAt? p last.children = none := by
  fun_induction pathFrom p node with
  | case1 node hnone =>
      obtain rfl : node = last := by simpa using h
      exact ⟨self_mem_preorder node, hnone⟩
  | case2 node child hchild ih =>
      have hne : pathFrom p child ≠ [] := by
        rw [pathFrom]
        split <;> simp
      rw [List.getLast?_cons_of_ne_nil hne] at h
      obtain ⟨hmem, hnone⟩ := ih h
      rw [preorder_eq]
      refine ⟨List.mem_cons_of_mem _ (mem_preorders_iff.mpr ⟨child, ?_, hmem⟩), hnone⟩
      exact mem_of_siblingAt? hchild

theorem ancestorsAt_some (root : Node) (p : Position) :
    (⟨some root⟩ : Tree).ancestorsAt p =
      if root.range.contains p then pathFrom p root else [] :=
  rfl

theorem ancestorsAt_eq_filter {tree : Tree} (h : tree.isWellFormed = true) (p : Position) :
    tree.ancestorsAt p = tree.walk.filter fun node => node.range.contains p := by
  rcases tree with ⟨_ | root⟩
  · rfl
  · have hroot := isWellFormed_iff.mp h
    have hwalk : (⟨some root⟩ : Tree).walk = root.preorder := walk_eq_preorder root
    rw [hwalk, ancestorsAt_some]
    split_ifs with hcontains
    · exact pathFrom_eq_filter hroot hcontains
    · rw [Bool.not_eq_true] at hcontains
      rw [filter_contains_of_not_contains hroot hcontains]

theorem not_contains_of_findAt? {tree : Tree} (h : tree.isWellFormed = true) {p : Position}
    {node : Node} (hfind : tree.findAt? p = some node) :
    ∀ below ∈ preorders node.children, below.range.contains p = false := by
  rcases tree with ⟨_ | root⟩
  · exact absurd hfind (by simp [findAt?, ancestorsAt])
  · rw [findAt?, ancestorsAt_some] at hfind
    split_ifs at hfind with hcontains
    · obtain ⟨hmem, hnone⟩ := siblingAt?_getLast?_pathFrom hfind
      have hformed := ((isWellFormed_iff.mp h).mem_preorder root node hmem).1
      have hfilter := filter_contains_eq hformed.children p
      rw [hnone, List.filter_eq_nil_iff] at hfilter
      exact fun below hbelow => Bool.eq_false_iff.mpr (hfilter below hbelow)
    · simp at hfind

/-- In a tree that passes the check the nodes that are found at a position are those of a visit that
contain it. The deepest one is the last of them: there is one unless no node contains the position,
and no node below it does. -/
theorem lookup_agrees_with_walk (tree : Tree) (p : Position) (h : tree.isWellFormed = true) :
    tree.ancestorsAt p = tree.walk.filter (fun node => node.range.contains p) ∧
      tree.findAt? p = (tree.walk.filter fun node => node.range.contains p).getLast? ∧
      (tree.findAt? p = none ↔ ∀ node ∈ tree.walk, node.range.contains p = false) ∧
      ∀ node, tree.findAt? p = some node →
        ∀ below ∈ preorders node.children, below.range.contains p = false := by
  have hancestors := ancestorsAt_eq_filter h p
  have hfind : tree.findAt? p =
      (tree.walk.filter fun node => node.range.contains p).getLast? := by
    rw [findAt?, hancestors]
  refine ⟨hancestors, hfind, ?_, fun node => not_contains_of_findAt? h⟩
  rw [hfind, List.getLast?_eq_none_iff, List.filter_eq_nil_iff]
  simp only [Bool.not_eq_true]

/-- A tree in which an empty node and two nodes that touch stand in the root. -/
def touching : Tree :=
  ⟨some ⟨.script, ⟨⟨1, 1⟩, ⟨2, 3⟩⟩, .none,
    [⟨.missing, ⟨⟨1, 1⟩, ⟨1, 1⟩⟩, .none, []⟩, ⟨.name, ⟨⟨1, 1⟩, ⟨1, 4⟩⟩, .none, []⟩,
      ⟨.block, ⟨⟨1, 4⟩, ⟨2, 1⟩⟩, .none, [⟨.empty, ⟨⟨1, 4⟩, ⟨1, 5⟩⟩, .none, []⟩]⟩]⟩⟩

theorem lookup_agrees_with_walk_touching :
    touching.isWellFormed = true ∧
      touching.ancestorsAt ⟨1, 4⟩ =
        touching.walk.filter fun node => node.range.contains ⟨1, 4⟩ :=
  have h : touching.isWellFormed = true := by decide
  ⟨h, (lookup_agrees_with_walk touching ⟨1, 4⟩ h).1⟩

end QoreSyntax.Tree

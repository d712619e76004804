import QoreSyntax.Node.Walk

namespace QoreSyntax

structure Tree where
  root? : Option Node

namespace Tree

def empty : Tree :=
  ⟨none⟩

def isEmpty (tree : Tree) : Bool :=
  tree.root?.isNone

/-- All nodes, every node before its children. -/
def walk (tree : Tree) : List Node :=
  (tree.root?.map Node.walk).getD []

def size (tree : Tree) : Nat :=
  (tree.root?.map Node.subtreeSize).getD 0

/-- The number of nodes at the beginning of the list that do not start after the position `p`, given
that they stand in the order of their starts. Those before `low` are known not to start after it,
and those from `high` on to do so. -/
def startedBy (p : Position) (nodes : List Node) (low high : Nat) : Nat :=
  if low < high then
    let middle := (low + high) / 2
    if nodes[middle]?.any fun node => decide (node.range.start ≤ p) then
      startedBy p nodes (middle + 1) high
    else startedBy p nodes low middle
  else low
termination_by high - low

/-- The one of the siblings that contains the position `p`. Only the last one that does not start
after `p` can do so. -/
def siblingAt? (p : Position) (nodes : List Node) : Option Node :=
  match startedBy p nodes 0 nodes.length with
  | 0 => none
  | n + 1 => nodes[n]?.filter fun node => node.range.contains p

theorem mem_of_siblingAt? {p : Position} {nodes : List Node} {node : Node}
    (h : siblingAt? p nodes = some node) : node ∈ nodes := by
  rw [siblingAt?] at h
  split at h
  · simp at h
  · exact List.mem_of_getElem? (Option.eq_some_of_filter_eq_some h)

def pathFrom (p : Position) (node : Node) : List Node :=
  match _h : siblingAt? p node.children with
  | none => [node]
  | some child => node :: pathFrom p child
termination_by node
decreasing_by
  have hmem := List.sizeOf_lt_of_mem (mem_of_siblingAt? _h)
  cases node
  simp only [Node.mk.sizeOf_spec] at hmem ⊢
  omega

def ancestorsAt (tree : Tree) (p : Position) : List Node :=
  match tree.root? with
  | none => []
  | some root => if root.range.contains p then pathFrom p root else []

def findAt? (tree : Tree) (p : Position) : Option Node :=
  (tree.ancestorsAt p).getLast?

end Tree

end QoreSyntax

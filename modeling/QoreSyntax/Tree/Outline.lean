import QoreSyntax.Tree.Basic

namespace QoreSyntax

def Node.entry (depth : Nat) (node : Node) : String :=
  String.ofList (List.replicate (2 * depth) ' ') ++ node.label ++ " [" ++ node.range.text ++ "]"

mutual

/-- The nodes of a tree and their depths, every node before its children, and `rest` after them. -/
def Node.levelsOnto (depth : Nat) (rest : List (Nat × Node)) : Node → List (Nat × Node)
  | ⟨kind, range, payload, children⟩ =>
      (depth, ⟨kind, range, payload, children⟩) :: levelsOfAllOnto (depth + 1) rest children

def levelsOfAllOnto (depth : Nat) (rest : List (Nat × Node)) : List Node → List (Nat × Node)
  | [] => rest
  | node :: nodes => node.levelsOnto depth (levelsOfAllOnto depth rest nodes)

end

/-- The nodes of a tree and their depths, every node before its children. The root has depth
zero. -/
def Node.levels (node : Node) : List (Nat × Node) :=
  node.levelsOnto 0 []

namespace Tree

/-- The nodes of the tree and their depths, every node before its children. -/
def levels (tree : Tree) : List (Nat × Node) :=
  (tree.root?.map Node.levels).getD []

def outline (tree : Tree) : List String :=
  tree.levels.map fun (depth, node) => node.entry depth

def outlineAt (tree : Tree) (p : Position) : List String :=
  (tree.ancestorsAt p).mapIdx Node.entry

end Tree

end QoreSyntax

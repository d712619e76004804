import QoreSyntax.Node.Basic

namespace QoreSyntax

namespace Node

mutual

/-- The node and all nodes below it, every node before its children. -/
def preorder : Node → List Node
  | ⟨kind, range, payload, children⟩ => ⟨kind, range, payload, children⟩ :: preorders children

def preorders : List Node → List Node
  | [] => []
  | node :: rest => node.preorder ++ preorders rest

end

mutual

def size : Node → Nat
  | ⟨_, _, _, children⟩ => sizes children + 1

def sizes : List Node → Nat
  | [] => 0
  | node :: rest => node.size + sizes rest

end

mutual

/-- The number of nodes on the longest path from the root to a leaf. -/
def height : Node → Nat
  | ⟨_, _, _, children⟩ => heights children + 1

def heights : List Node → Nat
  | [] => 0
  | node :: rest => max node.height (heights rest)

end

structure Walk where
  stack : List Node

namespace Walk

def next? (w : Walk) : Option (Node × Walk) :=
  match w.stack with
  | [] => none
  | node :: rest => some (node, ⟨node.children ++ rest⟩)

/-- Visits all nodes. Each visit takes one unit of `fuel`; `visited` holds the nodes before, the
last one first. -/
def collect : (fuel : Nat) → (visited : List Node) → Walk → List Node
  | 0, visited, _ => visited.reverse
  | fuel + 1, visited, w =>
      match w.next? with
      | none => visited.reverse
      | some (node, rest) => collect fuel (node :: visited) rest

end Walk

/-- All nodes of the tree in the order of a visit. -/
def walk (node : Node) : List Node :=
  Walk.collect node.size [] ⟨[node]⟩

def subtreeSize (node : Node) : Nat :=
  node.walk.length

end Node

end QoreSyntax

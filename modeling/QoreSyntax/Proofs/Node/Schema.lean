import QoreSyntax.Proofs.Node.Preorder

namespace QoreSyntax.Node

/-- Where a type is required, a node of this kind stands. -/
def Kind.isTypePlace (kind : Kind) : Bool :=
  kind == .type || kind == .missing || kind == .error

/-- What follows access modifiers in braces. -/
def Kind.isBlockMember (kind : Kind) : Bool :=
  kind == .field || kind == .constant

def Kind.isArm (kind : Kind) : Bool :=
  kind == .case || kind == .default

/-- Where a clause for exceptions is required, a node of this kind stands. -/
def Kind.isHandlerPlace (kind : Kind) : Bool :=
  kind == .catch || kind == .missing

/-- A node of this kind may have children of the kinds `children`. -/
def Kind.admits (kind : Kind) (children : List Kind) : Bool :=
  match kind with
  | .integerLiteral | .floatLiteral | .numberLiteral | .stringLiteral | .dateLiteral
  | .boolLiteral | .nothingLiteral | .nullLiteral | .backquoteLiteral | .regexLiteral
  | .name | .variable | .selfMember | .implicitArgument | .implicitIndex | .selfExpr
  | .modifier | .directive | .empty | .break | .continue | .threadExit | .missing =>
      children.isEmpty
  | .unary | .postfixOp | .member | .paren | .exprStatement | .onExit | .onSuccess | .onError =>
      children.length == 1
  | .baseConstructorCall => children == [.argList]
  | .new | .cast => children.length == 1 || children.length == 2
  | .binary | .assignment | .index | .hashEntry | .while | .doWhile | .select | .fold =>
      children.length == 2
  | .call => children.length == 2 && children[1]? == some .argList
  | .try => children.length == 2 && children[1]?.any isHandlerPlace
  | .if | .map => children.length == 2 || children.length == 3
  | .ternary | .foreach => children.length == 3
  | .for => children.length == 4
  | .hashLiteral => children.all (· == .hashEntry)
  | .paramList => children.all (· == .param)
  | .inheritanceList => !children.isEmpty && children.all (· == .superclass)
  | .superclass => children.all (· == .modifier)
  | .memberBlock => children.all isBlockMember
  | .switch => !children.isEmpty && children.tail.all isArm
  | .type => children.all isTypePlace
  | _ => true

/-- The children of the node are such as its kind promises. -/
def conforms (node : Node) : Bool :=
  node.kind.admits (node.children.map kind)

/-- All nodes of the tree conform. -/
def IsRegular (node : Node) : Prop :=
  ∀ below ∈ node.preorder, below.conforms = true

theorem isRegular_of_children {node : Node} (h : ∀ child ∈ node.children, child.IsRegular)
    (hnode : node.conforms = true) : node.IsRegular := by
  intro below hmem
  rw [preorder_eq, List.mem_cons, mem_preorders_iff] at hmem
  rcases hmem with rfl | ⟨child, hchild, hmem⟩
  · exact hnode
  · exact h child hchild below hmem

/-- A regular tree whose root is of one of the kinds. -/
def IsOf (kinds : Kind → Bool) (node : Node) : Prop :=
  node.IsRegular ∧ kinds node.kind = true

/-- The kinds of the children are among those that are asked for. -/
theorem all_kinds {kinds : Kind → Bool} {nodes : List Node} (h : ∀ node ∈ nodes, node.IsOf kinds) :
    (nodes.map kind).all kinds = true := by
  rw [List.all_map]
  exact List.all_eq_true.mpr fun node hmem => (h node hmem).2

theorem isRegular_of_isOf {kinds : Kind → Bool} {nodes : List Node}
    (h : ∀ node ∈ nodes, node.IsOf kinds) : ∀ node ∈ nodes, node.IsRegular :=
  fun node hmem => (h node hmem).1

end QoreSyntax.Node

import QoreSyntax.Tree.Basic

namespace QoreSyntax

namespace Tree

inductive Fault where
  | invertedRange (node : Node)
  | childOutsideParent (parent child : Node)
  | siblingOrder (first second : Node)
  deriving Repr

def Fault.message : Fault → String
  | .invertedRange node =>
      node.kind.label ++ " node has inverted range " ++ node.range.text
  | .childOutsideParent parent child =>
      child.kind.label ++ " child at " ++ child.range.text ++ " escapes " ++ parent.kind.label
        ++ " parent at " ++ parent.range.text
  | .siblingOrder first second =>
      first.kind.label ++ " at " ++ first.range.text ++ " overlaps or follows sibling "
        ++ second.kind.label ++ " at " ++ second.range.text

def overlap? : List Node → Option (Node × Node)
  | first :: second :: rest =>
      if second.range.start < first.range.stop then some (first, second)
      else overlap? (second :: rest)
  | _ => none

def faultAt? (node : Node) : Option Fault :=
  if node.range.stop < node.range.start then some (.invertedRange node)
  else
    match node.children.find? (fun child => !node.range.encloses child.range) with
    | some child => some (.childOutsideParent node child)
    | none => (overlap? node.children).map fun (first, second) => .siblingOrder first second

/-- The first fault of a tree, in the order of a visit. -/
def fault? (tree : Tree) : Option Fault :=
  tree.walk.findSome? faultAt?

def isWellFormed (tree : Tree) : Bool :=
  tree.fault?.isNone

end Tree

end QoreSyntax

import Mathlib.Tactic.Common
import QoreSyntax.Node.Walk

/-!
How deeply constructs nest in a tree. A suffix and an operator behind an operand are no construct in
which the operand nests: a chain of them may be as long as the text, and the tree is as high as the
chain is long, but each of them is read where the operand before it has been.
-/

namespace QoreSyntax.Node

/-- A node of this kind goes on from its first child, by a suffix or by an operator behind it. -/
def Kind.goesOn : Kind → Bool
  | .member | .index | .slice | .call | .postfixOp | .binary | .assignment | .ternary => true
  | _ => false

mutual

/-- The number of nodes on the longest path from the root to a leaf, where a node that goes on from
its first child does not count on a path to that child. -/
def nesting : Node → Nat
  | ⟨kind, _, _, children⟩ => if kind.goesOn then nestingsFrom children else nestings children + 1

/-- The nesting of a node that goes on from the first of the children. -/
def nestingsFrom : List Node → Nat
  | [] => 1
  | operand :: rest => max operand.nesting (nestings rest + 1)

def nestings : List Node → Nat
  | [] => 0
  | node :: rest => max node.nesting (nestings rest)

end

@[simp] theorem nestings_nil : nestings [] = 0 :=
  rfl

@[simp] theorem nestings_cons (node : Node) (rest : List Node) :
    nestings (node :: rest) = max node.nesting (nestings rest) :=
  rfl

@[simp] theorem nestings_append (nodes rest : List Node) :
    nestings (nodes ++ rest) = max (nestings nodes) (nestings rest) := by
  induction nodes with
  | nil => simp
  | cons node nodes ih => simp [ih, Nat.max_assoc]

@[simp] theorem nestings_reverse (nodes : List Node) :
    nestings nodes.reverse = nestings nodes := by
  induction nodes with
  | nil => rfl
  | cons node nodes ih => simp [ih, Nat.max_comm]

theorem nesting_le (kind : Kind) (range : Range) (payload : Payload) (children : List Node) :
    nesting ⟨kind, range, payload, children⟩ ≤ nestings children + 1 := by
  rw [nesting]
  split_ifs
  · cases children with
    | nil => exact Nat.le_refl _
    | cons operand rest =>
        rw [nestingsFrom, nestings_cons]
        omega
  · exact Nat.le_refl _

theorem nesting_of_goesOn {kind : Kind} (h : kind.goesOn = true) (range : Range)
    (payload : Payload) (operand : Node) (rest : List Node) :
    nesting ⟨kind, range, payload, operand :: rest⟩
      = max operand.nesting (nestings rest + 1) := by
  rw [nesting, if_pos h, nestingsFrom]

end QoreSyntax.Node

import QoreSyntax.Node.Basic

namespace QoreSyntax.Node

inductive Shape where
  | mk (kind : Kind) (payload : Payload) (children : List Shape)

mutual

/-- The tree without the ranges of its nodes. -/
def shape : Node → Shape
  | ⟨kind, _, payload, children⟩ => ⟨kind, payload, shapes children⟩

def shapes : List Node → List Shape
  | [] => []
  | node :: rest => node.shape :: shapes rest

end

theorem name?_eq_of_shape {node : Node} {kind : Kind} {text : String} {children : List Shape}
    (h : node.shape = ⟨kind, .name text, children⟩) : node.name? = some text := by
  obtain ⟨_, _, payload, _⟩ := node
  obtain ⟨-, rfl, -⟩ := Shape.mk.inj h
  rfl

theorem shapes_append (nodes rest : List Node) :
    shapes (nodes ++ rest) = shapes nodes ++ shapes rest := by
  induction nodes with
  | nil => rfl
  | cons node nodes ih => rw [List.cons_append, shapes, shapes, ih, List.cons_append]

theorem shapes_reverse (nodes : List Node) : shapes nodes.reverse = (shapes nodes).reverse := by
  induction nodes with
  | nil => rfl
  | cons node nodes ih =>
      rw [List.reverse_cons, shapes_append, ih, shapes, shapes, shapes, List.reverse_cons]

end QoreSyntax.Node

import QoreSyntax.Grammar.Expression
import QoreSyntax.Proofs.Node.Preorder

namespace QoreSyntax

/-- A literal or a directive: what it is, where it stands and what it says. -/
structure Literal where
  kind : Node.Kind
  range : Range
  payload : Payload
  deriving DecidableEq, Repr

/-- The kind and the payload of the node that a token of this kind has to become. -/
def Token.Kind.literal? : Token.Kind → Option (Node.Kind × Payload)
  | .integer value => some (.integerLiteral, .integer value)
  | .float value => some (.floatLiteral, .float value)
  | .number text => some (.numberLiteral, .number text)
  | .string value => some (.stringLiteral, .string value)
  | .date text => some (.dateLiteral, .date text)
  | .backquote text => some (.backquoteLiteral, .string text)
  | .regex value => some (.regexLiteral, .regex value)
  | .directive name argument => some (.directive, .directive name argument)
  | _ => none

/-- A node of this kind gives back a literal or a directive. -/
def Node.Kind.isVerbatim : Node.Kind → Bool
  | .integerLiteral | .floatLiteral | .numberLiteral | .stringLiteral | .dateLiteral
  | .backquoteLiteral | .regexLiteral | .directive => true
  | _ => false

namespace Literal

def ofToken? (token : Token) : Option Literal :=
  token.kind.literal?.map fun parts => ⟨parts.1, token.range, parts.2⟩

def ofNode? (node : Node) : Option Literal :=
  if node.kind.isVerbatim then some ⟨node.kind, node.range, node.payload⟩ else none

theorem ofToken?_eq_none {token : Token} (h : token.kind.literal? = none) :
    ofToken? token = none := by
  rw [ofToken?, h, Option.map_none]

theorem ofNode?_eq_ofToken? {token : Token} {kind : Node.Kind} {payload : Payload}
    (h : token.kind.literal? = if kind.isVerbatim then some (kind, payload) else none) :
    ofNode? ⟨kind, token.range, payload, []⟩ = ofToken? token := by
  rw [ofToken?, h]
  cases hkind : kind.isVerbatim with
  | true => exact if_pos hkind
  | false => exact if_neg (Bool.eq_false_iff.mp hkind)

/-- An operand of one token gives back the literal that the token is. -/
theorem simpleOperand?_eq {kind : Token.Kind} {nodeKind : Node.Kind} {payload : Payload}
    (h : Grammar.simpleOperand? kind = some (nodeKind, payload)) :
    kind.literal? = if nodeKind.isVerbatim then some (nodeKind, payload) else none := by
  cases kind with
  | keyword word => cases word <;> cases h <;> rfl
  | _ => cases h <;> rfl

end Literal

namespace Node

/-- The literals of the trees, in the order in which their nodes are visited. -/
def literals (nodes : List Node) : List Literal :=
  (preorders nodes).filterMap Literal.ofNode?

@[simp] theorem literals_nil : literals [] = [] :=
  rfl

theorem literals_append (nodes more : List Node) :
    literals (nodes ++ more) = literals nodes ++ literals more := by
  rw [literals, preorders_append, List.filterMap_append, literals, literals]

theorem literals_singleton (node : Node) :
    literals [node] = (Literal.ofNode? node).toList ++ literals node.children := by
  rw [literals, preorders_cons, preorders_nil, List.append_nil, preorder_eq, List.filterMap_cons]
  cases Literal.ofNode? node <;> rfl

/-- A node that gives back no literal has those of its children. -/
theorem literals_of_not_isVerbatim {node : Node} (h : node.kind.isVerbatim = false) :
    literals [node] = literals node.children := by
  rw [literals_singleton, Literal.ofNode?, h]
  rfl

end Node

end QoreSyntax

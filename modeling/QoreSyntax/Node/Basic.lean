import QoreSyntax.Decimal.Format
import QoreSyntax.Node.Kind
import QoreSyntax.Source.Position
import QoreSyntax.Text.Quoted
import QoreSyntax.Token.Kind

namespace QoreSyntax

inductive Payload where
  | none
  | name (text : String)
  | operator (text : String)
  | integer (value : Int)
  | float (value : Binary64)
  /-- A number of any precision, as written. -/
  | number (text : String)
  | string (value : String)
  | date (text : String)
  | bool (value : Bool)
  | regex (value : Regex)
  | directive (name argument : String)
  deriving DecidableEq, Repr

structure Node where
  kind : Node.Kind
  range : Range
  payload : Payload
  children : List Node
  deriving Repr

/-- Numbers in labels are written without an exponent. -/
def Payload.labelFormat : Decimal.Format :=
  { tieUp := true
    positional := Option.none
    pointZero := false
    infinite := fun negative => if negative then "-inf" else "inf"
    nan := "NaN" }

def Payload.label? : Payload → Option String
  | .none => Option.none
  | .name text | .operator text | .date text => some text
  | .integer value => some (toString value)
  | .float value => some (labelFormat.number value)
  | .number text => some (text ++ "n")
  | .string value => some (Text.quoted value)
  | .bool value => some (if value then "true" else "false")
  | .regex value => some ("/" ++ value.pattern ++ "/" ++ value.flags)
  | .directive title argument =>
      some ("%" ++ title ++ (if argument.isEmpty then "" else " " ++ argument))

namespace Node

def name? (node : Node) : Option String :=
  match node.payload with
  | .name text => some text
  | _ => none

def operator? (node : Node) : Option String :=
  match node.payload with
  | .operator text => some text
  | _ => none

def child? (node : Node) (kind : Kind) : Option Node :=
  node.children.find? (·.kind == kind)

def childrenOf (node : Node) (kind : Kind) : List Node :=
  node.children.filter (·.kind == kind)

def label (node : Node) : String :=
  match node.payload.label? with
  | none => node.kind.label
  | some text => node.kind.label ++ " " ++ text

end Node

end QoreSyntax

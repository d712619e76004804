import QoreSyntax.Json.Basic
import QoreSyntax.Tree.Basic

namespace QoreSyntax

namespace Json

def ofNat (n : Nat) : Json :=
  .number (toString n)

def ofOption : Option String → Json
  | some s => .string s
  | none => .null

/-- Floating-point numbers are positional from `10 ^ (-5)` to below `10 ^ 16`, whole ones end in
`.0`, and what is no finite number is null. -/
def floatFormat : Decimal.Format :=
  { tieUp := false
    positional := some (-5, 15)
    pointZero := true
    infinite := fun _ => "null"
    nan := "null" }

def ofPosition (p : Position) : Json :=
  .object [("line", ofNat p.line), ("column", ofNat p.column)]

def ofRange (r : Range) : Json :=
  .object [("start", ofPosition r.start), ("end", ofPosition r.stop)]

def purposeName : Regex.Purpose → String
  | .match => "Match"
  | .substitute => "Substitute"
  | .extract => "Extract"
  | .transliterate => "Transliterate"

def ofRegex (r : Regex) : Json :=
  .object [("kind", .string (purposeName r.purpose)), ("pattern", .string r.pattern),
    ("replacement", ofOption r.replacement), ("flags", .string r.flags)]

/-- A payload, as an object with its form as the name of the only member. -/
def ofPayload : Payload → Json
  | .none => .string "None"
  | .name text => .object [("Name", .string text)]
  | .operator text => .object [("Operator", .string text)]
  | .integer value => .object [("Integer", .number (toString value))]
  | .float value => .object [("Float", .number (floatFormat.number value))]
  | .number text => .object [("Number", .string text)]
  | .string value => .object [("String", .string value)]
  | .date text => .object [("Date", .string text)]
  | .bool value => .object [("Bool", .bool value)]
  | .regex value => .object [("Regex", ofRegex value)]
  | .directive name argument =>
      .object [("Directive", .object [("name", .string name), ("argument", .string argument)])]

mutual

def ofNode : Node → Json
  | ⟨kind, range, payload, children⟩ =>
      .object [("kind", .string kind.label), ("range", ofRange range),
        ("value", ofPayload payload), ("children", .array (ofNodes children))]

def ofNodes : List Node → List Json
  | [] => []
  | node :: rest => ofNode node :: ofNodes rest

end

def ofTree (tree : Tree) : Json :=
  .object [("root", (tree.root?.map ofNode).getD .null)]

end Json

end QoreSyntax

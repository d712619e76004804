namespace QoreSyntax

inductive Json where
  | null
  | bool (value : Bool)
  | number (text : String)
  | string (value : String)
  | array (items : List Json)
  | object (members : List (String × Json))

namespace Json

def codeDigits (n : Nat) : List Char :=
  ['0', '0'] ++ (if n < 16 then ['0'] else []) ++ Nat.toDigits 16 n

def escapedChar (c : Char) : List Char :=
  match c with
  | '"' => ['\\', '"']
  | '\\' => ['\\', '\\']
  | '\x08' => ['\\', 'b']
  | '\x0c' => ['\\', 'f']
  | '\n' => ['\\', 'n']
  | '\r' => ['\\', 'r']
  | '\t' => ['\\', 't']
  | c => if c.toNat < 0x20 then ['\\', 'u'] ++ codeDigits c.toNat else [c]

def quoted (s : String) : String :=
  String.ofList ('"' :: s.toList.flatMap escapedChar ++ ['"'])

def newline (level : Nat) : String :=
  "\n" ++ String.ofList (List.replicate (2 * level) ' ')

mutual

def write (level : Nat) (before : String) : Json → String
  | .null => before ++ "null"
  | .bool value => before ++ (if value then "true" else "false")
  | .number text => before ++ text
  | .string value => before ++ quoted value
  | .array [] => before ++ "[]"
  | .array (item :: items) =>
      writeItems (level + 1) (write (level + 1) (before ++ "[" ++ newline (level + 1)) item) items
        ++ newline level ++ "]"
  | .object [] => before ++ "\x7b\x7d"
  | .object (member :: members) =>
      writeMembers (level + 1)
          (writeMember (level + 1) (before ++ "\x7b" ++ newline (level + 1)) member) members
        ++ newline level ++ "\x7d"

def writeItems (level : Nat) (before : String) : List Json → String
  | [] => before
  | item :: items =>
      writeItems level (write level (before ++ "," ++ newline level) item) items

def writeMember (level : Nat) (before : String) : String × Json → String
  | (name, value) => write level (before ++ quoted name ++ ": ") value

def writeMembers (level : Nat) (before : String) : List (String × Json) → String
  | [] => before
  | member :: members =>
      writeMembers level (writeMember level (before ++ "," ++ newline level) member) members

end

def text (value : Json) : String :=
  value.write 0 ""

end Json

end QoreSyntax

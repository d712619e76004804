import QoreSyntax.Text.Blocks

set_option maxRecDepth 10000

namespace QoreSyntax.Text

def whitespaceBlocks : Blocks :=
  #[(0x85, 0x85), (0xa0, 0xa0), (0x1680, 0x1680), (0x2000, 0x200a), (0x2028, 0x2029),
    (0x202f, 0x202f), (0x205f, 0x205f), (0x3000, 0x3000)]

/-- A white-space character. In ASCII these are the blank and the five controls from the tab to the
carriage return. -/
def isWhitespace (c : Char) : Bool :=
  if c.toNat < 0x80 then c == ' ' || (9 ≤ c.toNat && c.toNat ≤ 13) else whitespaceBlocks.contains c

def trimEnd : List Char → List Char
  | [] => []
  | c :: cs =>
      match trimEnd cs with
      | [] => if isWhitespace c then [] else [c]
      | ds => c :: ds

def trim (cs : List Char) : List Char :=
  (trimEnd cs).dropWhile isWhitespace

end QoreSyntax.Text

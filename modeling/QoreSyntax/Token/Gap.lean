import QoreSyntax.Source.Cursor

namespace QoreSyntax.Token

def isBlank (c : Char) : Bool :=
  c == ' ' || c == '\t' || c == '\x0c' || isLineEnd c

def opensComment (text : List Char) : Bool :=
  ['/', '*'].isPrefixOf text

/-- The number of characters up to the end of the first `*/`, and `count` more. -/
def commentEnd? (count : Nat) : List Char → Option Nat
  | [] => none
  | c :: cs =>
      if c == '*' && cs.head? == some '/' then some (count + 2)
      else commentEnd? (count + 1) cs

def pieceLength : List Char → Nat
  | [] => 0
  | c :: cs =>
      if isBlank c then 1
      else if c == '#' then 1 + (cs.takeWhile (!isLineEnd ·)).length
      else if opensComment (c :: cs) then (commentEnd? 2 (cs.drop 1)).getD 0
      else 0

/-- The length of the gap with which the text begins, and `count` more. The first `skip` characters
belong to a piece of the gap that has been recognised before. -/
def gapFrom : (skip count : Nat) → List Char → Nat
  | _, count, [] => count
  | skip + 1, count, _ :: cs => gapFrom skip (count + 1) cs
  | 0, count, c :: cs =>
      match pieceLength (c :: cs) with
      | 0 => count
      | skip + 1 => gapFrom skip (count + 1) cs

def gapLength (text : List Char) : Nat :=
  gapFrom 0 0 text

end QoreSyntax.Token

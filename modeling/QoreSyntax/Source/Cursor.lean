import QoreSyntax.Source.Position

/-!
Reading a text from left to right. A `Cursor` holds the text still to be read together with the
place where it begins, in bytes and in lines and columns.

A line ends at a line feed, or at a carriage return that no line feed follows: so each of the
three usual line endings counts once, at its last character.
-/

namespace QoreSyntax

def isLineEnd (c : Char) : Bool :=
  c == '\n' || c == '\r'

def endsLine (c : Char) (rest : List Char) : Bool :=
  c == '\n' || (c == '\r' && rest.head? != some '\n')

def Position.next (p : Position) (c : Char) (rest : List Char) : Position :=
  if endsLine c rest then ⟨p.line + 1, 1⟩ else ⟨p.line, p.column + 1⟩

structure Cursor where
  rest : List Char
  /-- The number of bytes before `rest`. -/
  offset : Nat
  position : Position
  deriving DecidableEq, Repr

namespace Cursor

def ofText (text : List Char) (line : Nat) : Cursor :=
  ⟨text, 0, ⟨line, 1⟩⟩

def skip : Nat → Cursor → Cursor
  | 0, cursor => cursor
  | _ + 1, ⟨[], offset, position⟩ => ⟨[], offset, position⟩
  | n + 1, ⟨c :: rest, offset, position⟩ =>
      skip n ⟨rest, offset + c.utf8Size, position.next c rest⟩

theorem skip_nil (n offset : Nat) (position : Position) :
    skip n ⟨[], offset, position⟩ = ⟨[], offset, position⟩ := by
  cases n <;> rfl

theorem skip_skip (m n : Nat) (cursor : Cursor) :
    (cursor.skip m).skip n = cursor.skip (m + n) := by
  induction m generalizing cursor with
  | zero => rw [Nat.zero_add]; rfl
  | succ m ih =>
      obtain ⟨rest, offset, position⟩ := cursor
      rw [Nat.add_right_comm]
      cases rest with
      | nil => simp only [skip_nil]
      | cons c rest => exact ih _

theorem rest_skip (n : Nat) (cursor : Cursor) :
    (cursor.skip n).rest = cursor.rest.drop n := by
  induction n generalizing cursor with
  | zero => rfl
  | succ n ih =>
      obtain ⟨rest, offset, position⟩ := cursor
      cases rest with
      | nil => rfl
      | cons c rest => exact ih _

end Cursor

end QoreSyntax

import Mathlib.Tactic.Common
import QoreSyntax.Proofs.Token.Stream

namespace QoreSyntax

/-- The position `n` lines further down. -/
def Position.down (n : Nat) (p : Position) : Position :=
  ⟨p.line + n, p.column⟩

def Range.down (n : Nat) (r : Range) : Range :=
  ⟨r.start.down n, r.stop.down n⟩

def Cursor.down (n : Nat) (cursor : Cursor) : Cursor :=
  { cursor with position := cursor.position.down n }

def LexicalError.down (n : Nat) (e : LexicalError) : LexicalError :=
  { e with range := e.range.down n }

theorem Position.next_down (n : Nat) (p : Position) (c : Char) (rest : List Char) :
    (p.down n).next c rest = (p.next c rest).down n := by
  rw [next, next]
  split_ifs
  · simp only [down, Nat.add_right_comm]
  · rfl

theorem Cursor.skip_down (n m : Nat) (cursor : Cursor) :
    (cursor.down n).skip m = (cursor.skip m).down n := by
  induction m generalizing cursor with
  | zero => rfl
  | succ m ih =>
      rcases cursor with ⟨_ | ⟨c, rest⟩, offset, position⟩
      · rfl
      · rw [down, skip, skip, Position.next_down]
        exact ih ⟨rest, offset + c.utf8Size, position.next c rest⟩

namespace Token

def down (n : Nat) (t : Token) : Token :=
  { t with range := t.range.down n }

def Reader.down (n : Nat) (r : Reader) : Reader :=
  { r with cursor := r.cursor.down n }

def Stream.down (n : Nat) (s : Stream) : Stream :=
  ⟨s.tokens.map (Token.down n), s.final.down n⟩

namespace Reader

theorem next_down (n : Nat) (r : Reader) :
    (r.down n).next = (r.next.1.down n, r.next.2.down n) := by
  have hgap : (r.down n).gapEnd = r.gapEnd.down n := Cursor.skip_down n _ r.cursor
  have hnewline : ∀ p q : Position, (p.down n).line < (q.down n).line ↔ p.line < q.line :=
    fun p q => Nat.add_lt_add_iff_right
  have hlexeme : (r.down n).lexeme = r.lexeme := by
    rw [lexeme, lexeme, hgap]
    simp only [down, Cursor.down, hnewline]
  rw [next_eq, next_eq, hlexeme, hgap, Cursor.skip_down]
  simp only [down, Token.down, Range.down, Cursor.down, hnewline]

theorem stream_down (n : Nat) (r : Reader) : (r.down n).stream = r.stream.down n := by
  induction r using stream_induction with
  | atEnd r h =>
      have hdown : (r.down n).next.1.isEof = true := by
        rw [next_down]
        exact h
      rw [stream_of_isEof h, stream_of_isEof hdown, next_down]
      rfl
  | before r h ih =>
      have hdown : (r.down n).next.1.isEof = false := by
        rw [next_down]
        exact h
      rw [stream_of_not_isEof h, stream_of_not_isEof hdown, next_down, ih]
      rfl

theorem ofText_down (text : List Char) {line : Nat} (hline : 1 ≤ line) :
    ofText text line = (ofText text 1).down (line - 1) := by
  have hmax : max line 1 = 1 + (line - 1) := by omega
  simp [ofText, down, Cursor.down, Cursor.ofText, Position.down, hmax]

end Reader

/-- A text is read in the same way whatever the number of its first line is. -/
theorem Stream.ofText_down (text : List Char) {line : Nat} (hline : 1 ≤ line) :
    ofText text line = (ofText text 1).down (line - 1) := by
  rw [ofText, Reader.ofText_down text hline, Reader.stream_down]
  rfl

end Token

namespace LexicalError

theorem ofToken?_down (n : Nat) (t : Token) : ofToken? (t.down n) = (ofToken? t).map (down n) := by
  rw [ofToken?, ofToken?]
  simp only [Token.down]
  split <;> rfl

theorem ofText_down (text : List Char) {line : Nat} (hline : 1 ≤ line) :
    ofText text line = (ofText text 1).map (down (line - 1)) := by
  rw [ofText, Token.Stream.ofText_down text hline, Token.Stream.down, List.filterMap_map, ofText,
    List.map_filterMap]
  congr 1
  funext t
  exact ofToken?_down _ t

end LexicalError

end QoreSyntax

import Mathlib.Data.List.Basic
import Mathlib.Data.String.Basic
import QoreSyntax.Proofs.Source.Order

namespace QoreSyntax

open String (utf8Len)

/-- The span is that of the characters `piece`, behind which `after` is the rest of the text. -/
def Span.Cuts (span : Span) (text piece after : List Char) : Prop :=
  ∃ front, text = front ++ piece ++ after ∧
    span.start = utf8Len front ∧ span.stop = utf8Len (front ++ piece)

theorem Span.Cuts.start_lt_stop {span : Span} {text piece after : List Char}
    (h : span.Cuts text piece after) (hpiece : piece ≠ []) : span.start < span.stop := by
  obtain ⟨front, -, hstart, hstop⟩ := h
  have hpos : utf8Len piece ≠ 0 := fun hzero => hpiece (String.utf8Len_eq_zero.mp hzero)
  rw [hstart, hstop, String.utf8Len_append]
  omega

namespace Cursor

theorem offset_skip (n : Nat) (cursor : Cursor) :
    (cursor.skip n).offset = cursor.offset + utf8Len (cursor.rest.take n) := by
  induction n generalizing cursor with
  | zero => rfl
  | succ n ih =>
      rcases cursor with ⟨_ | ⟨c, rest⟩, offset, position⟩
      · rfl
      · rw [skip, ih, List.take_succ_cons, String.utf8Len_cons]
        dsimp only
        omega

theorem offset_le_skip (n : Nat) (cursor : Cursor) : cursor.offset ≤ (cursor.skip n).offset := by
  rw [offset_skip]
  exact Nat.le_add_right _ _

theorem offset_skip_ofText (text : List Char) (line n : Nat) :
    ((ofText text line).skip n).offset = utf8Len (text.take n) := by
  rw [offset_skip]
  exact Nat.zero_add _

/-- There is nothing to pass over behind the end of the text. -/
theorem skip_min (n : Nat) (cursor : Cursor) :
    cursor.skip (min n cursor.rest.length) = cursor.skip n := by
  induction n generalizing cursor with
  | zero => rw [Nat.zero_min]
  | succ n ih =>
      rcases cursor with ⟨_ | ⟨c, rest⟩, offset, position⟩
      · rfl
      · rw [List.length_cons, Nat.succ_min_succ]
        exact ih ⟨rest, offset + c.utf8Size, position.next c rest⟩

/-- The characters between two places in a text have the span between them. -/
theorem cuts_skip (text : List Char) (line m n : Nat) :
    Span.Cuts ⟨((ofText text line).skip m).offset, (((ofText text line).skip m).skip n).offset⟩
      text (((ofText text line).skip m).rest.take n) (((ofText text line).skip m).rest.drop n) := by
  have hrest : ((ofText text line).skip m).rest = text.drop m := rest_skip m _
  have hstart := offset_skip_ofText text line m
  refine ⟨text.take m, ?_, hstart, ?_⟩
  · rw [hrest, List.append_assoc, List.take_append_drop, List.take_append_drop]
  · dsimp only
    rw [offset_skip, hrest, hstart, String.utf8Len_append]

theorem position_skip_succ {n : Nat} {cursor : Cursor} {c : Char} {rest : List Char}
    (h : cursor.rest.drop n = c :: rest) :
    (cursor.skip (n + 1)).position = (cursor.skip n).position.next c rest := by
  rw [← rest_skip] at h
  rw [← skip_skip]
  rcases hcursor : cursor.skip n with ⟨text, offset, position⟩
  rw [hcursor] at h
  obtain rfl : text = c :: rest := h
  rfl

end Cursor

/-- The number of characters of the text that begin before the byte `offset`. -/
def countBefore : (offset : Nat) → (text : List Char) → Nat
  | _, [] => 0
  | 0, _ :: _ => 0
  | offset + 1, c :: cs => countBefore (offset + 1 - c.utf8Size) cs + 1

/-- A line ends with the character at the index `i`: it is a line feed, or a carriage return that no
line feed follows. -/
def endsLineAt (text : List Char) (i : Nat) : Bool :=
  text[i]? == some '\n' || (text[i]? == some '\r' && text[i + 1]? != some '\n')

/-- Where lines end among the first `n` characters. -/
def lineEnds (text : List Char) (n : Nat) : List Nat :=
  (List.range n).filter (endsLineAt text)

/-- The number of characters before the line to which the place behind the first `n` characters
belongs. -/
def lineStart (text : List Char) (n : Nat) : Nat :=
  ((lineEnds text n).getLast?.map (· + 1)).getD 0

/-- The position of the byte `offset` in a text whose first line has the number `line`. -/
def Position.ofOffset (text : List Char) (line offset : Nat) : Position :=
  let n := countBefore offset text
  ⟨line + (lineEnds text n).length, 1 + (n - lineStart text n)⟩

theorem countBefore_utf8Len_take (text : List Char) {n : Nat} (hn : n ≤ text.length) :
    countBefore (utf8Len (text.take n)) text = n := by
  induction text generalizing n with
  | nil => exact (Nat.le_zero.mp hn).symm
  | cons c cs ih =>
      cases n with
      | zero => rfl
      | succ n =>
          have hpos := c.utf8Size_pos
          obtain ⟨k, hk⟩ : ∃ k, utf8Len (cs.take n) + c.utf8Size = k + 1 :=
            Nat.exists_eq_succ_of_ne_zero (by omega)
          rw [List.take_succ_cons, String.utf8Len_cons, hk, countBefore, ← hk,
            Nat.add_sub_cancel, ih (Nat.le_of_succ_le_succ hn)]

theorem lineEnds_succ (text : List Char) (n : Nat) :
    lineEnds text (n + 1) = lineEnds text n ++ if endsLineAt text n then [n] else [] := by
  rw [lineEnds, lineEnds, List.range_succ, List.filter_append, List.filter_singleton]
  split_ifs <;> simp_all

theorem lineStart_succ (text : List Char) (n : Nat) :
    lineStart text (n + 1) = if endsLineAt text n then n + 1 else lineStart text n := by
  rw [lineStart, lineEnds_succ]
  split_ifs
  · rw [List.getLast?_concat]
    rfl
  · rw [List.append_nil, lineStart]

theorem lineStart_le (text : List Char) (n : Nat) : lineStart text n ≤ n := by
  rw [lineStart]
  cases hlast : (lineEnds text n).getLast? with
  | none => exact Nat.zero_le n
  | some i =>
      have hmem := List.mem_of_getLast? hlast
      exact List.mem_range.mp (List.mem_filter.mp hmem).1

theorem endsLineAt_eq {text rest : List Char} {c : Char} {n : Nat} (h : text.drop n = c :: rest) :
    endsLineAt text n = endsLine c rest := by
  have hc : text[n]? = some c := by
    rw [← List.head?_drop, h, List.head?_cons]
  have hrest : text[n + 1]? = rest.head? := by
    rw [← List.head?_drop, ← List.tail_drop, h, List.tail_cons]
  rw [endsLineAt, endsLine, hc, hrest]
  rfl

namespace Cursor

/-- The position behind the first characters of a text, by the line ends among them. -/
theorem position_skip_ofText (text : List Char) (line : Nat) {n : Nat} (hn : n ≤ text.length) :
    ((ofText text line).skip n).position =
      ⟨line + (lineEnds text n).length, 1 + (n - lineStart text n)⟩ := by
  induction n with
  | zero => rfl
  | succ n ih =>
      obtain ⟨c, rest, hcons⟩ : ∃ c rest, text.drop n = c :: rest := by
        apply List.exists_cons_of_ne_nil
        rw [Ne, List.drop_eq_nil_iff]
        omega
      have hle := lineStart_le text n
      rw [position_skip_succ hcons, ih (by omega), Position.next, ← endsLineAt_eq hcons,
        lineStart_succ, lineEnds_succ]
      split_ifs with hends
      · rw [List.length_append, List.length_singleton, Nat.sub_self, Nat.add_assoc]
      · rw [List.append_nil, Nat.sub_add_comm hle, Nat.add_assoc]

/-- The position of a cursor follows from its offset. -/
theorem position_eq_ofOffset (text : List Char) (line n : Nat) :
    ((ofText text line).skip n).position =
      Position.ofOffset text line ((ofText text line).skip n).offset := by
  have hle : min n text.length ≤ text.length := Nat.min_le_right _ _
  have hmin : (ofText text line).skip n = (ofText text line).skip (min n text.length) :=
    (skip_min n (ofText text line)).symm
  rw [hmin, position_skip_ofText text line hle, offset_skip_ofText, Position.ofOffset,
    countBefore_utf8Len_take text hle]

end Cursor

end QoreSyntax

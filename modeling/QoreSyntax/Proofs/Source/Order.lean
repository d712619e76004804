import Mathlib.Order.Basic
import QoreSyntax.Source.Cursor

namespace QoreSyntax

instance Position.instLinearOrder : LinearOrder Position where
  le_refl p := Position.le_iff.mpr (by omega)
  le_trans p q r := by
    simp only [Position.le_iff]
    omega
  lt_iff_le_not_ge p q := by
    simp only [Position.le_iff, Position.lt_iff]
    omega
  le_antisymm p q hpq hqp := by
    rcases p with ⟨line, column⟩
    rcases q with ⟨line', column'⟩
    simp only [Position.le_iff] at hpq hqp
    simp only [Position.mk.injEq]
    omega
  le_total p q := by
    simp only [Position.le_iff]
    omega
  toDecidableLE := inferInstance
  toDecidableEq := inferInstance
  toDecidableLT := inferInstance
  min := Position.earlier
  max := Position.later

namespace Position

theorem earlier_le_left (p q : Position) : p.earlier q ≤ p :=
  min_le_left p q

theorem earlier_le_right (p q : Position) : p.earlier q ≤ q :=
  min_le_right p q

theorem le_earlier {p q r : Position} (hq : p ≤ q) (hr : p ≤ r) : p ≤ q.earlier r :=
  le_min hq hr

theorem le_later_left (p q : Position) : p ≤ p.later q :=
  le_max_left p q

theorem le_later_right (p q : Position) : q ≤ p.later q :=
  le_max_right p q

theorem later_le {p q r : Position} (hp : p ≤ r) (hq : q ≤ r) : p.later q ≤ r :=
  max_le hp hq

end Position

namespace Range

theorem contains_iff {r : Range} {p : Position} :
    r.contains p = true ↔ r.start ≤ p ∧ p < r.stop := by
  simp only [contains, Bool.and_eq_true, decide_eq_true_eq]

theorem encloses_iff {r inner : Range} :
    r.encloses inner = true ↔ r.start ≤ inner.start ∧ inner.stop ≤ r.stop := by
  simp only [encloses, Bool.and_eq_true, decide_eq_true_eq]

end Range

theorem Position.lt_next (p : Position) (c : Char) (rest : List Char) : p < p.next c rest := by
  rw [Position.next]
  split_ifs
  · exact Position.lt_iff.mpr (Or.inl (Nat.lt_succ_self _))
  · exact Position.lt_iff.mpr (Or.inr ⟨rfl, Nat.lt_succ_self _⟩)

theorem Position.next_of_not_endsLine {c : Char} {rest : List Char} (h : endsLine c rest = false)
    (p : Position) : p.next c rest = ⟨p.line, p.column + 1⟩ := by
  rw [Position.next, h]
  rfl

namespace Cursor

theorem position_le_skip (n : Nat) (cursor : Cursor) :
    cursor.position ≤ (cursor.skip n).position := by
  induction n generalizing cursor with
  | zero => exact le_rfl
  | succ n ih =>
      rcases cursor with ⟨_ | ⟨c, rest⟩, offset, position⟩
      · exact le_rfl
      · exact (Position.lt_next position c rest).le.trans (ih _)

theorem position_lt_skip {n : Nat} (hn : 0 < n) {cursor : Cursor} (hrest : cursor.rest ≠ []) :
    cursor.position < (cursor.skip n).position := by
  rcases cursor with ⟨_ | ⟨c, rest⟩, offset, position⟩
  · exact absurd rfl hrest
  · cases n with
    | zero => exact absurd hn (Nat.lt_irrefl 0)
    | succ n => exact (Position.lt_next position c rest).trans_le (position_le_skip n _)

theorem rest_length_skip (n : Nat) (cursor : Cursor) :
    (cursor.skip n).rest.length = cursor.rest.length - n := by
  rw [rest_skip, List.length_drop]

end Cursor

end QoreSyntax

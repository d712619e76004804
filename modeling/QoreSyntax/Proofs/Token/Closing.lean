import Mathlib.Tactic.Common
import QoreSyntax.Token.Lexeme.Enclosed

namespace QoreSyntax.Token

variable {close : Char}

/-- The characters hold no mark that closes a literal, however the text goes on. -/
def IsPassedOver (close : Char) (chars : List Char) : Prop :=
  ∀ count rest, closing? close true count (chars ++ rest)
    = closing? close true (count + chars.length) rest

namespace IsPassedOver

theorem nil : IsPassedOver close [] :=
  fun _ _ => rfl

theorem append {chars more : List Char} (h : IsPassedOver close chars)
    (hmore : IsPassedOver close more) : IsPassedOver close (chars ++ more) := by
  intro count rest
  rw [List.append_assoc, h, hmore, List.length_append, Nat.add_assoc]

theorem plain {c : Char} (hclose : c ≠ close) (hbackslash : c ≠ '\\') :
    IsPassedOver close [c] := by
  intro count rest
  have hnot : (c == close) = false := beq_eq_false_iff_ne.mpr hclose
  have hescape : (true && c == '\\') = false := beq_eq_false_iff_ne.mpr hbackslash
  rw [List.singleton_append, closing?.eq_def]
  simp only [hnot, hescape, Bool.false_eq_true, if_false, List.length_singleton]

theorem pair (hclose : close ≠ '\\') (c : Char) : IsPassedOver close ['\\', c] := by
  intro count rest
  have hnot : ('\\' == close) = false := beq_eq_false_iff_ne.mpr hclose.symm
  rw [List.cons_append, List.singleton_append, closing?.eq_def]
  simp only [hnot, Bool.false_eq_true, if_false, BEq.rfl, Bool.and_self, if_true,
    List.length_cons, List.length_nil]

theorem flatten {items : List (List Char)} (h : ∀ item ∈ items, IsPassedOver close item) :
    IsPassedOver close items.flatten := by
  induction items with
  | nil => exact nil
  | cons item items ih =>
      obtain ⟨hitem, hitems⟩ := List.forall_mem_cons.mp h
      exact hitem.append (ih hitems)

/-- The mark behind the characters is the one that closes the literal. -/
theorem closing?_eq {chars : List Char} (h : IsPassedOver close chars) (rest : List Char) :
    closing? close true 0 (chars ++ close :: rest) = some chars.length := by
  rw [h, Nat.zero_add, closing?.eq_def]
  simp only [BEq.rfl, if_true]

end IsPassedOver

end QoreSyntax.Token

import Mathlib.Data.List.TakeWhile
import QoreSyntax.Proofs.Token.Lexeme

/-!
A line end ends a token. What is read at the beginning of a text stays the same if the text goes on
behind a line end, unless it is a literal or a comment that has not been closed: such a one may be
closed on one of the lines that follow.
-/

namespace QoreSyntax.Token

section Parts

variable {p : Char → Bool} (hp : p '\n' = false)
include hp

theorem takeWhile_append_lineEnd (text rest : List Char) :
    (text ++ '\n' :: rest).takeWhile p = text.takeWhile p := by
  induction text with
  | nil => exact List.takeWhile_cons_of_neg (by simp [hp])
  | cons c text ih => rw [List.cons_append, List.takeWhile_cons, List.takeWhile_cons, ih]

theorem any_head?_append_lineEnd (text rest : List Char) :
    (text ++ '\n' :: rest).head?.any p = text.head?.any p := by
  cases text with
  | nil => exact hp
  | cons c text => rfl

end Parts

theorem isPrefixOf_append_lineEnd {front : List Char} (hfront : '\n' ∉ front)
    (text rest : List Char) : front.isPrefixOf (text ++ '\n' :: rest) = front.isPrefixOf text := by
  induction front generalizing text with
  | nil => rw [List.isPrefixOf_nil_left, List.isPrefixOf_nil_left]
  | cons c front ih =>
      obtain ⟨hc, hfront⟩ := not_or.mp (mt List.mem_cons.mpr hfront)
      cases text with
      | nil =>
          change (c == '\n' && front.isPrefixOf rest) = false
          rw [beq_eq_false_iff_ne.mpr (Ne.symm hc), Bool.false_and]
      | cons d text => rw [List.cons_append, List.isPrefixOf, List.isPrefixOf, ih hfront]

/-- The part with which a text begins is the same if the text goes on behind a line end. -/
structure Local (part : List Char → List Char) : Prop where
  isPrefix (text : List Char) : part text <+: text
  append_eq (text rest : List Char) : part (text ++ '\n' :: rest) = part text

namespace Local

theorem takeWhile {p : Char → Bool} (hp : p '\n' = false) : Local (List.takeWhile p) :=
  ⟨fun _ => List.takeWhile_prefix p, takeWhile_append_lineEnd hp⟩

variable {part : List Char → List Char} (h : Local part)
include h

theorem length_le (text : List Char) : (part text).length ≤ text.length :=
  (h.isPrefix text).length_le

/-- What follows on the part goes on behind the line end as well. -/
theorem drop_eq (text rest : List Char) :
    (text ++ '\n' :: rest).drop (part text).length
      = text.drop (part text).length ++ '\n' :: rest :=
  List.drop_append_of_le_length (h.length_le text)

/-- The part together with another one behind it. -/
theorem append {other : List Char → List Char} (hother : Local other) :
    Local fun text => part text ++ other (text.drop (part text).length) where
  isPrefix text := by
    have htext := List.prefix_iff_eq_append.mp (h.isPrefix text)
    have hprefix := (List.prefix_append_right_inj (part text)).mpr
      (hother.isPrefix (text.drop (part text).length))
    rwa [htext] at hprefix
  append_eq text rest := by
    rw [h.append_eq, h.drop_eq, hother.append_eq]

end Local

/-- What is read at the beginning of the text, `before` characters behind the beginning of the
token, ends in the text and is the same if the text goes on behind a line end. -/
structure EndsIn (before : Nat) (read : List Char → Lexeme) (text : List Char) : Prop where
  length_le : (read text).length ≤ before + text.length
  append_eq (rest : List Char) : read (text ++ '\n' :: rest) = read text

namespace EndsIn

variable {before : Nat} {read other : List Char → Lexeme} {text : List Char}

/-- What is read behind the opening mark of a token ends in the text as well. -/
theorem drop (h : EndsIn before read (text.drop before)) (hbefore : before ≤ text.length) :
    EndsIn 0 (fun text => read (text.drop before)) text where
  length_le := by
    have hlength := h.length_le
    rw [List.length_drop] at hlength
    omega
  append_eq rest := by
    rw [List.drop_append_of_le_length hbefore, h.append_eq]

theorem of_eq (h : EndsIn before read text) (htext : other text = read text)
    (happend : ∀ rest, other (text ++ '\n' :: rest) = read (text ++ '\n' :: rest)) :
    EndsIn before other text where
  length_le := htext ▸ h.length_le
  append_eq rest := by rw [happend, htext, h.append_eq]

end EndsIn

end QoreSyntax.Token

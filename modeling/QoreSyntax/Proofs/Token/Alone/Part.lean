import Mathlib.Data.List.TakeWhile
import QoreSyntax.Token.Lexeme.Leading

namespace QoreSyntax.Token

/-- The part with which a text begins is the same if the text ends anywhere behind it. -/
structure Intrinsic (part : List Char → List Char) : Prop where
  take_eq {text : List Char} {n : Nat} (h : (part text).length ≤ n) :
    part (text.take n) = part text

namespace Intrinsic

theorem takeWhile (p : Char → Bool) : Intrinsic (List.takeWhile p) where
  take_eq h := by
    rw [← List.take_takeWhile]
    exact List.take_of_length_le h

/-- Only texts that begin with a character and end behind it have to be considered. -/
theorem of_cons {part : List Char → List Char} (hnil : part [] = [])
    (hcons : ∀ {c cs n}, (part (c :: cs)).length ≤ n + 1 →
      part (c :: cs.take n) = part (c :: cs)) : Intrinsic part where
  take_eq {text n} hlength := by
    rcases text with - | ⟨c, cs⟩
    · rw [List.take_nil]
    rcases n with - | n
    · rw [List.take_zero, List.length_eq_zero_iff.mp (Nat.le_zero.mp hlength), hnil]
    · exact hcons hlength

end Intrinsic

/-- What is read of the text, `before` characters behind the beginning of the token, is read in the
same way if the text ends where the token ends. -/
def ReadsAlone (before : Nat) (read : List Char → Lexeme) (text : List Char) : Prop :=
  ∃ n, (read text).length = before + n ∧ read (text.take n) = read text

namespace ReadsAlone

variable {before : Nat} {read other : List Char → Lexeme} {text : List Char}

/-- What is read behind the opening mark of a token is read alone together with it. -/
theorem drop (h : ReadsAlone before read (text.drop before)) :
    ReadsAlone 0 (fun text => read (text.drop before)) text := by
  obtain ⟨n, hlength, hread⟩ := h
  refine ⟨before + n, hlength.trans (Nat.zero_add _).symm, ?_⟩
  dsimp only
  rw [List.drop_take, Nat.add_sub_cancel_left, hread]

theorem take_length (h : ReadsAlone 0 read text) :
    read (text.take (read text).length) = read text := by
  obtain ⟨n, hlength, hread⟩ := h
  rw [hlength, Nat.zero_add, hread]

theorem of_eq (h : ReadsAlone before read text) (htext : other text = read text)
    (htake : ∀ n, (read text).length = before + n → other (text.take n) = read (text.take n)) :
    ReadsAlone before other text := by
  obtain ⟨n, hlength, hread⟩ := h
  refine ⟨n, ?_, ?_⟩
  · rw [htext, hlength]
  · rw [htake n hlength, htext, hread]

end ReadsAlone

end QoreSyntax.Token

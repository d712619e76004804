import QoreSyntax.Proofs.Token.Alone.Part
import QoreSyntax.Proofs.Token.Ending.Gap
import QoreSyntax.Proofs.Token.Ending.Enclosed

namespace QoreSyntax.Token

section Closing

variable {close : Char} {escapes : Bool} {text : List Char}

/-- What is not closed in a text is not closed in the beginning of the text. -/
theorem closing?_take_eq_none (h : closing? close escapes 0 text = none) (n : Nat) :
    closing? close escapes 0 (text.take n) = none := by
  cases hclosing : closing? close escapes 0 (text.take n) with
  | none => rfl
  | some k =>
      have hwhole := closing?_append hclosing (text.drop n)
      rw [List.take_append_drop, h] at hwhole
      cases hwhole

theorem le_of_closing? {count k : Nat} (h : closing? close escapes count text = some k) :
    count ≤ k := by
  fun_induction closing? close escapes count text with
  | case1 => cases h
  | case2 => exact (Option.some.inj h).le
  | case3 => cases h
  | case4 count c hclose hescape d cs ih => exact Nat.le_of_add_right_le (ih h)
  | case5 count c cs hclose hescape ih => exact Nat.le_of_succ_le (ih h)

/-- The closing mark is found if the text ends behind it. -/
theorem closing?_take {count k n : Nat} (h : closing? close escapes count text = some k)
    (hn : k < count + n) : closing? close escapes count (text.take n) = some k := by
  fun_induction closing? close escapes count text generalizing n with
  | case1 => cases h
  | case2 count c cs hclose =>
      obtain rfl := Option.some.inj h
      obtain ⟨n, rfl⟩ : ∃ m, n = m + 1 := Nat.exists_eq_add_of_le' (by omega)
      rw [List.take_succ_cons, closing?.eq_def]
      dsimp only
      rw [if_pos hclose]
  | case3 => cases h
  | case4 count c hclose hescape d cs ih =>
      -- The mark comes behind the pair, so that the text does not end within it.
      have hle := le_of_closing? h
      obtain ⟨n, rfl⟩ : ∃ m, n = m + 2 := Nat.exists_eq_add_of_le' (by omega)
      rw [List.take_succ_cons, List.take_succ_cons, closing?.eq_def]
      dsimp only
      rw [if_neg hclose, if_pos hescape]
      exact ih h (by omega)
  | case5 count c cs hclose hescape ih =>
      have hle := le_of_closing? h
      obtain ⟨n, rfl⟩ : ∃ m, n = m + 1 := Nat.exists_eq_add_of_le' (by omega)
      rw [List.take_succ_cons, closing?.eq_def]
      dsimp only
      rw [if_neg hclose, if_neg hescape]
      exact ih h (by omega)

end Closing

theorem le_lineLength (escapes : Bool) (count : Nat) (text : List Char) :
    count ≤ lineLength escapes count text := by
  fun_induction lineLength escapes count text with
  | case1 | case2 => exact le_rfl
  | case3 => exact Nat.le_succ _
  | case4 count c hend hescape d cs ih => exact Nat.le_of_add_right_le ih
  | case5 count c cs hend hescape ih => exact Nat.le_of_succ_le ih

/-- A line is as long as it is if the text ends with it. -/
theorem lineLength_take {escapes : Bool} {count n : Nat} {text : List Char}
    (hn : lineLength escapes count text ≤ count + n) :
    lineLength escapes count (text.take n) = lineLength escapes count text := by
  fun_induction lineLength escapes count text generalizing n with
  | case1 => rw [List.take_nil, lineLength]
  | case2 count c cs hend =>
      rcases n with - | n
      · rw [List.take_zero, lineLength]
      · rw [List.take_succ_cons, lineLength.eq_def]
        exact if_pos hend
  | case3 count c hend hescape =>
      obtain ⟨n, rfl⟩ : ∃ m, n = m + 1 := Nat.exists_eq_add_of_le' (by omega)
      rw [List.take_succ_cons, List.take_nil, lineLength.eq_def]
      dsimp only
      rw [if_neg hend, if_pos hescape]
  | case4 count c hend hescape d cs ih =>
      have hle := le_lineLength escapes (count + 2) cs
      obtain ⟨n, rfl⟩ : ∃ m, n = m + 2 := Nat.exists_eq_add_of_le' (by omega)
      rw [List.take_succ_cons, List.take_succ_cons, lineLength.eq_def]
      dsimp only
      rw [if_neg hend, if_pos hescape]
      exact ih (by omega)
  | case5 count c cs hend hescape ih =>
      have hle := le_lineLength escapes (count + 1) cs
      obtain ⟨n, rfl⟩ : ∃ m, n = m + 1 := Nat.exists_eq_add_of_le' (by omega)
      rw [List.take_succ_cons, lineLength.eq_def]
      dsimp only
      rw [if_neg hend, if_neg hescape]
      exact ih (by omega)

theorem readsAlone_unterminated (enclosure : Enclosure) (escapes : Bool) (opening : Nat)
    (text : List Char) : ReadsAlone opening (unterminated enclosure escapes opening) text := by
  refine ⟨lineLength escapes 0 text, rfl, ?_⟩
  rw [unterminated, unterminated, lineLength_take (Nat.zero_add _).ge]

/-- The literal between two marks with the value `value`, which is at fault if nothing closes it. -/
theorem readsAlone_quoted {close : Char} {escapes : Bool} {enclosure : Enclosure} {lines : Bool}
    (value : List Char → Kind) (text : List Char) :
    ReadsAlone 1 (fun text => match closing? close escapes 0 text with
      | none => unterminated enclosure lines 1 text
      | some n => ⟨value (text.take n), n + 2⟩) text := by
  cases hclosing : closing? close escapes 0 text with
  | none =>
      refine (readsAlone_unterminated enclosure lines 1 text).of_eq ?_ fun n _ => ?_
      · simp only [hclosing]
      · simp only [closing?_take_eq_none hclosing]
  | some k =>
      refine ⟨k + 1, ?_, ?_⟩
      · simp only [hclosing]
        omega
      · have hclosing' := closing?_take hclosing (n := k + 1) (by omega)
        simp only [hclosing, hclosing', List.take_take, Nat.min_eq_left (Nat.le_succ k)]

theorem readsAlone_doubleQuoted (text : List Char) : ReadsAlone 1 doubleQuoted text :=
  readsAlone_quoted (fun body => .string (String.ofList (unescapeDouble 0 body))) text

theorem readsAlone_singleQuoted (text : List Char) : ReadsAlone 1 singleQuoted text :=
  readsAlone_quoted (fun body => .string (String.ofList (unescapeSingle body))) text

theorem readsAlone_backquoted (text : List Char) : ReadsAlone 1 backquoted text :=
  readsAlone_quoted (fun body => .backquote (String.ofList body)) text

theorem commentEnd?_append {count length : Nat} {text : List Char}
    (h : commentEnd? count text = some length) (rest : List Char) :
    commentEnd? count (text ++ rest) = some length := by
  obtain ⟨comment, after, rfl, rfl, hopen⟩ := of_commentEnd? h
  rw [List.append_assoc]
  exact commentEnd?_of_not_infix hopen count (after ++ rest)

/-- What opens in the text but is not closed there is not closed in the beginning of the text. -/
theorem commentEnd?_take {text : List Char} (h : (commentEnd? 2 text).getD 0 = 0) (n : Nat) :
    (commentEnd? 2 (text.take n)).getD 0 = 0 := by
  cases hend : commentEnd? 2 (text.take n) with
  | none => rfl
  | some length =>
      have hwhole := commentEnd?_append hend (text.drop n)
      rw [List.take_append_drop] at hwhole
      rwa [hwhole] at h

theorem opensComment_of_take {text : List Char} {n : Nat}
    (h : opensComment (text.take n) = true) : opensComment text = true := by
  have hbegins := List.isPrefixOf_iff_prefix.mp h
  exact List.isPrefixOf_iff_prefix.mpr (hbegins.trans (List.take_prefix n text))

/-- Where no piece of a gap begins, none begins in the beginning of the text. A comment that is not
closed in the text is not closed there. -/
theorem pieceLength_take {text : List Char} (h : pieceLength text = 0) (n : Nat) :
    pieceLength (text.take n) = 0 := by
  rcases text with - | ⟨c, cs⟩
  · rw [List.take_nil, pieceLength]
  rcases n with - | n
  · rw [List.take_zero, pieceLength]
  have hopens : opensComment ((c :: cs).take (n + 1)) = true → opensComment (c :: cs) = true :=
    opensComment_of_take
  rw [List.take_succ_cons] at hopens ⊢
  rw [pieceLength] at h ⊢
  split_ifs at h ⊢ with hblank hhash hpart hwhole
  · omega
  · rw [List.drop_take]
    exact commentEnd?_take h (n - 1)
  · exact absurd (hopens hpart) hwhole
  · rfl
  · rfl

end QoreSyntax.Token

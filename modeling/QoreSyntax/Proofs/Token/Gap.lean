import Mathlib.Data.List.Infix
import Mathlib.Data.List.TakeWhile
import QoreSyntax.Token.Gap

namespace QoreSyntax.Token

/-- The text is made of blanks, line ends and comments; `rest` comes after it. -/
inductive IsGap : (gap rest : List Char) → Prop where
  | nil (rest : List Char) : IsGap [] rest
  | blank {c : Char} {gap rest : List Char} (hblank : c ∈ [' ', '\t', '\x0c', '\r', '\n'])
      (h : IsGap gap rest) : IsGap (c :: gap) rest
  /-- A comment from `#` up to a line end or to the end of the text. -/
  | lineComment {comment gap rest : List Char} (hline : ∀ c ∈ comment, isLineEnd c = false)
      (hend : ∀ c ∈ (gap ++ rest).head?, isLineEnd c = true) (h : IsGap gap rest) :
      IsGap ('#' :: comment ++ gap) rest
  /-- A comment from `/*` up to the first `*/` after it. -/
  | blockComment {comment gap rest : List Char} (hopen : ¬['*', '/'] <:+: comment ++ ['*'])
      (h : IsGap gap rest) : IsGap ('/' :: '*' :: comment ++ '*' :: '/' :: gap) rest

theorem mem_blanks_of_isBlank {c : Char} (h : isBlank c = true) :
    c ∈ [' ', '\t', '\x0c', '\r', '\n'] := by
  simp only [isBlank, isLineEnd, Bool.or_eq_true, beq_iff_eq] at h
  simp only [List.mem_cons, List.not_mem_nil, or_false]
  tauto

theorem pair_cases {a b c : Char} {cs : List Char} (h : [a, b] <:+: c :: cs) :
    (c = a ∧ cs.head? = some b) ∨ [a, b] <:+: cs := by
  rcases List.infix_cons_iff.mp h with hfirst | hlater
  · obtain ⟨rfl, hrest⟩ := List.cons_prefix_cons.mp hfirst
    obtain ⟨tail, rfl⟩ := hrest
    exact Or.inl ⟨rfl, rfl⟩
  · exact Or.inr hlater

/-- Where a comment is found to end stands the first `*/`. -/
theorem of_commentEnd? {count length : Nat} {text : List Char}
    (h : commentEnd? count text = some length) :
    ∃ comment after, text = comment ++ '*' :: '/' :: after ∧
      length = count + comment.length + 2 ∧ ¬['*', '/'] <:+: comment ++ ['*'] := by
  induction text generalizing count with
  | nil => cases h
  | cons c cs ih =>
      rw [commentEnd?] at h
      split_ifs at h with hclose
      · simp only [Bool.and_eq_true, beq_iff_eq] at hclose
        obtain ⟨rfl, hslash⟩ := hclose
        obtain ⟨after, rfl⟩ := List.head?_eq_some_iff.mp hslash
        refine ⟨[], after, rfl, (Option.some.inj h).symm, ?_⟩
        exact fun hearlier => absurd hearlier.length_le (by decide)
      · obtain ⟨comment, after, rfl, rfl, hopen⟩ := ih h
        refine ⟨c :: comment, after, rfl, by simp only [List.length_cons]; omega, ?_⟩
        intro hearlier
        rcases pair_cases hearlier with ⟨rfl, hslash⟩ | hearlier
        · apply hclose
          cases comment with
          | nil => cases hslash
          | cons d comment => simpa using hslash
        · exact hopen hearlier

theorem lineComment_end (text : List Char) :
    ∀ c ∈ (text.dropWhile (!isLineEnd ·)).head?, isLineEnd c = true := by
  intro c hmem
  have hnot := List.head?_dropWhile_not (!isLineEnd ·) text
  rw [Option.mem_def.mp hmem] at hnot
  simpa using hnot

/-- A piece with which a text begins makes any gap after it longer. -/
theorem exists_piece {text : List Char} {n : Nat} (hn : pieceLength text = n + 1) :
    ∃ piece after, text = piece ++ after ∧ piece.length = n + 1 ∧
      ∀ gap rest, after = gap ++ rest → IsGap gap rest → IsGap (piece ++ gap) rest := by
  cases text with
  | nil => cases hn
  | cons c cs =>
      rw [pieceLength] at hn
      split_ifs at hn with hblank hhash hopens
      · refine ⟨[c], cs, rfl, hn, fun gap rest _ h => ?_⟩
        exact IsGap.blank (mem_blanks_of_isBlank hblank) h
      · obtain rfl := beq_iff_eq.mp hhash
        refine ⟨'#' :: cs.takeWhile (!isLineEnd ·), cs.dropWhile (!isLineEnd ·), ?_, ?_, ?_⟩
        · rw [List.cons_append, List.takeWhile_append_dropWhile]
        · rw [List.length_cons]
          omega
        · intro gap rest hafter h
          refine IsGap.lineComment (fun d hd => ?_) (hafter ▸ lineComment_end cs) h
          simpa using List.mem_takeWhile_imp hd
      · obtain ⟨text, htext⟩ := List.isPrefixOf_iff_prefix.mp hopens
        obtain ⟨rfl, rfl⟩ : '/' = c ∧ '*' :: text = cs := List.cons.inj htext
        change (commentEnd? 2 text).getD 0 = n + 1 at hn
        cases hlength : commentEnd? 2 text with
        | none => simp [hlength] at hn
        | some length =>
            obtain ⟨comment, after, rfl, rfl, hopen⟩ := of_commentEnd? hlength
            refine ⟨'/' :: '*' :: comment ++ ['*', '/'], after, by simp, ?_, ?_⟩
            · rw [hlength, Option.getD_some] at hn
              simp only [List.cons_append, List.length_cons, List.length_append, List.length_nil]
              omega
            · intro gap rest _ h
              simpa using IsGap.blockComment hopen h

/-- What is counted as a gap behind the characters that belong to a piece is one. -/
theorem exists_gap_of_gapFrom (skip count : Nat) (text : List Char) (hskip : skip ≤ text.length) :
    ∃ gap rest, text.drop skip = gap ++ rest ∧
      gapFrom skip count text = count + skip + gap.length ∧ IsGap gap rest := by
  fun_induction gapFrom skip count text with
  | case1 skip count =>
      obtain rfl : skip = 0 := by simpa using hskip
      exact ⟨[], [], rfl, rfl, IsGap.nil []⟩
  | case2 skip count c cs ih =>
      obtain ⟨gap, rest, hrest, hlength, hgap⟩ := ih (by simpa using hskip)
      exact ⟨gap, rest, hrest, by omega, hgap⟩
  | case3 count c cs _ => exact ⟨[], c :: cs, rfl, rfl, IsGap.nil _⟩
  | case4 count c cs skip hpiece ih =>
      obtain ⟨piece, after, htext, hlength, hextend⟩ := exists_piece hpiece
      obtain rfl : after = cs.drop skip := by
        have hdrop := congrArg (List.drop (skip + 1)) htext
        rw [← hlength, List.drop_left, hlength] at hdrop
        exact hdrop.symm
      have hcs : skip ≤ cs.length := by
        have hsum := congrArg List.length htext
        simp only [List.length_cons, List.length_append] at hsum
        omega
      obtain ⟨gap, rest, hrest, hcount, hgap⟩ := ih hcs
      refine ⟨piece ++ gap, rest, ?_, ?_, hextend gap rest hrest hgap⟩
      · rw [List.drop_zero, htext, hrest, List.append_assoc]
      · rw [List.length_append]
        omega

theorem isGap_gapLength (text : List Char) :
    IsGap (text.take (gapLength text)) (text.drop (gapLength text)) := by
  obtain ⟨gap, rest, htext, hlength, hgap⟩ := exists_gap_of_gapFrom 0 0 text (Nat.zero_le _)
  obtain rfl : text = gap ++ rest := htext
  obtain hgapLength : gapLength (gap ++ rest) = gap.length := by
    rw [gapLength, hlength]
    omega
  rwa [hgapLength, List.take_left, List.drop_left]

end QoreSyntax.Token

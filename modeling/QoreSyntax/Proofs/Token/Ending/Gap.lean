import QoreSyntax.Proofs.Token.Ending.Part
import QoreSyntax.Proofs.Token.Gap

namespace QoreSyntax.Token

theorem gapFrom_skip (count : Nat) (piece rest : List Char) :
    gapFrom piece.length count (piece ++ rest) = gapFrom 0 (count + piece.length) rest := by
  induction piece generalizing count with
  | nil => rfl
  | cons c piece ih =>
      rw [List.length_cons, List.cons_append, gapFrom, ih, Nat.add_right_comm, Nat.add_assoc]

theorem gapFrom_piece (count : Nat) {piece rest : List Char} (hpiece : piece ≠ [])
    (h : pieceLength (piece ++ rest) = piece.length) :
    gapFrom 0 count (piece ++ rest) = gapFrom 0 (count + piece.length) rest := by
  obtain ⟨c, piece, rfl⟩ := List.exists_cons_of_ne_nil hpiece
  rw [List.cons_append, List.length_cons] at h
  rw [List.cons_append, gapFrom, h]
  dsimp only
  rw [gapFrom_skip, List.length_cons, Nat.add_right_comm, Nat.add_assoc]

theorem pieceLength_blank {c : Char} (hblank : c ∈ [' ', '\t', '\x0c', '\r', '\n'])
    (rest : List Char) : pieceLength (c :: rest) = 1 := by
  simp only [List.mem_cons, List.not_mem_nil, or_false] at hblank
  rcases hblank with rfl | rfl | rfl | rfl | rfl <;> rfl

theorem pieceLength_lineComment {comment rest : List Char}
    (hline : ∀ c ∈ comment, isLineEnd c = false) (hend : ∀ c ∈ rest.head?, isLineEnd c = true) :
    pieceLength ('#' :: comment ++ rest) = ('#' :: comment).length := by
  have htake : (comment ++ rest).takeWhile (!isLineEnd ·) = comment := by
    rw [List.takeWhile_append_of_pos (by simpa using hline)]
    rcases rest with - | ⟨c, rest⟩
    · rw [List.takeWhile_nil, List.append_nil]
    · rw [List.takeWhile_cons_of_neg (by simpa using hend), List.append_nil]
  change 1 + ((comment ++ rest).takeWhile (!isLineEnd ·)).length = _
  rw [htake, List.length_cons, Nat.add_comm]

theorem commentEnd?_of_not_infix {comment : List Char} (hopen : ¬['*', '/'] <:+: comment ++ ['*'])
    (count : Nat) (rest : List Char) :
    commentEnd? count (comment ++ '*' :: '/' :: rest) = some (count + comment.length + 2) := by
  induction comment generalizing count with
  | nil => rfl
  | cons c comment ih =>
      have hgoesOn : (c == '*' && (comment ++ '*' :: '/' :: rest).head? == some '/') = false := by
        refine Bool.eq_false_iff.mpr fun hclose => hopen ?_
        rw [Bool.and_eq_true, beq_iff_eq, beq_iff_eq] at hclose
        obtain ⟨rfl, hslash⟩ := hclose
        rcases comment with - | ⟨d, comment⟩
        · simp at hslash
        · obtain rfl : d = '/' := by simpa using hslash
          exact (List.prefix_append ['*', '/'] (comment ++ ['*'])).isInfix
      rw [List.cons_append, commentEnd?, hgoesOn, if_neg Bool.false_ne_true,
        ih fun hinfix => hopen (List.infix_cons hinfix)]
      congr 1
      rw [List.length_cons]
      omega

theorem pieceLength_blockComment {comment : List Char} (hopen : ¬['*', '/'] <:+: comment ++ ['*'])
    (rest : List Char) :
    pieceLength (('/' :: '*' :: comment ++ ['*', '/']) ++ rest)
      = ('/' :: '*' :: comment ++ ['*', '/']).length := by
  have hend := commentEnd?_of_not_infix hopen 2 rest
  have htext : '/' :: '*' :: comment ++ ['*', '/'] ++ rest
      = '/' :: '*' :: (comment ++ '*' :: '/' :: rest) := by simp
  rw [htext]
  change (commentEnd? 2 (comment ++ '*' :: '/' :: rest)).getD 0 = _
  rw [hend]
  simp
  omega

/-- The characters with which a piece of a gap may begin. -/
def gapMarks : List Char :=
  [' ', '\t', '\x0c', '\r', '\n', '#', '/']

theorem opensComment_of_not_mem {c : Char} (hc : c ∉ gapMarks) (cs : List Char) :
    opensComment (c :: cs) = false := by
  have hne : ('/' == c) = false := by
    rw [beq_eq_false_iff_ne]
    rintro rfl
    exact hc (by decide)
  rw [opensComment, List.isPrefixOf, hne, Bool.false_and]

theorem pieceLength_of_not_mem {c : Char} (hc : c ∉ gapMarks) (cs : List Char) :
    pieceLength (c :: cs) = 0 := by
  have hne : ∀ d ∈ gapMarks, (c == d) = false := by
    intro d hmem
    rw [beq_eq_false_iff_ne]
    rintro rfl
    exact hc hmem
  rw [pieceLength, opensComment_of_not_mem hc, isBlank, isLineEnd, hne _ (by decide),
    hne _ (by decide), hne _ (by decide), hne _ (by decide), hne _ (by decide), hne _ (by decide)]
  rfl

/-- What is made of blanks, line ends and comments is a gap, if nothing of that kind follows. -/
theorem IsGap.gapFrom_eq {gap rest : List Char} (h : IsGap gap rest)
    (hrest : pieceLength rest = 0) (count : Nat) :
    gapFrom 0 count (gap ++ rest) = count + gap.length := by
  induction h generalizing count with
  | nil rest =>
      rcases rest with - | ⟨c, rest⟩
      · rfl
      · rw [List.nil_append, gapFrom, hrest]
        rfl
  | @blank c gap rest hblank h ih =>
      have hpiece : gapFrom 0 count ([c] ++ (gap ++ rest)) = gapFrom 0 (count + 1) (gap ++ rest) :=
        gapFrom_piece count (List.cons_ne_nil _ _) (pieceLength_blank hblank _)
      rw [List.cons_append]
      exact hpiece.trans ((ih hrest _).trans (by simp; omega))
  | @lineComment comment gap rest hline hend h ih =>
      have hpiece := gapFrom_piece count (List.cons_ne_nil _ _)
        (pieceLength_lineComment hline hend)
      rw [List.append_assoc, hpiece, ih hrest]
      simp
      omega
  | @blockComment comment gap rest hopen h ih =>
      have hpiece := gapFrom_piece count (by simp)
        (pieceLength_blockComment hopen (gap ++ rest))
      have htext : '/' :: '*' :: comment ++ '*' :: '/' :: gap ++ rest
          = '/' :: '*' :: comment ++ ['*', '/'] ++ (gap ++ rest) := by simp
      rw [htext, hpiece, ih hrest]
      simp
      omega

/-- A gap ends where no piece of a gap begins. -/
theorem exists_end_of_gapFrom (skip count : Nat) (text : List Char) :
    ∃ n, gapFrom skip count text = count + n ∧ pieceLength (text.drop n) = 0 := by
  fun_induction gapFrom skip count text with
  | case1 skip count => exact ⟨0, rfl, rfl⟩
  | case2 skip count c cs ih =>
      obtain ⟨n, hn, hend⟩ := ih
      exact ⟨n + 1, hn.trans (by omega), hend⟩
  | case3 count c cs hpiece => exact ⟨0, rfl, hpiece⟩
  | case4 count c cs skip hpiece ih =>
      obtain ⟨n, hn, hend⟩ := ih
      exact ⟨n + 1, hn.trans (by omega), hend⟩

theorem pieceLength_drop_gapLength (text : List Char) :
    pieceLength (text.drop (gapLength text)) = 0 := by
  obtain ⟨n, hn, hend⟩ := exists_end_of_gapFrom 0 0 text
  rwa [gapLength, hn, Nat.zero_add]

theorem IsGap.gapLength_eq {gap rest : List Char} (h : IsGap gap rest)
    (hrest : pieceLength rest = 0) : gapLength (gap ++ rest) = gap.length :=
  (h.gapFrom_eq hrest 0).trans (Nat.zero_add _)

/-- A gap is the same if the text goes on behind a line end. -/
theorem IsGap.append {gap rest : List Char} (h : IsGap gap rest) (more : List Char) :
    IsGap gap (rest ++ '\n' :: more) := by
  induction h with
  | nil rest => exact .nil _
  | blank hblank _ ih => exact .blank hblank ih
  | @lineComment comment gap rest hline hend _ ih =>
      refine .lineComment hline (fun c hc => ?_) ih
      rw [← List.append_assoc] at hc
      cases htext : gap ++ rest with
      | nil =>
          rw [htext] at hc
          obtain rfl : '\n' = c := Option.some.inj hc
          rfl
      | cons d text =>
          rw [htext] at hc hend
          exact hend c hc
  | blockComment hopen _ ih => exact .blockComment hopen ih

theorem IsGap.trans {gap other rest : List Char} (h : IsGap gap (other ++ rest))
    (hother : IsGap other rest) : IsGap (gap ++ other) rest := by
  generalize hbehind : other ++ rest = behind at h
  induction h with
  | nil => exact hother
  | blank hblank _ ih => exact .blank hblank (ih hbehind)
  | @lineComment comment gap behind hline hend _ ih =>
      rw [List.append_assoc]
      refine .lineComment hline ?_ (ih hbehind)
      rwa [List.append_assoc, hbehind]
  | @blockComment comment gap behind hopen _ ih =>
      have hcomment := IsGap.blockComment hopen (ih hbehind)
      simpa using hcomment

theorem opensComment_append (text rest : List Char) :
    opensComment (text ++ '\n' :: rest) = opensComment text :=
  isPrefixOf_append_lineEnd (by decide) text rest

/-- Only the beginning of a comment can become part of a gap if the text goes on. -/
theorem pieceLength_append {text : List Char} (htext : text ≠ []) (h : pieceLength text = 0)
    (hopen : opensComment text = false) (rest : List Char) :
    pieceLength (text ++ '\n' :: rest) = 0 := by
  obtain ⟨c, cs, rfl⟩ := List.exists_cons_of_ne_nil htext
  have hopen' := (opensComment_append (c :: cs) rest).trans hopen
  rw [pieceLength, hopen, if_neg Bool.false_ne_true] at h
  rw [List.cons_append] at hopen' ⊢
  rw [pieceLength, hopen', if_neg Bool.false_ne_true]
  split_ifs at h ⊢
  · omega
  · rfl

theorem length_take_gapLength (text : List Char) :
    (text.take (gapLength text)).length = gapLength text := by
  have hlength := (isGap_gapLength text).gapLength_eq (pieceLength_drop_gapLength text)
  rw [List.take_append_drop] at hlength
  exact hlength.symm

/-- A gap before a token is the same if the text goes on behind a line end. -/
theorem gapLength_append {text : List Char} (htoken : text.drop (gapLength text) ≠ [])
    (hopen : opensComment (text.drop (gapLength text)) = false) (rest : List Char) :
    gapLength (text ++ '\n' :: rest) = gapLength text := by
  have hgap := (isGap_gapLength text).append rest
  have hpiece := pieceLength_append htoken (pieceLength_drop_gapLength text) hopen rest
  have hlength := hgap.gapLength_eq hpiece
  rwa [← List.append_assoc, List.take_append_drop, length_take_gapLength] at hlength

/-- A gap that reaches the end of the text goes on with the text. -/
theorem gapLength_append_of_drop_eq_nil {text : List Char}
    (hend : text.drop (gapLength text) = []) (rest : List Char) :
    gapLength (text ++ '\n' :: rest) = text.length + gapLength ('\n' :: rest) := by
  have hgap := isGap_gapLength text
  rw [hend, List.take_of_length_le (List.drop_eq_nil_iff.mp hend)] at hgap
  have hwhole : IsGap (text ++ ('\n' :: rest).take (gapLength ('\n' :: rest)))
      (('\n' :: rest).drop (gapLength ('\n' :: rest))) := by
    refine IsGap.trans ?_ (isGap_gapLength ('\n' :: rest))
    rw [List.take_append_drop]
    exact hgap.append rest
  have hlength := hwhole.gapLength_eq (pieceLength_drop_gapLength ('\n' :: rest))
  rwa [List.append_assoc, List.take_append_drop, List.length_append, length_take_gapLength]
    at hlength

end QoreSyntax.Token

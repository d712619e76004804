import QoreSyntax.Proofs.Text.Whitespace
import QoreSyntax.Proofs.Token.Ending.Enclosed
import QoreSyntax.Proofs.Token.Ending.Gap
import QoreSyntax.Proofs.Token.Ending.Numeral
import QoreSyntax.Proofs.Token.Written

namespace QoreSyntax.Token

theorem local_leadingName : Local leadingName :=
  .takeWhile (by decide)

theorem endsIn_word (text : List Char) : EndsIn 0 word text where
  length_le := by
    have hname := local_leadingName.length_le text
    rw [word]
    split
    · exact Nat.le_add_left_of_le hname
    · exact Nat.le_add_left_of_le hname
  append_eq rest := by rw [word, word, local_leadingName.append_eq]

theorem endsIn_dollarForm (text : List Char) : EndsIn 1 dollarForm text where
  length_le := by
    rcases text with - | ⟨c, cs⟩
    · exact le_rfl
    · have hdigits := local_leadingDigits.length_le (c :: cs)
      have hname := local_leadingName.length_le cs
      have hname' := local_leadingName.length_le (c :: cs)
      rw [List.length_cons] at hdigits hname' ⊢
      simp only [dollarForm]
      split_ifs <;> dsimp only <;> omega
  append_eq rest := by
    rcases text with - | ⟨c, cs⟩
    · rfl
    · simp only [List.cons_append, dollarForm]
      rw [← List.cons_append, local_leadingDigits.append_eq, local_leadingName.append_eq,
        local_leadingName.append_eq, any_head?_append_lineEnd (by decide)]

theorem endsIn_directive (text : List Char) : EndsIn 1 directive text := by
  have hname : Local (List.takeWhile isDirectiveChar) := .takeWhile (by decide)
  have hline : Local (List.takeWhile (!isLineEnd ·)) := .takeWhile (by decide)
  have hname_le := hname.length_le text
  have hline_le := hline.length_le (text.drop (text.takeWhile isDirectiveChar).length)
  have htrim_le := (Text.isPrefix_trimEnd
    ((text.drop (text.takeWhile isDirectiveChar).length).takeWhile (!isLineEnd ·))).length_le
  rw [List.length_drop] at hline_le
  constructor
  · simp only [directive]
    omega
  · intro rest
    simp only [directive, hname.append_eq, hname.drop_eq, hline.append_eq]

theorem leading?_append (text rest : List Char) :
    Symbol.leading? (text ++ '\n' :: rest) = Symbol.leading? text :=
  List.find?_congr fun symbol _ =>
    isPrefixOf_append_lineEnd (by cases symbol <;> decide) text rest

theorem opensDirective_append {text : List Char} (htext : text ≠ []) (rest : List Char) :
    opensDirective (text ++ '\n' :: rest) = opensDirective text := by
  obtain ⟨c, cs, rfl⟩ := List.exists_cons_of_ne_nil htext
  cases hpercent : c == '%' with
  | false => rw [List.cons_append, opensDirective_of_ne hpercent, opensDirective_of_ne hpercent]
  | true =>
      obtain rfl := beq_iff_eq.mp hpercent
      rcases cs with - | ⟨d, cs⟩
      · rfl
      · rfl

theorem endsIn_markLexeme (lineStart : Bool) {text : List Char} (htext : text ≠ [])
    (hvalid : ∀ fault, (markLexeme lineStart text).kind ≠ .invalid fault) :
    EndsIn 0 (markLexeme lineStart) text := by
  by_cases hdirective : lineStart && opensDirective text
  · have hone : 1 ≤ text.length := List.length_pos_iff.mpr htext
    refine ((endsIn_directive (text.drop 1)).drop hone).of_eq (if_pos hdirective) fun rest => ?_
    rw [markLexeme, opensDirective_append htext, if_pos hdirective]
  cases hsymbol : Symbol.leading? text with
  | none =>
      rw [markLexeme, if_neg hdirective, hsymbol] at hvalid
      exact absurd rfl (hvalid _)
  | some symbol =>
      have hread : markLexeme lineStart text = ⟨.symbol symbol, symbol.characters.length⟩ := by
        rw [markLexeme, if_neg hdirective, hsymbol]
      constructor
      · rw [hread]
        exact Nat.le_add_left_of_le (isPrefixOf_of_leading? hsymbol).length_le
      · intro rest
        rw [hread, markLexeme, opensDirective_append htext, if_neg hdirective, leading?_append,
          hsymbol]

theorem endsIn_plainLexeme (lineStart : Bool) {text : List Char} (htext : text ≠ [])
    (hvalid : ∀ fault, (plainLexeme lineStart text).kind ≠ .invalid fault) :
    EndsIn 0 (plainLexeme lineStart) text := by
  obtain ⟨c, cs, rfl⟩ := List.exists_cons_of_ne_nil htext
  have hone : 1 ≤ (c :: cs).length := Nat.succ_le_succ (Nat.zero_le _)
  obtain ⟨read, hread, hplain⟩ := exists_readBy c
  rw [hplain] at hvalid
  have hends : EndsIn 0 (read lineStart) (c :: cs) := by
    cases hread with
    | doubleQuoted => exact (endsIn_doubleQuoted hvalid).drop hone
    | singleQuoted => exact (endsIn_singleQuoted hvalid).drop hone
    | backquoted => exact (endsIn_backquoted hvalid).drop hone
    | dollarForm => exact (endsIn_dollarForm cs).drop hone
    | numeral => exact endsIn_numeral htext
    | word => exact endsIn_word (c :: cs)
    | mark => exact endsIn_markLexeme lineStart htext hvalid
  exact hends.of_eq (hplain lineStart cs) fun rest => hplain lineStart (cs ++ '\n' :: rest)

/-- A well-formed token ends in the text with which it begins, and is the same if the text goes on
behind a line end. -/
theorem endsIn_leadingLexeme (lineStart afterMatch : Bool) {text : List Char} (htext : text ≠ [])
    (hvalid : ∀ fault, (leadingLexeme lineStart afterMatch text).kind ≠ .invalid fault) :
    EndsIn 0 (leadingLexeme lineStart afterMatch) text := by
  have hcomment : opensComment text = false := by
    refine Bool.eq_false_iff.mpr fun hopens => ?_
    rw [leadingLexeme, if_pos hopens] at hvalid
    exact hvalid _ rfl
  cases hregex : (if afterMatch then regexOpening? text else none) with
  | none =>
      have hread : leadingLexeme lineStart afterMatch text = plainLexeme lineStart text := by
        rw [leadingLexeme, hcomment, hregex]
        rfl
      refine (endsIn_plainLexeme lineStart htext (hread ▸ hvalid)).of_eq hread fun rest => ?_
      rw [leadingLexeme, opensComment_append, hcomment, regexOpening?_append, hregex]
      rfl
  | some opened =>
      obtain ⟨purpose, opening⟩ := opened
      have hopening : regexOpening? text = some (purpose, opening) := by
        cases afterMatch with
        | true => exact hregex
        | false => cases hregex
      have hread : leadingLexeme lineStart afterMatch text
          = regexLiteral purpose opening (text.drop opening) := by
        rw [leadingLexeme, hcomment, hregex]
        rfl
      refine ((endsIn_regexLiteral purpose opening (hread ▸ hvalid)).drop
        (length_of_regexOpening? hopening)).of_eq hread fun rest => ?_
      rw [leadingLexeme, opensComment_append, hcomment, regexOpening?_append, hregex]
      rfl

end QoreSyntax.Token

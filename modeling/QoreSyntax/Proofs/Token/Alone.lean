import QoreSyntax.Proofs.Token.Alone.Enclosed
import QoreSyntax.Proofs.Token.Alone.Numeral
import QoreSyntax.Proofs.Token.Ending
import QoreSyntax.Proofs.Token.Succession

namespace QoreSyntax.Token

theorem intrinsic_leadingName : Intrinsic leadingName :=
  .takeWhile _

theorem readsAlone_word (text : List Char) : ReadsAlone 0 word text := by
  refine ⟨(leadingName text).length, ?_, ?_⟩
  · rw [word, Nat.zero_add]
    split
    · rfl
    · rfl
  · rw [word, word, intrinsic_leadingName.take_eq le_rfl]

theorem readsAlone_dollarForm (text : List Char) : ReadsAlone 1 dollarForm text := by
  rcases text with - | ⟨c, cs⟩
  · exact ⟨0, rfl, rfl⟩
  by_cases hindex : c == '#'
  · refine ⟨1, ?_, ?_⟩
    · simp only [dollarForm, if_pos hindex]
    · simp only [List.take_succ_cons, dollarForm, if_pos hindex]
  by_cases hdigit : c.isDigit
  · obtain ⟨n, hn⟩ := Nat.exists_eq_add_of_le' (leadingDigits_length_pos hdigit cs)
    refine ⟨n + 1, ?_, ?_⟩
    · simp only [dollarForm, if_neg hindex, if_pos hdigit, hn]
    · have hdigits := intrinsic_leadingDigits.take_eq hn.le
      rw [List.take_succ_cons] at hdigits ⊢
      simp only [dollarForm, if_neg hindex, if_pos hdigit, hdigits]
  by_cases hself : c == '.' && cs.head?.any beginsName
  · rcases cs with - | ⟨d, ds⟩
    · rw [List.head?_nil, Option.any_none, Bool.and_false] at hself
      cases hself
    have hd : beginsName d = true := (Bool.and_eq_true_iff.mp hself).2
    obtain ⟨n, hn⟩ := Nat.exists_eq_add_of_le' (leadingName_length_pos hd ds)
    refine ⟨n + 2, ?_, ?_⟩
    · simp only [dollarForm, if_neg hindex, if_neg hdigit, if_pos hself, hn]
      omega
    · have hwhole := intrinsic_leadingName.take_eq hn.le
      rw [List.take_succ_cons] at hwhole
      simp only [List.take_succ_cons, dollarForm, if_neg hindex, if_neg hdigit, hwhole]
      rw [List.head?_cons] at hself ⊢
      rw [if_pos hself, List.head?_cons, if_pos hself]
  by_cases hname : beginsName c
  · obtain ⟨n, hn⟩ := Nat.exists_eq_add_of_le' (leadingName_length_pos hname cs)
    refine ⟨n + 1, ?_, ?_⟩
    · simp only [dollarForm, if_neg hindex, if_neg hdigit, if_neg hself, if_pos hname, hn]
    · have hwhole := intrinsic_leadingName.take_eq hn.le
      have hdot := ne_of_beginsName hname (show beginsName '.' = false by decide)
      rw [List.take_succ_cons] at hwhole ⊢
      simp only [dollarForm, if_neg hindex, if_neg hdigit, hdot, Bool.false_and, hwhole,
        Bool.false_eq_true, if_false, if_pos hname]
  · refine ⟨0, ?_, ?_⟩
    · simp only [dollarForm, if_neg hindex, if_neg hdigit, if_neg hself, if_neg hname]
    · simp only [List.take_zero, dollarForm, if_neg hindex, if_neg hdigit, if_neg hself,
        if_neg hname]

/-- A directive without the white space behind it is told from its own characters. -/
theorem readsAlone_directive (text : List Char) : ReadsAlone 1 directive text := by
  have hname : Intrinsic (List.takeWhile isDirectiveChar) := .takeWhile _
  obtain ⟨name, hname_eq⟩ : ∃ name, text.takeWhile isDirectiveChar = name := ⟨_, rfl⟩
  obtain ⟨line, hline⟩ : ∃ line, (text.drop name.length).takeWhile (!isLineEnd ·) = line :=
    ⟨_, rfl⟩
  have htrim := List.prefix_iff_eq_take.mp (Text.isPrefix_trimEnd line)
  have hidempotent : Text.trimEnd (Text.trimEnd line) = Text.trimEnd line := by
    rw [Text.trimEnd_eq_rdropWhile, Text.trimEnd_eq_rdropWhile, List.rdropWhile_idempotent]
  refine ⟨name.length + (Text.trimEnd line).length, ?_, ?_⟩
  · simp only [directive, hname_eq, hline, Nat.add_assoc]
  · have hname' : (text.take (name.length + (Text.trimEnd line).length)).takeWhile isDirectiveChar
        = name := by
      rw [hname.take_eq (by rw [hname_eq]; exact Nat.le_add_right _ _), hname_eq]
    have hline' : ((text.take (name.length + (Text.trimEnd line).length)).drop
        name.length).takeWhile (!isLineEnd ·) = Text.trimEnd line := by
      rw [List.drop_take, Nat.add_sub_cancel_left, ← List.take_takeWhile, hline, ← htrim]
    simp only [directive, hname', hline', hname_eq, hline, Text.trim, hidempotent]

theorem readsAlone_unexpected (text : List Char) : ReadsAlone 0 unexpected text := by
  have hrun : Intrinsic (List.takeWhile isUnexpected) := .takeWhile _
  rcases text with - | ⟨c, cs⟩
  · exact ⟨0, rfl, rfl⟩
  by_cases hempty : ((c :: cs).takeWhile isUnexpected).isEmpty
  · have hempty' : (((c :: cs).take 1).takeWhile isUnexpected).isEmpty := by
      rw [hrun.take_eq (by rw [List.isEmpty_iff.mp hempty]; exact Nat.zero_le 1)]
      exact hempty
    refine ⟨1, ?_, ?_⟩
    · simp only [unexpected, if_pos hempty, List.take_succ_cons, List.take_zero,
        List.length_singleton]
    · simp only [unexpected, if_pos hempty', if_pos hempty, List.take_take, Nat.min_self]
  · have hempty' : ¬(((c :: cs).take ((c :: cs).takeWhile isUnexpected).length).takeWhile
        isUnexpected).isEmpty := by rwa [hrun.take_eq le_rfl]
    refine ⟨((c :: cs).takeWhile isUnexpected).length, ?_, ?_⟩
    · simp only [unexpected, if_neg hempty, Nat.zero_add]
    · simp only [unexpected, if_neg hempty', if_neg hempty]
      rw [hrun.take_eq le_rfl]

theorem leading?_take_eq_none {text : List Char} (h : Symbol.leading? text = none) (n : Nat) :
    Symbol.leading? (text.take n) = none := by
  rw [Symbol.leading?, List.find?_eq_none] at h ⊢
  intro symbol hmem hbegins
  apply h symbol hmem
  rw [List.isPrefixOf_iff_prefix] at hbegins ⊢
  exact hbegins.trans (List.take_prefix n text)

theorem exists_of_opensDirective {text : List Char} (h : opensDirective text = true) :
    ∃ c cs, text = '%' :: c :: cs ∧ c.isAlpha = true := by
  rw [opensDirective.eq_def] at h
  split at h
  · exact ⟨_, _, rfl, h⟩
  · cases h

/-- A directive has a letter behind the percent sign. -/
theorem two_le_directive {c : Char} (hc : c.isAlpha = true) (cs : List Char) :
    2 ≤ (directive (c :: cs)).length := by
  have hname : isDirectiveChar c = true := by
    rw [isDirectiveChar, Char.isAlphanum, hc]
    rfl
  simp only [directive, List.takeWhile_cons_of_pos hname, List.length_cons]
  omega

theorem markLexeme_symbol (symbol : Symbol) (lineStart : Bool) :
    markLexeme lineStart symbol.characters = ⟨.symbol symbol, symbol.characters.length⟩ := by
  cases lineStart <;> cases symbol <;> rfl

/-- A percent sign within a line begins no directive, and it begins none when it is read alone: a
directive has a letter behind the sign, which is not read as a part of the symbol. -/
theorem markLexeme_take (lineStart : Bool) (text : List Char) :
    markLexeme true (text.take (markLexeme lineStart text).length) = markLexeme lineStart text := by
  by_cases hdirective : lineStart && opensDirective text
  · obtain ⟨-, hopens⟩ := Bool.and_eq_true_iff.mp hdirective
    obtain ⟨c, cs, rfl, hc⟩ := exists_of_opensDirective hopens
    have htwo := two_le_directive hc cs
    obtain ⟨n, hlength, halone⟩ := readsAlone_directive (c :: cs)
    obtain ⟨n, rfl⟩ : ∃ m, n = m + 1 := Nat.exists_eq_add_of_le' (by omega)
    have hread : markLexeme lineStart ('%' :: c :: cs) = directive (c :: cs) := if_pos hdirective
    rw [hread, hlength, Nat.add_comm, List.take_succ_cons, ← halone, List.take_succ_cons]
    exact if_pos hc
  cases hsymbol : Symbol.leading? text with
  | some symbol =>
      have hread : markLexeme lineStart text = ⟨.symbol symbol, symbol.characters.length⟩ := by
        rw [markLexeme, if_neg hdirective, hsymbol]
      rw [hread, ← List.prefix_iff_eq_take.mp (isPrefixOf_of_leading? hsymbol)]
      exact markLexeme_symbol symbol true
  | none =>
      have hnot : ∀ n, opensDirective (text.take n) = false := by
        intro n
        refine Bool.eq_false_iff.mpr fun hopens => ?_
        obtain ⟨c, cs, htake, -⟩ := exists_of_opensDirective hopens
        have hnone := leading?_take_eq_none hsymbol n
        -- The percent sign by itself would be a symbol.
        rw [htake, Symbol.leading?, List.find?_eq_none] at hnone
        exact hnone .percent (by decide) rfl
      have hread : markLexeme lineStart text = unexpected text := by
        rw [markLexeme, if_neg hdirective, hsymbol]
      rw [hread, markLexeme, hnot, Bool.and_false, if_neg Bool.false_ne_true,
        leading?_take_eq_none hsymbol]
      exact (readsAlone_unexpected text).take_length

theorem plainLexeme_length_pos (lineStart : Bool) (c : Char) (cs : List Char) :
    0 < (plainLexeme lineStart (c :: cs)).length := by
  rcases plainLexeme_cases lineStart c cs with hproper | ⟨symbol, -, hsymbol⟩
  · exact hproper.length_pos
  · rw [hsymbol]
    exact Symbol.characters_length_pos symbol

theorem plainLexeme_take (lineStart : Bool) (text : List Char) :
    plainLexeme true (text.take (plainLexeme lineStart text).length)
      = plainLexeme lineStart text := by
  rcases text with - | ⟨c, cs⟩
  · rw [List.take_nil]
    rfl
  obtain ⟨n, hn⟩ := Nat.exists_eq_add_of_le' (plainLexeme_length_pos lineStart c cs)
  obtain ⟨read, hread, hplain⟩ := exists_readBy c
  have htake : read true ((c :: cs).take (read lineStart (c :: cs)).length)
      = read lineStart (c :: cs) := by
    cases hread with
    | doubleQuoted => exact (readsAlone_doubleQuoted cs).drop.take_length
    | singleQuoted => exact (readsAlone_singleQuoted cs).drop.take_length
    | backquoted => exact (readsAlone_backquoted cs).drop.take_length
    | dollarForm => exact (readsAlone_dollarForm cs).drop.take_length
    | numeral => exact (readsAlone_numeral (c :: cs)).take_length
    | word => exact (readsAlone_word (c :: cs)).take_length
    | mark => exact markLexeme_take lineStart (c :: cs)
  -- The first character of the token is that of the text, so that the token is read by it as well.
  rw [hplain] at hn ⊢
  rw [hn, List.take_succ_cons] at htake ⊢
  rw [hplain, htake]

/-- The first token of a text is the one of its own characters. -/
theorem leadingLexeme_take (lineStart : Bool) (text : List Char) :
    leadingLexeme true false (text.take (leadingLexeme lineStart false text).length)
      = leadingLexeme lineStart false text := by
  by_cases hopens : opensComment text
  · obtain ⟨rest, rfl⟩ := List.isPrefixOf_iff_prefix.mp hopens
    obtain ⟨n, hlength, halone⟩ := readsAlone_unterminated .comment false 2 rest
    have hread : ∀ lineStart rest, leadingLexeme lineStart false (['/', '*'] ++ rest)
        = unterminated .comment false 2 rest := fun _ _ => rfl
    rw [hread, hlength, Nat.add_comm, ← halone]
    exact hread true (rest.take n)
  · have hread : ∀ {lineStart text}, ¬opensComment text →
        leadingLexeme lineStart false text = plainLexeme lineStart text := fun h => if_neg h
    rw [hread hopens, hread (mt opensComment_of_take hopens), plainLexeme_take]

theorem Reader.ReadsIn.kinds_of_cuts {text : List Char} {line : Nat} {r : Reader}
    (h : r.ReadsIn text line) (hmatch : r.afterMatch = false) (hkind : r.next.1.kind ≠ .eof)
    (line' : Nat) : ∃ piece after, r.next.1.span.Cuts text piece after ∧
      (Stream.ofText piece line').toList.map Token.kind = [r.next.1.kind, .eof] := by
  obtain ⟨n, hgapEnd⟩ := h.gapEnd
  have hcuts := Cursor.cuts_skip text line n r.lexeme.length
  rw [← hgapEnd] at hcuts
  refine ⟨_, _, hcuts, ?_⟩
  have hpiece : pieceLength r.gapEnd.rest = 0 := by
    rw [Reader.gapEnd, Cursor.rest_skip]
    exact pieceLength_drop_gapLength r.cursor.rest
  have hread : leadingLexeme true false (r.gapEnd.rest.take r.lexeme.length) = r.lexeme := by
    rw [Reader.lexeme, hmatch]
    exact leadingLexeme_take _ _
  exact Stream.kinds_ofText_of_lexeme (pieceLength_take hpiece _) hkind hread
    (List.length_take_le _ _) line'

/-- The characters of a token, read by themselves, are a token of the same kind and with the same
value or fault, and the end marker; unless the token comes directly behind a match operator. -/
theorem tokens_are_read_alone {text : List Char} {line : Nat} {front back : List Token} {t : Token}
    (h : (Stream.ofText text line).toList = front ++ t :: back) (ht : t.kind ≠ .eof)
    (hfront : ∀ before ∈ front.getLast?, before.kind.isMatch = false) (line' : Nat) :
    ∃ piece after, t.span.Cuts text piece after ∧
      (Stream.ofText piece line').toList.map Token.kind = [t.kind, .eof] := by
  rw [Stream.ofText_eq_stream] at h
  obtain ⟨r, hr, rfl, hmatch⟩ := Reader.exists_of_toList_eq_append
    (fun _ => Reader.ReadsIn.next) (Reader.readsIn_ofText text line) h
  refine hr.kinds_of_cuts (hmatch.trans ?_) ht line'
  cases hlast : front.getLast? with
  | none => rfl
  | some before => exact hfront before hlast

/-- An integer, although an exponent seems to begin behind it, and a string that nothing closes. -/
theorem tokens_are_read_alone_before_open_string :
    let text := ['1', 'e', '+', '\'', 'a', '\n', ';']
    let whole : Token := ⟨.integer 1, ⟨0, 1⟩, ⟨⟨1, 1⟩, ⟨1, 2⟩⟩, false⟩
    let middle : List Token :=
      [⟨.identifier "e", ⟨1, 2⟩, ⟨⟨1, 2⟩, ⟨1, 3⟩⟩, false⟩,
        ⟨.symbol .plus, ⟨2, 3⟩, ⟨⟨1, 3⟩, ⟨1, 4⟩⟩, false⟩]
    let literal : Token := ⟨.invalid (.unterminated .string), ⟨3, 5⟩, ⟨⟨1, 4⟩, ⟨1, 6⟩⟩, false⟩
    let back : List Token :=
      [⟨.symbol .semicolon, ⟨6, 7⟩, ⟨⟨2, 1⟩, ⟨2, 2⟩⟩, true⟩,
        ⟨.eof, ⟨7, 7⟩, ⟨⟨2, 2⟩, ⟨2, 2⟩⟩, false⟩]
    (Stream.ofText text 1).toList = whole :: middle ++ literal :: back ∧
      (∃ piece after, whole.span.Cuts text piece after ∧
        (Stream.ofText piece 1).toList.map Token.kind = [.integer 1, .eof]) ∧
      ∃ piece after, literal.span.Cuts text piece after ∧
        (Stream.ofText piece 1).toList.map Token.kind
          = [.invalid (.unterminated .string), .eof] := by
  intro text whole middle literal back
  have htext : (Stream.ofText text 1).toList = whole :: middle ++ literal :: back := by decide
  have hwhole : (Stream.ofText text 1).toList = [] ++ whole :: (middle ++ literal :: back) := htext
  refine ⟨htext, ?_, ?_⟩
  · exact tokens_are_read_alone hwhole (by decide) (by decide) 1
  · exact tokens_are_read_alone htext (by decide) (by decide) 1

end QoreSyntax.Token

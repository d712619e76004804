import QoreSyntax.Proofs.Token.Closing
import QoreSyntax.Proofs.Token.Succession

namespace QoreSyntax

namespace Regex

/-- The characters may stand between two marks of a regular expression: a backslash protects each
slash, and none is left over at the end. -/
inductive IsPart : List Char → Prop where
  | nil : IsPart []
  | plain {c : Char} {chars : List Char} (hslash : c ≠ '/') (hbackslash : c ≠ '\\')
      (h : IsPart chars) : IsPart (c :: chars)
  | pair (c : Char) {chars : List Char} (h : IsPart chars) : IsPart ('\\' :: c :: chars)

/-- The flags of a regular expression are letters. -/
def AreFlags (chars : List Char) : Prop :=
  ∀ c ∈ chars, c.isAlpha = true

/-- The regular expression may be written as `chars`. Without a letter before it the pattern cannot
begin with `*`, which would open a comment. -/
inductive Spells : (regex : Regex) → (chars : List Char) → Prop where
  | slash {pattern flags : List Char} (hpattern : IsPart pattern)
      (hstar : pattern.head? ≠ some '*') (hflags : AreFlags flags) :
      Spells ⟨.match, String.ofList pattern, none, String.ofList flags⟩
        ('/' :: pattern ++ '/' :: flags)
  | one {purpose : Purpose} {letters pattern flags : List Char}
      (hletters : (purpose, letters) ∈ [(Purpose.match, ['m']), (Purpose.extract, ['x'])])
      (hpattern : IsPart pattern) (hflags : AreFlags flags) :
      Spells ⟨purpose, String.ofList pattern, none, String.ofList flags⟩
        (letters ++ '/' :: pattern ++ '/' :: flags)
  | two {purpose : Purpose} {letters pattern replacement flags : List Char}
      (hletters : (purpose, letters) ∈
        [(Purpose.substitute, ['s']), (Purpose.transliterate, ['t', 'r'])])
      (hpattern : IsPart pattern) (hreplacement : IsPart replacement) (hflags : AreFlags flags) :
      Spells ⟨purpose, String.ofList pattern, some (String.ofList replacement),
          String.ofList flags⟩
        (letters ++ '/' :: pattern ++ '/' :: replacement ++ '/' :: flags)

theorem IsPart.isPassedOver {chars : List Char} (h : IsPart chars) :
    Token.IsPassedOver '/' chars := by
  induction h with
  | nil => exact .nil
  | plain hslash hbackslash _ ih => exact (Token.IsPassedOver.plain hslash hbackslash).append ih
  | pair c _ ih => exact (Token.IsPassedOver.pair (by decide) c).append ih

end Regex

namespace Token

section Reading

variable {purpose : Regex.Purpose} {pattern replacement flags rest : List Char}

theorem regexLiteral_one (hpurpose : purpose.hasReplacement = false)
    (hpattern : Regex.IsPart pattern) (hflags : Regex.AreFlags flags)
    (hrest : ∀ c ∈ rest.head?, c.isAlpha = false) (opening : Nat) :
    regexLiteral purpose opening (pattern ++ '/' :: (flags ++ rest)) =
      ⟨.regex ⟨purpose, String.ofList pattern, none, String.ofList flags⟩,
        opening + (pattern.length + 1) + flags.length⟩ := by
  have hclosing := hpattern.isPassedOver.closing?_eq (flags ++ rest)
  have hbehind : (pattern ++ '/' :: (flags ++ rest)).drop (pattern.length + 1) = flags ++ rest := by
    rw [← List.drop_drop, List.drop_left]
    rfl
  have hend : (flags ++ rest).takeWhile Char.isAlpha = flags :=
    takeWhile_append_of_head hflags hrest
  simp only [regexLiteral, hclosing, hpurpose, Bool.false_eq_true, if_false, hbehind, hend,
    List.take_left, Option.map_none]

theorem regexLiteral_two (hpurpose : purpose.hasReplacement = true)
    (hpattern : Regex.IsPart pattern) (hreplacement : Regex.IsPart replacement)
    (hflags : Regex.AreFlags flags) (hrest : ∀ c ∈ rest.head?, c.isAlpha = false)
    (opening : Nat) :
    regexLiteral purpose opening (pattern ++ '/' :: (replacement ++ '/' :: (flags ++ rest))) =
      ⟨.regex ⟨purpose, String.ofList pattern, some (String.ofList replacement),
          String.ofList flags⟩,
        opening + (pattern.length + replacement.length + 2) + flags.length⟩ := by
  have hclosing := hpattern.isPassedOver.closing?_eq (replacement ++ '/' :: (flags ++ rest))
  have hclosing' := hreplacement.isPassedOver.closing?_eq (flags ++ rest)
  have hsecond : (pattern ++ '/' :: (replacement ++ '/' :: (flags ++ rest))).drop
      (pattern.length + 1) = replacement ++ '/' :: (flags ++ rest) := by
    rw [← List.drop_drop, List.drop_left]
    rfl
  have hbehind : (pattern ++ '/' :: (replacement ++ '/' :: (flags ++ rest))).drop
      (pattern.length + replacement.length + 2) = flags ++ rest := by
    have hlength : pattern.length + replacement.length + 2
        = (pattern.length + 1) + (replacement.length + 1) := by omega
    rw [hlength, ← List.drop_drop, hsecond, ← List.drop_drop, List.drop_left]
    rfl
  have hend : (flags ++ rest).takeWhile Char.isAlpha = flags :=
    takeWhile_append_of_head hflags hrest
  simp only [regexLiteral, hclosing, hpurpose, if_true, hsecond, hclosing', hbehind, hend,
    List.take_left, Option.map_some]

theorem leadingLexeme_of_letters {letters : List Char}
    (h : (purpose, letters) ∈ [(Regex.Purpose.match, ['m']), (Regex.Purpose.extract, ['x']),
      (Regex.Purpose.substitute, ['s']), (Regex.Purpose.transliterate, ['t', 'r'])])
    (lineStart : Bool) (rest : List Char) :
    leadingLexeme lineStart true (letters ++ '/' :: rest)
        = regexLiteral purpose (letters.length + 1) rest ∧
      pieceLength (letters ++ '/' :: rest) = 0 := by
  simp only [List.mem_cons, List.not_mem_nil, or_false, Prod.mk.injEq] at h
  rcases h with ⟨rfl, rfl⟩ | ⟨rfl, rfl⟩ | ⟨rfl, rfl⟩ | ⟨rfl, rfl⟩ <;> exact ⟨rfl, rfl⟩

theorem leadingLexeme_of_slash {rest : List Char} (hstar : rest.head? ≠ some '*')
    (lineStart : Bool) :
    leadingLexeme lineStart true ('/' :: rest) = regexLiteral .match 1 rest ∧
      pieceLength ('/' :: rest) = 0 := by
  have hopens : opensComment ('/' :: rest) = false := by
    cases rest with
    | nil => rfl
    | cons c rest =>
        have hne : ('*' == c) = false := by
          rw [beq_eq_false_iff_ne]
          rintro rfl
          exact hstar rfl
        rw [opensComment, List.isPrefixOf, List.isPrefixOf, hne, Bool.false_and, Bool.and_false]
  constructor
  · rw [leadingLexeme, hopens]
    rfl
  · rw [pieceLength, hopens]
    rfl

/-- Behind a match operator the regular expression is read from the way in which it is written, and
no gap begins there. -/
theorem leadingLexeme_of_spells {regex : Regex} {chars : List Char} (h : regex.Spells chars)
    (hrest : ∀ c ∈ rest.head?, c.isAlpha = false) (lineStart : Bool) :
    leadingLexeme lineStart true (chars ++ rest) = ⟨.regex regex, chars.length⟩ ∧
      pieceLength (chars ++ rest) = 0 := by
  cases h with
  | @slash pattern flags hpattern hstar hflags =>
      have htext : '/' :: pattern ++ '/' :: flags ++ rest
          = '/' :: (pattern ++ '/' :: (flags ++ rest)) := by simp
      have hhead : (pattern ++ '/' :: (flags ++ rest)).head? ≠ some '*' := by
        cases pattern with
        | nil => simp
        | cons c pattern => exact hstar
      obtain ⟨hread, hpiece⟩ := leadingLexeme_of_slash hhead lineStart
      rw [htext]
      refine ⟨?_, hpiece⟩
      rw [hread, regexLiteral_one rfl hpattern hflags hrest]
      simp
      omega
  | @one purpose letters pattern flags hletters hpattern hflags =>
      have hpurpose : purpose.hasReplacement = false := by
        simp only [List.mem_cons, List.not_mem_nil, or_false, Prod.mk.injEq] at hletters
        rcases hletters with ⟨rfl, -⟩ | ⟨rfl, -⟩ <;> rfl
      have htext : letters ++ '/' :: pattern ++ '/' :: flags ++ rest
          = letters ++ '/' :: (pattern ++ '/' :: (flags ++ rest)) := by simp
      obtain ⟨hread, hpiece⟩ := leadingLexeme_of_letters
        (List.mem_append_left _ hletters) lineStart (pattern ++ '/' :: (flags ++ rest))
      rw [htext]
      refine ⟨?_, hpiece⟩
      rw [hread, regexLiteral_one hpurpose hpattern hflags hrest]
      simp
      omega
  | @two purpose letters pattern replacement flags hletters hpattern hreplacement hflags =>
      have hpurpose : purpose.hasReplacement = true := by
        simp only [List.mem_cons, List.not_mem_nil, or_false, Prod.mk.injEq] at hletters
        rcases hletters with ⟨rfl, -⟩ | ⟨rfl, -⟩ <;> rfl
      have htext : letters ++ '/' :: pattern ++ '/' :: replacement ++ '/' :: flags ++ rest
          = letters ++ '/' :: (pattern ++ '/' :: (replacement ++ '/' :: (flags ++ rest))) := by simp
      obtain ⟨hread, hpiece⟩ := leadingLexeme_of_letters
        (List.mem_cons_of_mem _ (List.mem_cons_of_mem _ hletters)) lineStart
        (pattern ++ '/' :: (replacement ++ '/' :: (flags ++ rest)))
      rw [htext]
      refine ⟨?_, hpiece⟩
      rw [hread, regexLiteral_two hpurpose hpattern hreplacement hflags hrest]
      simp
      omega

end Reading

/-- The token is a regular expression. -/
def Kind.isRegex : Kind → Bool
  | .regex _ => true
  | _ => false

theorem Kind.IsQuoted.isRegex_eq {kind : Kind} (h : kind.IsQuoted) : kind.isRegex = false := by
  cases h <;> rfl

theorem Kind.IsNumeral.isRegex_eq {kind : Kind} (h : kind.IsNumeral) : kind.isRegex = false := by
  cases h <;> rfl

theorem Kind.IsDollarForm.isRegex_eq {kind : Kind} (h : kind.IsDollarForm) :
    kind.isRegex = false := by
  cases h <;> rfl

theorem isRegex_plainLexeme (lineStart : Bool) (text : List Char) :
    (plainLexeme lineStart text).kind.isRegex = false := by
  rcases text with - | ⟨c, cs⟩
  · rfl
  obtain ⟨read, hread, htext⟩ := exists_readBy c
  rw [htext]
  cases hread with
  | doubleQuoted => exact (doubleQuoted_isQuoted cs).isRegex_eq
  | singleQuoted => exact (singleQuoted_isQuoted cs).isRegex_eq
  | backquoted => exact (backquoted_isQuoted cs).isRegex_eq
  | dollarForm => exact (dollarForm_isDollarForm cs).isRegex_eq
  | numeral => exact (numeral_isNumeral (c :: cs)).isRegex_eq
  | word =>
      dsimp only
      rw [word]
      split <;> rfl
  | mark =>
      rw [markLexeme]
      split_ifs
      · rfl
      · split <;> rfl

theorem Reader.afterMatch_of_isRegex {r : Reader} (h : r.next.1.kind.isRegex = true) :
    r.afterMatch = true := by
  rw [← Bool.not_eq_false]
  intro hnot
  rw [next_kind, lexeme, hnot, leadingLexeme] at h
  split at h
  · cases h
  · simp [isRegex_plainLexeme] at h

theorem isApart_blank (rest : List Char) : IsApart (' ' :: rest) :=
  Or.inr ⟨rest, rfl⟩

section Line

variable {regex : Regex} {chars : List Char} (h : regex.Spells chars) {r : Reader}
include h

theorem kinds_of_spells (hmatch : r.afterMatch = true)
    (htext : r.cursor.rest = [' '] ++ (chars ++ [';'])) :
    r.stream.toList.map Token.kind = [.regex regex, .symbol .semicolon, .eof] := by
  have hread : ∀ lineStart, leadingLexeme lineStart true (chars ++ [';'])
      = ⟨.regex regex, chars.length⟩ ∧ pieceLength (chars ++ [';']) = 0 :=
    leadingLexeme_of_spells h (by rintro _ ⟨⟩; rfl)
  have hne : Kind.regex regex ≠ .eof := by simp
  obtain ⟨hkinds, hrest, hafter⟩ := Reader.kinds_of_gap (isGap_of_blank (Or.inr rfl) _) htext hne
    (hread true).2 fun newline => by rw [hmatch]; exact (hread _).1
  have hend : r.next.2.cursor.rest = [] ++ (Symbol.semicolon.characters ++ []) := hrest
  obtain ⟨hkinds', hrest', -⟩ := Reader.kinds_of_lexesBefore (.nil _) hend (by simp)
    ((lexes_symbol .semicolon).before (Or.inl rfl)) hafter
  rw [hkinds, hkinds', Reader.kinds_of_rest_eq_nil hrest']

theorem kinds_of_match {mark : Symbol} (hmark : mark ∈ [Symbol.match, Symbol.noMatch])
    (hmatch : r.afterMatch = false)
    (htext : r.cursor.rest = [' '] ++ (mark.characters ++ ' ' :: (chars ++ [';']))) :
    r.stream.toList.map Token.kind
      = [.symbol mark, .regex regex, .symbol .semicolon, .eof] := by
  have hoperator : (Kind.symbol mark).isMatch = true := by
    simp only [List.mem_cons, List.not_mem_nil, or_false] at hmark
    rcases hmark with rfl | rfl <;> rfl
  obtain ⟨hkinds, hrest, hafter⟩ :=
    Reader.kinds_of_lexesBefore (isGap_of_blank (Or.inr rfl) _) htext (by simp)
      ((lexes_symbol mark).before (isApart_blank _)) hmatch
  rw [hkinds, kinds_of_spells h (hafter.trans hoperator) hrest]

end Line

/-- A regular expression that is written behind a match operator is read back, in each of its forms.
In any text a regular expression comes directly after a match operator. -/
theorem regexes_are_read_back (line : Nat) :
    (∀ regex chars, Regex.Spells regex chars → ∀ mark ∈ [Symbol.match, Symbol.noMatch],
      (Stream.ofText ('x' :: ' ' :: (mark.characters ++ ' ' :: (chars ++ [';']))) line).toList.map
          Token.kind
        = [.identifier "x", .symbol mark, .regex regex, .symbol .semicolon, .eof]) ∧
      ∀ text front t back, (Stream.ofText text line).toList = front ++ t :: back →
        ∀ regex, t.kind = .regex regex →
          ∃ before ∈ front.getLast?, before.kind ∈ [.symbol .match, .symbol .noMatch] := by
  constructor
  · intro regex chars h mark hmark
    have hname : LexesBefore (' ' :: (mark.characters ++ ' ' :: (chars ++ [';']))) ['x']
        (.identifier "x") :=
      lexesBefore_name (by decide) ((isApart_blank _).head?_eq (by decide))
    have htext : (Reader.ofText ('x' :: ' ' :: (mark.characters ++ ' ' :: (chars ++ [';'])))
        line).cursor.rest = [] ++ (['x'] ++ ' ' :: (mark.characters ++ ' ' :: (chars ++ [';']))) :=
      rfl
    obtain ⟨hkinds, hrest, hafter⟩ :=
      Reader.kinds_of_lexesBefore (.nil _) htext (by simp) hname rfl
    rw [Stream.ofText_eq_stream, hkinds, kinds_of_match h hmark hafter hrest]
  · intro text front t back htokens regex hkind
    obtain ⟨r, -, ht, hmatch⟩ := Reader.exists_of_toList_eq_append (I := fun _ => True)
      (fun _ _ => trivial) trivial htokens
    have hafter : r.afterMatch = true :=
      Reader.afterMatch_of_isRegex (by rw [ht, hkind]; rfl)
    rw [hafter] at hmatch
    cases hlast : front.getLast? with
    | none =>
        rw [hlast] at hmatch
        cases hmatch
    | some before =>
        rw [hlast] at hmatch
        refine ⟨before, rfl, ?_⟩
        have hoperator : before.kind.isMatch = true := hmatch.symm
        simpa [Kind.isMatch] using hoperator

/-- A protected mark in the first part, and a protected backslash before the mark behind the second
one. -/
theorem regexes_are_read_back_escaped :
    let regex : Regex := ⟨.transliterate, String.ofList ['a', '\\', '/'],
      some (String.ofList ['\\', '\\']), String.ofList ['g']⟩
    let chars := ['t', 'r'] ++ '/' :: ['a', '\\', '/'] ++ '/' :: ['\\', '\\'] ++ '/' :: ['g']
    let text := 'x' :: ' ' :: (Symbol.noMatch.characters ++ ' ' :: (chars ++ [';']))
    let front : List Token :=
      [⟨.identifier "x", ⟨0, 1⟩, ⟨⟨1, 1⟩, ⟨1, 2⟩⟩, false⟩,
        ⟨.symbol .noMatch, ⟨2, 4⟩, ⟨⟨1, 3⟩, ⟨1, 5⟩⟩, false⟩]
    (Stream.ofText text 1).toList.map Token.kind
        = [.identifier "x", .symbol .noMatch, .regex regex, .symbol .semicolon, .eof] ∧
      ∃ t back, (Stream.ofText text 1).toList = front ++ t :: back ∧ t.kind = .regex regex ∧
        ∃ before ∈ front.getLast?, before.kind ∈ [.symbol .match, .symbol .noMatch] := by
  intro regex chars text front
  have hpattern : Regex.IsPart ['a', '\\', '/'] := .plain (by decide) (by decide) (.pair '/' .nil)
  have hflags : Regex.AreFlags ['g'] := by
    intro c hc
    rw [List.mem_singleton.mp hc]
    decide
  have hletters : (Regex.Purpose.transliterate, ['t', 'r']) ∈
      [(Regex.Purpose.substitute, ['s']), (Regex.Purpose.transliterate, ['t', 'r'])] := by decide
  have hspells : regex.Spells chars := .two hletters hpattern (.pair '\\' .nil) hflags
  have htokens : (Stream.ofText text 1).toList = front ++
      ⟨.regex regex, ⟨5, 16⟩, ⟨⟨1, 6⟩, ⟨1, 17⟩⟩, false⟩ ::
        [⟨.symbol .semicolon, ⟨16, 17⟩, ⟨⟨1, 17⟩, ⟨1, 18⟩⟩, false⟩,
          ⟨.eof, ⟨17, 17⟩, ⟨⟨1, 18⟩, ⟨1, 18⟩⟩, false⟩] := by decide
  refine ⟨(regexes_are_read_back 1).1 regex chars hspells .noMatch (by decide), ?_⟩
  exact ⟨_, _, htokens, rfl, (regexes_are_read_back 1).2 text front _ _ htokens regex rfl⟩

end Token

end QoreSyntax

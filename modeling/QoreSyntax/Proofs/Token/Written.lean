import Mathlib.Data.List.Chain
import QoreSyntax.Proofs.Token.Ending.Gap
import QoreSyntax.Proofs.Token.Stream

namespace QoreSyntax.Token

/-- The characters may stand as a name, unless they are a reserved word. -/
def isName : List Char → Bool
  | [] => false
  | c :: cs => beginsName c && cs.all isNameChar

namespace Kind

/-- How a token of the kind is written. Only for integers there are several ways, of which this is
the shortest one; kinds of other literals are left out. -/
def spelling? : Kind → Option (List Char)
  | .identifier name => some name.toList
  | .keyword word => some word.spelling.toList
  | .integer value => some (Nat.toDigits 10 value)
  | .symbol mark => some mark.characters
  | _ => none

/-- The kind has a spelling, and its value is one that a token can have. -/
def IsPlain : Kind → Prop
  | .identifier name => isName name.toList = true ∧ Keyword.ofWord? name = none
  | .integer value => value < Nat.pow 2 63
  | .keyword _ | .symbol _ => True
  | _ => False

/-- A regular expression may begin after the token. -/
def isMatch (kind : Kind) : Bool :=
  kind == .symbol .match || kind == .symbol .noMatch

/-- The token begins with the mark that begins a regular expression. -/
def beginsWithSlash (kind : Kind) : Bool :=
  kind == .symbol .slash || kind == .symbol .slashAssign

end Kind

/-- The tokens, written with a blank between two of them. -/
def written (kinds : List Kind) : List Char :=
  [' '].intercalate (kinds.filterMap Kind.spelling?)

/-- The text is at its end or goes on with a blank. -/
def IsApart (rest : List Char) : Prop :=
  rest = [] ∨ ∃ more, rest = ' ' :: more

theorem isGap_of_blank {gap : List Char} (hgap : gap = [] ∨ gap = [' ']) (rest : List Char) :
    IsGap gap rest := by
  rcases hgap with rfl | rfl
  · exact .nil rest
  · exact .blank (by decide) (.nil rest)

/-- However the text goes on after a blank, the characters are read as a token of the kind. Behind a
match operator this holds as well, if no character is the mark of a regular expression. -/
structure Lexes (chars : List Char) (kind : Kind) : Prop where
  ne_nil : chars ≠ []
  pieceLength_eq {rest : List Char} (h : IsApart rest) : pieceLength (chars ++ rest) = 0
  opensComment_eq {rest : List Char} (h : IsApart rest) : opensComment (chars ++ rest) = false
  plainLexeme_eq {rest : List Char} (h : IsApart rest) (lineStart : Bool) :
    plainLexeme lineStart (chars ++ rest) = ⟨kind, chars.length⟩

/-- Where the text goes on with `rest` the characters are read as a token of the kind. -/
structure LexesBefore (rest chars : List Char) (kind : Kind) : Prop where
  ne_nil : chars ≠ []
  pieceLength_eq : pieceLength (chars ++ rest) = 0
  opensComment_eq : opensComment (chars ++ rest) = false
  plainLexeme_eq (lineStart : Bool) : plainLexeme lineStart (chars ++ rest) = ⟨kind, chars.length⟩

theorem Lexes.before {chars rest : List Char} {kind : Kind} (h : Lexes chars kind)
    (hrest : IsApart rest) : LexesBefore rest chars kind :=
  ⟨h.ne_nil, h.pieceLength_eq hrest, h.opensComment_eq hrest, h.plainLexeme_eq hrest⟩

/-- What is read before all that is apart is read wherever nothing follows. -/
theorem lexes_of_before {chars : List Char} {kind : Kind}
    (h : ∀ rest, IsApart rest → LexesBefore rest chars kind) : Lexes chars kind where
  ne_nil := (h [] (Or.inl rfl)).ne_nil
  pieceLength_eq hrest := (h _ hrest).pieceLength_eq
  opensComment_eq hrest := (h _ hrest).opensComment_eq
  plainLexeme_eq hrest := (h _ hrest).plainLexeme_eq

theorem lexes_symbol (symbol : Symbol) : Lexes symbol.characters (.symbol symbol) where
  ne_nil := List.ne_nil_of_length_pos (Symbol.characters_length_pos symbol)
  pieceLength_eq := by
    rintro rest (rfl | ⟨more, rfl⟩) <;> cases symbol <;> rfl
  opensComment_eq := by
    rintro rest (rfl | ⟨more, rfl⟩) <;> cases symbol <;> rfl
  plainLexeme_eq := by
    rintro rest (rfl | ⟨more, rfl⟩) lineStart <;> cases lineStart <;> cases symbol <;> rfl

theorem IsApart.head?_eq {rest : List Char} (h : IsApart rest) {p : Char → Bool}
    (hp : p ' ' = false) : ∀ c ∈ rest.head?, p c = false := by
  rcases h with rfl | ⟨more, rfl⟩
  · exact fun _ hmem => nomatch hmem
  · rintro c ⟨⟩
    exact hp

/-- A run of characters ends before one of another sort. -/
theorem takeWhile_append_of_head {rest chars : List Char} {p : Char → Bool}
    (hchars : ∀ c ∈ chars, p c = true) (hrest : ∀ c ∈ rest.head?, p c = false) :
    (chars ++ rest).takeWhile p = chars := by
  rw [List.takeWhile_append_of_pos hchars]
  cases rest with
  | nil => exact List.append_nil chars
  | cons c rest =>
      rw [List.takeWhile_cons_of_neg (by rw [hrest c rfl]; exact Bool.false_ne_true),
        List.append_nil]

theorem isNameChar_of_mem {name : List Char} (h : isName name = true) :
    ∀ c ∈ name, isNameChar c = true := by
  cases name with
  | nil => cases h
  | cons c cs =>
      simp only [isName, Bool.and_eq_true, List.all_eq_true] at h
      intro d hmem
      rcases List.mem_cons.mp hmem with rfl | hmem
      · exact isNameChar_of_beginsName h.1
      · exact h.2 d hmem

/-- Before a character that is none of a name, a name is read as a word, which is a reserved one or
not. -/
theorem lexesBefore_name {name rest : List Char} (h : isName name = true)
    (hrest : ∀ c ∈ rest.head?, isNameChar c = false) :
    LexesBefore rest name (match Keyword.ofWord? (String.ofList name) with
      | some keyword => .keyword keyword
      | none => .identifier (String.ofList name)) := by
  obtain ⟨c, cs, rfl⟩ : ∃ c cs, name = c :: cs := by
    cases name with
    | nil => cases h
    | cons c cs => exact ⟨c, cs, rfl⟩
  have hc : beginsName c = true := by
    simp only [isName, Bool.and_eq_true] at h
    exact h.1
  have hmark : c ∉ gapMarks := by
    intro hmem
    have hall : gapMarks.all (!beginsName ·) := by decide
    have hnot := List.all_eq_true.mp hall c hmem
    rw [hc] at hnot
    cases hnot
  refine ⟨List.cons_ne_nil c cs, pieceLength_of_not_mem hmark _, opensComment_of_not_mem hmark _,
    fun lineStart => ?_⟩
  have hname : leadingName (c :: cs ++ rest) = c :: cs :=
    takeWhile_append_of_head (isNameChar_of_mem h) hrest
  rw [List.cons_append, plainLexeme_of_beginsName hc, ← List.cons_append, word, hname]
  cases Keyword.ofWord? (String.ofList (c :: cs)) with
  | some keyword => rfl
  | none => rfl

theorem lexes_name {name : List Char} (h : isName name = true) :
    Lexes name (match Keyword.ofWord? (String.ofList name) with
      | some keyword => .keyword keyword
      | none => .identifier (String.ofList name)) :=
  lexes_of_before fun _ hrest => lexesBefore_name h (hrest.head?_eq (by decide))

theorem isName_keyword (word : Keyword) : isName word.spelling.toList = true := by
  cases word <;> decide

theorem ofWord?_spelling (word : Keyword) : Keyword.ofWord? word.spelling = some word := by
  cases word <;> decide

theorem spelling_of_ofWord? {name : String} {word : Keyword}
    (h : Keyword.ofWord? name = some word) : word.spelling = name := by
  simpa using List.find?_some h

theorem digitValue_of_isDigit {c : Char} (hc : c.isDigit = true) :
    digitValue c = c.toNat - '0'.toNat := by
  rw [digitValue, if_pos hc]

theorem numberOf_eq_ofDigitChars (base : Nat) {digits : List Char}
    (h : ∀ c ∈ digits, c.isDigit = true) : numberOf base digits = base.ofDigitChars digits 0 := by
  rw [numberOf, Nat.ofDigitChars_eq_foldl]
  refine List.foldl_ext _ _ _ fun value c hmem => ?_
  rw [digitValue_of_isDigit (h c hmem), Nat.mul_comm]

/-- No number goes on with the text. -/
def EndsNumber (rest : List Char) : Prop :=
  ∀ c ∈ rest.head?, c.isDigit = false ∧ isNameChar c = false ∧ c ≠ '.' ∧ c ≠ '-'

theorem IsApart.endsNumber {rest : List Char} (h : IsApart rest) : EndsNumber rest := by
  rcases h with rfl | ⟨more, rfl⟩
  · exact fun _ hmem => nomatch hmem
  · rintro c ⟨⟩
    decide

namespace EndsNumber

variable {rest : List Char} (h : EndsNumber rest)
include h

theorem leadingDigits_append {digits : List Char} (hdigits : ∀ c ∈ digits, c.isDigit = true) :
    leadingDigits (digits ++ rest) = digits :=
  takeWhile_append_of_head hdigits fun c hc => (h c hc).1

/-- The text does not begin with a character of a name. -/
theorem head?_ne {d : Char} (hd : isNameChar d = true) : (rest.head? == some d) = false := by
  rw [beq_eq_false_iff_ne]
  intro hhead
  exact Bool.noConfusion ((h d hhead).2.1.symm.trans hd)

theorem fraction_eq : fraction rest = [] := by
  rw [fraction.eq_def]
  split
  · exact absurd rfl (h _ rfl).2.2.1
  · rfl

theorem exponent_eq : exponent rest = [] := by
  cases rest with
  | nil => rfl
  | cons c rest =>
      have hne : ∀ d, isNameChar d = true → (c == d) = false := fun d hd => h.head?_ne hd
      rw [exponent, hne 'e' (by decide), hne 'E' (by decide)]
      rfl

theorem durationUnit?_eq : durationUnit? rest = none := by
  have hnone : durationUnits.find? (·.isPrefixOf rest) = none := by
    rw [List.find?_eq_none]
    intro unit hunit hbegins
    have hname : ∀ unit ∈ durationUnits, ∃ d more, unit = d :: more ∧ isNameChar d = true := by
      simp [durationUnits]
      decide
    obtain ⟨d, more, rfl, hd⟩ := hname unit hunit
    obtain ⟨behind, hrest⟩ := List.isPrefixOf_iff_prefix.mp hbegins
    have hhead : rest.head? = some d := by rw [← hrest]; rfl
    exact absurd (beq_iff_eq.mpr hhead) (by rw [h.head?_ne hd]; exact Bool.false_ne_true)
  rw [durationUnit?, hnone]
  rfl

theorem monthAndDayFollow_eq : monthAndDayFollow rest = false := by
  rw [monthAndDayFollow.eq_def]
  split
  · exact absurd rfl (h _ rfl).2.2.2
  · rfl

/-- Digits with which no number goes on are an integer in decimal notation. -/
theorem decimal_append {digits : List Char} (hdigits : ∀ c ∈ digits, c.isDigit = true) :
    decimal (digits ++ rest) = ⟨integerKind (numberOf 10 digits) digits, digits.length⟩ := by
  have hsuffix : (rest.head? == some 'n') = false := h.head?_ne (by decide)
  simp only [decimal, h.leadingDigits_append hdigits, List.drop_left, h.fraction_eq,
    List.length_nil, Nat.add_zero, h.exponent_eq, hsuffix, Bool.false_and, Bool.false_eq_true,
    if_false, List.isEmpty_nil, Bool.and_self, if_true, h.durationUnit?_eq]

theorem numeral_append {digits : List Char} (hdigits : ∀ c ∈ digits, c.isDigit = true)
    (hne : digits ≠ []) :
    numeral (digits ++ rest) = ⟨integerKind (numberOf 10 digits) digits, digits.length⟩ := by
  have hhex : ((digits ++ rest).drop 1).head?.any (fun c => c == 'x' || c == 'X') = false := by
    rcases digits with - | ⟨c, - | ⟨d, digits⟩⟩
    · exact absurd rfl hne
    · cases rest with
      | nil => rfl
      | cons d rest =>
          have hx : ∀ e, isNameChar e = true → (d == e) = false := fun e he => h.head?_ne he
          change (d == 'x' || d == 'X') = false
          rw [hx 'x' (by decide), hx 'X' (by decide)]
          rfl
    · have hd : d.isDigit = true := hdigits d (by simp)
      have hx : ∀ e : Char, e.isDigit = false → (d == e) = false := fun e he => ne_of_isDigit hd he
      simp [hx 'x' (by decide), hx 'X' (by decide)]
  have hdate : (digits.length == 4 && monthAndDayFollow ((digits ++ rest).drop 4)) = false := by
    rw [Bool.and_eq_false_iff]
    by_cases hlength : digits.length = 4
    · right
      rw [← hlength, List.drop_left]
      exact h.monthAndDayFollow_eq
    · left
      simpa using hlength
  simp only [numeral, hhex, Bool.and_false, Bool.false_eq_true, if_false,
    h.leadingDigits_append hdigits, hdate, h.decimal_append hdigits]

end EndsNumber

theorem isDigit_of_mem_toDigits {value : Nat} : ∀ c ∈ Nat.toDigits 10 value, c.isDigit = true :=
  fun _ hmem => Nat.isDigit_of_mem_toDigits (by decide) (by decide) hmem

theorem not_mem_gapMarks_of_isDigit {c : Char} (hc : c.isDigit = true) : c ∉ gapMarks := by
  intro hmem
  have hall : gapMarks.all (!Char.isDigit ·) := by decide
  have hnot := List.all_eq_true.mp hall c hmem
  rw [hc] at hnot
  cases hnot

theorem lexesBefore_integer {value : Nat} (h : value < Nat.pow 2 63) {rest : List Char}
    (hrest : EndsNumber rest) : LexesBefore rest (Nat.toDigits 10 value) (.integer value) := by
  have hdigits : ∀ c ∈ Nat.toDigits 10 value, c.isDigit = true := isDigit_of_mem_toDigits
  have hvalue : integerKind (numberOf 10 (Nat.toDigits 10 value)) (Nat.toDigits 10 value) =
      .integer value := by
    rw [numberOf_eq_ofDigitChars 10 hdigits, Nat.ofDigitChars_ten_toDigits, integerKind]
    exact if_pos h
  obtain ⟨c, cs, hcons⟩ := List.exists_cons_of_ne_nil (Nat.toDigits_ne_nil (n := value) (b := 10))
  have hc : c.isDigit = true := hdigits c (hcons ▸ List.mem_cons_self)
  have hmark := not_mem_gapMarks_of_isDigit hc
  refine ⟨Nat.toDigits_ne_nil, ?_, ?_, fun lineStart => ?_⟩
  · rw [hcons]
    exact pieceLength_of_not_mem hmark _
  · rw [hcons]
    exact opensComment_of_not_mem hmark _
  · rw [← hvalue, ← hrest.numeral_append hdigits Nat.toDigits_ne_nil, hcons, List.cons_append,
      plainLexeme_of_isDigit hc]

theorem lexes_integer {value : Nat} (h : value < Nat.pow 2 63) :
    Lexes (Nat.toDigits 10 value) (.integer value) :=
  lexes_of_before fun _ hrest => lexesBefore_integer h hrest.endsNumber

/-- No regular expression begins where none of its openings does. -/
theorem regexOpening?_eq_none {text : List Char}
    (h : ∀ front ∈ [[], ['m'], ['s'], ['x'], ['t', 'r']], ∀ tail, text ≠ front ++ '/' :: tail) :
    regexOpening? text = none := by
  rw [regexOpening?.eq_def]
  split
  · exact absurd rfl (h [] (by decide) _)
  · exact absurd rfl (h ['m'] (by decide) _)
  · exact absurd rfl (h ['s'] (by decide) _)
  · exact absurd rfl (h ['x'] (by decide) _)
  · exact absurd rfl (h ['t', 'r'] (by decide) _)
  · rfl

/-- No regular expression begins in a token without a slash, nor behind it before a character that
opens none. -/
theorem regexOpening?_eq_of_ends {chars rest : List Char}
    (hrest : ∀ c ∈ rest.head?, isNameChar c = false ∧ c ≠ '/') (hslash : '/' ∉ chars) :
    regexOpening? (chars ++ rest) = none := by
  refine regexOpening?_eq_none fun front hfront tail htext => ?_
  have hnames : front.all isNameChar = true := by
    clear htext
    revert front
    decide
  rcases List.append_eq_append_iff.mp htext with ⟨middle, rfl, hrest'⟩ | ⟨middle, rfl, htail⟩
  · cases middle with
    | nil => exact (hrest '/' (by rw [hrest']; rfl)).2 rfl
    | cons c middle =>
        have hc := (hrest c (by rw [hrest']; rfl)).1
        exact Bool.noConfusion (hc.symm.trans (List.all_eq_true.mp hnames c (by simp)))
  · cases middle with
    | nil => exact (hrest '/' (by rw [List.nil_append] at htail; rw [← htail]; rfl)).2 rfl
    | cons c middle =>
        obtain ⟨rfl, -⟩ := List.cons.inj htail
        exact hslash (by simp)

theorem IsApart.regexOpening?_eq {chars rest : List Char} (h : IsApart rest)
    (hslash : '/' ∉ chars) : regexOpening? (chars ++ rest) = none := by
  refine regexOpening?_eq_of_ends (fun c hc => ?_) hslash
  rcases h with rfl | ⟨more, rfl⟩
  · exact nomatch hc
  · obtain rfl := Option.some.inj hc
    decide

theorem LexesBefore.leadingLexeme_eq {chars rest : List Char} {kind : Kind}
    (h : LexesBefore rest chars kind) (lineStart : Bool) {afterMatch : Bool}
    (hregex : afterMatch = true → regexOpening? (chars ++ rest) = none) :
    leadingLexeme lineStart afterMatch (chars ++ rest) = ⟨kind, chars.length⟩ := by
  have hnone : (if afterMatch then regexOpening? (chars ++ rest) else none) = none := by
    split_ifs with hafter
    · exact hregex hafter
    · rfl
  rw [leadingLexeme, h.opensComment_eq, hnone]
  exact h.plainLexeme_eq lineStart

/-- Each plain token has a spelling that is read as the token. -/
theorem Kind.IsPlain.exists_lexes {kind : Kind} (h : kind.IsPlain) :
    ∃ chars, kind.spelling? = some chars ∧ Lexes chars kind ∧
      (kind.beginsWithSlash = false → '/' ∉ chars) := by
  have hname : ∀ name : List Char, isName name = true → '/' ∉ name := fun name h hmem =>
    absurd (isNameChar_of_mem h _ hmem) (by decide)
  cases kind with
  | identifier name =>
      have hlexes := lexes_name h.1
      rw [String.ofList_toList, h.2] at hlexes
      exact ⟨_, rfl, hlexes, fun _ => hname _ h.1⟩
  | keyword word =>
      have hlexes := lexes_name (isName_keyword word)
      rw [String.ofList_toList, ofWord?_spelling] at hlexes
      exact ⟨_, rfl, hlexes, fun _ => hname _ (isName_keyword word)⟩
  | integer value =>
      refine ⟨_, rfl, lexes_integer h, fun _ hmem => ?_⟩
      exact absurd (isDigit_of_mem_toDigits _ hmem) (by decide)
  | symbol mark =>
      refine ⟨_, rfl, lexes_symbol mark, ?_⟩
      cases mark <;> decide
  | _ => exact h.elim

namespace Reader

section Next

variable {r : Reader} {gap chars rest : List Char} {kind : Kind} (hgap : IsGap gap (chars ++ rest))
  (htext : r.cursor.rest = gap ++ (chars ++ rest)) (hpiece : pieceLength (chars ++ rest) = 0)
include hgap htext hpiece

/-- A token stands behind the gap before it. -/
theorem gapEnd_of_gap : r.gapEnd = r.cursor.skip gap.length ∧ r.gapEnd.rest = chars ++ rest := by
  have hend : r.gapEnd = r.cursor.skip gap.length := by
    rw [gapEnd, htext, hgap.gapLength_eq hpiece]
  refine ⟨hend, ?_⟩
  rw [hend, Cursor.rest_skip, htext, List.drop_left]

variable (hlexeme : ∀ newline, leadingLexeme (r.fresh || newline) r.afterMatch (chars ++ rest)
  = ⟨kind, chars.length⟩)
include hlexeme

theorem lexeme_of_gap : r.lexeme = ⟨kind, chars.length⟩ := by
  rw [lexeme, (gapEnd_of_gap hgap htext hpiece).2]
  exact hlexeme _

/-- The next token is read from its characters, and reading goes on with what follows. -/
theorem next_of_gap : r.next.1.kind = kind ∧ r.next.2.cursor.rest = rest ∧
    r.next.2.afterMatch = kind.isMatch := by
  have hread := lexeme_of_gap hgap htext hpiece hlexeme
  refine ⟨?_, ?_, ?_⟩
  · rw [next_kind, hread]
  · rw [next_cursor, Cursor.rest_skip, (gapEnd_of_gap hgap htext hpiece).2, hread, List.drop_left]
  · rw [next_eq]
    dsimp only
    rw [hread, Kind.isMatch]

end Next

end Reader

theorem written_cons {kind : Kind} {chars : List Char} (h : kind.spelling? = some chars)
    (kinds : List Kind) : ∃ rest, written (kind :: kinds) = chars ++ rest ∧ IsApart rest ∧
      (rest = written kinds ∨ rest = [' '] ++ written kinds) := by
  rw [written, List.filterMap_cons_some h, written]
  cases hrest : kinds.filterMap Kind.spelling? with
  | nil => exact ⟨[], rfl, Or.inl rfl, Or.inl rfl⟩
  | cons next rest =>
      refine ⟨' ' :: [' '].intercalate (next :: rest), ?_, Or.inr ⟨_, rfl⟩, Or.inr rfl⟩
      rfl

theorem Kind.IsPlain.ne_eof {kind : Kind} (h : kind.IsPlain) : kind ≠ .eof := by
  rintro rfl
  exact h

/-- The kinds of the tokens that are read from a text of plain ones. -/
theorem Reader.kinds_stream {kinds : List Kind} (hplain : ∀ kind ∈ kinds, kind.IsPlain)
    (hchain : kinds.IsChain fun k l => k.isMatch = true → l.beginsWithSlash = false) {r : Reader}
    {gap : List Char} (hgap : gap = [] ∨ gap = [' ']) (htext : r.cursor.rest = gap ++ written kinds)
    (hslash : ∀ kind ∈ kinds.head?, r.afterMatch = true → kind.beginsWithSlash = false) :
    r.stream.tokens.map Token.kind = kinds := by
  induction kinds generalizing r gap with
  | nil =>
      have hend : r.next.1.isEof = true := by
        rw [isEof_next_iff, gapEnd, Cursor.rest_skip, htext]
        rcases hgap with rfl | rfl <;> rfl
      rw [stream_of_isEof hend]
      rfl
  | cons kind kinds ih =>
      obtain ⟨chars, hspelling, hlexes, hchars⟩ := (hplain kind List.mem_cons_self).exists_lexes
      obtain ⟨rest, hwritten, hapart, hrest⟩ := written_cons hspelling kinds
      rw [hwritten] at htext
      have hbefore := hlexes.before hapart
      obtain ⟨hkind, hafter, hmatch⟩ := next_of_gap (isGap_of_blank hgap _) htext
        hbefore.pieceLength_eq fun newline => hbefore.leadingLexeme_eq _ fun h =>
          hapart.regexOpening?_eq (hchars (hslash kind rfl h))
      have hnot : r.next.1.isEof = false := by
        rw [isEof, hkind, beq_eq_false_iff_ne]
        exact (hplain kind List.mem_cons_self).ne_eof
      obtain ⟨hnext, hchain⟩ := List.isChain_cons.mp hchain
      rw [stream_of_not_isEof hnot, List.map_cons, hkind]
      congr 1
      have hplain' : ∀ k ∈ kinds, k.IsPlain := fun k hmem => hplain k (List.mem_cons_of_mem _ hmem)
      have hslash' : ∀ k ∈ kinds.head?, r.next.2.afterMatch = true → k.beginsWithSlash = false :=
        fun k hmem h => hnext k hmem (hmatch ▸ h)
      rcases hrest with hrest | hrest
      · exact ih hplain' hchain (Or.inl rfl) (hafter.trans hrest) hslash'
      · exact ih hplain' hchain (Or.inr rfl) (hafter.trans hrest) hslash'

/-- Plain tokens that are written with blanks between them are read back. Behind a match operator
there must be none that begins with a slash, where a regular expression would begin. -/
theorem Stream.kinds_ofText_written {kinds : List Kind} (hplain : ∀ kind ∈ kinds, kind.IsPlain)
    (hchain : kinds.IsChain fun k l => k.isMatch = true → l.beginsWithSlash = false)
    (line : Nat) : (ofText (written kinds) line).tokens.map Token.kind = kinds :=
  Reader.kinds_stream hplain hchain (Or.inl rfl) rfl fun _ _ h => Bool.noConfusion h

example : written [.identifier "a", .symbol .plus, .integer 12] = ['a', ' ', '+', ' ', '1', '2'] :=
  by decide

end QoreSyntax.Token

import Mathlib.Tactic.Common
import QoreSyntax.Token.Lexeme.Leading

namespace QoreSyntax.Token

theorem ne_of_holds {α : Type} {p : α → Bool} {a b : α} (ha : p a = true) (hb : p b = false) :
    a ≠ b := by
  rintro rfl
  exact Bool.noConfusion (ha.symm.trans hb)

/-- The lexeme takes a character and is neither the end marker nor a symbol. -/
structure Lexeme.IsProper (lexeme : Lexeme) : Prop where
  length_pos : 0 < lexeme.length
  kind_ne_eof : lexeme.kind ≠ .eof
  kind_ne_symbol : ∀ symbol, lexeme.kind ≠ .symbol symbol

theorem unterminated_isProper (enclosure : Enclosure) (escapes : Bool) {opening : Nat}
    (hopening : 0 < opening) (rest : List Char) :
    (unterminated enclosure escapes opening rest).IsProper := by
  refine ⟨?_, by simp [unterminated], by simp [unterminated]⟩
  simp only [unterminated]
  omega

/-- The kinds of the literals between two marks that are equal. -/
inductive Kind.IsQuoted : Kind → Prop where
  | string (value : String) : IsQuoted (.string value)
  | backquote (text : String) : IsQuoted (.backquote text)
  | unterminated (enclosure : Enclosure) : IsQuoted (.invalid (.unterminated enclosure))

theorem doubleQuoted_isQuoted (rest : List Char) : (doubleQuoted rest).kind.IsQuoted := by
  rw [doubleQuoted]
  split
  · exact .unterminated _
  · exact .string _

theorem singleQuoted_isQuoted (rest : List Char) : (singleQuoted rest).kind.IsQuoted := by
  rw [singleQuoted]
  split
  · exact .unterminated _
  · exact .string _

theorem backquoted_isQuoted (rest : List Char) : (backquoted rest).kind.IsQuoted := by
  rw [backquoted]
  split
  · exact .unterminated _
  · exact .backquote _

theorem doubleQuoted_isProper (rest : List Char) : (doubleQuoted rest).IsProper := by
  rw [doubleQuoted]
  split
  · exact unterminated_isProper _ _ Nat.one_pos _
  · exact ⟨by simp, by simp, by simp⟩

theorem singleQuoted_isProper (rest : List Char) : (singleQuoted rest).IsProper := by
  rw [singleQuoted]
  split
  · exact unterminated_isProper _ _ Nat.one_pos _
  · exact ⟨by simp, by simp, by simp⟩

theorem backquoted_isProper (rest : List Char) : (backquoted rest).IsProper := by
  rw [backquoted]
  split
  · exact unterminated_isProper _ _ Nat.one_pos _
  · exact ⟨by simp, by simp, by simp⟩

theorem opening_pos_of_regexOpening? {text : List Char} {purpose : Regex.Purpose} {opening : Nat}
    (h : regexOpening? text = some (purpose, opening)) : 0 < opening := by
  rw [regexOpening?.eq_def] at h
  split at h <;> simp_all <;> omega

theorem regexLiteral_isProper (purpose : Regex.Purpose) {opening : Nat} (hopening : 0 < opening)
    (rest : List Char) : (regexLiteral purpose opening rest).IsProper := by
  simp only [regexLiteral]
  split
  · exact unterminated_isProper _ _ hopening _
  · split_ifs
    · split
      · exact unterminated_isProper _ _ hopening _
      · refine ⟨?_, by simp, by simp⟩
        simp only
        omega
    · refine ⟨?_, by simp, by simp⟩
      simp only
      omega

/-- The kinds of the literals that begin with a digit. -/
inductive Kind.IsNumeral : Kind → Prop where
  | integer (value : Nat) : IsNumeral (.integer value)
  | float (value : Binary64) : IsNumeral (.float value)
  | number (text : String) : IsNumeral (.number text)
  | date (text : String) : IsNumeral (.date text)
  | integerRange (text : String) : IsNumeral (.invalid (.integerRange text))
  | missingDigits : IsNumeral (.invalid .missingDigits)

theorem integerKind_isNumeral (value : Nat) (spelling : List Char) :
    (integerKind value spelling).IsNumeral := by
  rw [integerKind]
  split_ifs
  · exact .integer value
  · exact .integerRange _

theorem hexadecimal_isNumeral (rest : List Char) : (hexadecimal rest).kind.IsNumeral := by
  rw [hexadecimal]
  split_ifs
  · exact .missingDigits
  · exact integerKind_isNumeral _ _

theorem decimal_isNumeral (text : List Char) : (decimal text).kind.IsNumeral := by
  simp only [decimal]
  split
  · exact .number _
  · split
    · split
      · exact .date _
      · exact integerKind_isNumeral _ _
    · exact .float _

theorem numeral_isNumeral (text : List Char) : (numeral text).kind.IsNumeral := by
  simp only [numeral]
  split_ifs
  · exact hexadecimal_isNumeral _
  · exact .date _
  · exact decimal_isNumeral text

theorem leadingDigits_length_pos {c : Char} (hc : c.isDigit = true) (cs : List Char) :
    0 < (leadingDigits (c :: cs)).length := by
  simp [leadingDigits, hc]

theorem leadingDigits_le_decimal (text : List Char) :
    (leadingDigits text).length ≤ (decimal text).length := by
  simp only [decimal]
  split
  · dsimp only
    omega
  · split
    · split
      · dsimp only
        omega
      · dsimp only
        omega
    · dsimp only
      omega

theorem two_le_hexadecimal (rest : List Char) : 2 ≤ (hexadecimal rest).length := by
  rw [hexadecimal]
  split_ifs
  · exact Nat.le_refl 2
  · exact Nat.le_add_right _ _

theorem numeral_length_pos {c : Char} (hc : c.isDigit = true) (cs : List Char) :
    0 < (numeral (c :: cs)).length := by
  simp only [numeral]
  split_ifs
  · exact Nat.lt_of_lt_of_le Nat.two_pos (two_le_hexadecimal _)
  · simp only [absoluteDate]
    omega
  · exact Nat.lt_of_lt_of_le (leadingDigits_length_pos hc cs) (leadingDigits_le_decimal _)

theorem numeral_isProper {c : Char} (hc : c.isDigit = true) (cs : List Char) :
    (numeral (c :: cs)).IsProper where
  length_pos := numeral_length_pos hc cs
  kind_ne_eof hkind := by
    have hnumeral := numeral_isNumeral (c :: cs)
    rw [hkind] at hnumeral
    cases hnumeral
  kind_ne_symbol symbol hkind := by
    have hnumeral := numeral_isNumeral (c :: cs)
    rw [hkind] at hnumeral
    cases hnumeral

theorem isNameChar_of_beginsName {c : Char} (hc : beginsName c = true) : isNameChar c = true := by
  simp only [beginsName, isNameChar, Bool.or_eq_true] at hc ⊢
  tauto

theorem leadingName_length_pos {c : Char} (hc : beginsName c = true) (cs : List Char) :
    0 < (leadingName (c :: cs)).length := by
  rw [leadingName, List.takeWhile_cons_of_pos (isNameChar_of_beginsName hc)]
  exact Nat.succ_pos _

theorem word_isProper {c : Char} (hc : beginsName c = true) (cs : List Char) :
    (word (c :: cs)).IsProper := by
  have hpos := leadingName_length_pos hc cs
  rw [word]
  split
  · exact ⟨hpos, by simp, by simp⟩
  · exact ⟨hpos, by simp, by simp⟩

/-- The kinds of the forms with a dollar sign. -/
inductive Kind.IsDollarForm : Kind → Prop where
  | implicitIndex : IsDollarForm .implicitIndex
  | implicitArg (index : Nat) : IsDollarForm (.implicitArg index)
  | selfMember (name : String) : IsDollarForm (.selfMember name)
  | variable (name : String) : IsDollarForm (.variable name)
  | missingVariable : IsDollarForm (.invalid .missingVariable)

theorem dollarForm_isDollarForm (rest : List Char) : (dollarForm rest).kind.IsDollarForm := by
  rw [dollarForm.eq_def]
  split
  · exact .missingVariable
  · split_ifs
    · exact .implicitIndex
    · exact .implicitArg _
    · exact .selfMember _
    · exact .variable _
    · exact .missingVariable

theorem dollarForm_isProper (rest : List Char) : (dollarForm rest).IsProper where
  length_pos := by
    rw [dollarForm.eq_def]
    split
    · exact Nat.one_pos
    · split_ifs <;> dsimp only <;> omega
  kind_ne_eof hkind := by
    have hform := dollarForm_isDollarForm rest
    rw [hkind] at hform
    cases hform
  kind_ne_symbol symbol hkind := by
    have hform := dollarForm_isDollarForm rest
    rw [hkind] at hform
    cases hform

theorem directive_isProper (rest : List Char) : (directive rest).IsProper := by
  refine ⟨?_, by simp [directive], by simp [directive]⟩
  simp only [directive]
  omega

theorem unexpected_isProper (c : Char) (cs : List Char) : (unexpected (c :: cs)).IsProper := by
  rw [unexpected]
  refine ⟨?_, by simp, by simp⟩
  simp only
  split_ifs with hempty
  · simp
  · exact List.length_pos_iff.mpr (by simpa using hempty)

theorem isPrefixOf_of_leading? {text : List Char} {symbol : Symbol}
    (h : Symbol.leading? text = some symbol) : symbol.characters <+: text := by
  have hbegins : symbol.characters.isPrefixOf text = true :=
    List.find?_some (p := fun other : Symbol => other.characters.isPrefixOf text) h
  exact List.isPrefixOf_iff_prefix.mp hbegins

theorem ne_of_beginsName {c d : Char} (hc : beginsName c = true) (hd : beginsName d = false) :
    (c == d) = false :=
  beq_eq_false_iff_ne.mpr (ne_of_holds hc hd)

theorem isDigit_of_beginsName {c : Char} (hc : beginsName c = true) : c.isDigit = false := by
  rw [Bool.eq_false_iff]
  intro hdigit
  simp only [Char.isDigit, Bool.and_eq_true, decide_eq_true_eq, ge_iff_le,
    UInt32.le_iff_toNat_le] at hdigit
  have hascii : c.toNat < 0x80 := Nat.lt_of_le_of_lt hdigit.2 (by decide)
  rw [beginsName, Text.isAlphabetic, if_pos hascii] at hc
  change (decide (c.val ≥ 65 ∧ c.val ≤ 90) || (decide (c.val ≥ 97) && decide (c.val ≤ 122))
    || c == '_') = true at hc
  simp only [Bool.or_eq_true, Bool.and_eq_true, decide_eq_true_eq, beq_iff_eq, ge_iff_le,
    UInt32.le_iff_toNat_le] at hc
  rcases hc with hc | rfl
  · change 48 ≤ c.toNat ∧ c.toNat ≤ 57 at hdigit
    change (65 ≤ c.toNat ∧ c.toNat ≤ 90) ∨ (97 ≤ c.toNat ∧ c.toNat ≤ 122) at hc
    omega
  · exact absurd hdigit (by decide)

theorem opensDirective_of_ne {c : Char} (hc : (c == '%') = false) (cs : List Char) :
    opensDirective (c :: cs) = false := by
  rw [opensDirective.eq_def]
  split
  · rename_i htext
    rw [(List.cons.inj htext).1] at hc
    cases hc
  · rfl

/-- What begins like a name is read as a word. -/
theorem plainLexeme_of_beginsName {c : Char} (hc : beginsName c = true) (lineStart : Bool)
    (cs : List Char) : plainLexeme lineStart (c :: cs) = word (c :: cs) := by
  have hne : ∀ d, beginsName d = false → (c == d) = false := fun d => ne_of_beginsName hc
  rw [plainLexeme, hne _ (by decide), hne _ (by decide), hne _ (by decide), hne _ (by decide),
    opensDirective_of_ne (hne _ (by decide)), isDigit_of_beginsName hc, hc]
  simp

theorem ne_of_isDigit {c d : Char} (hc : c.isDigit = true) (hd : d.isDigit = false) :
    (c == d) = false :=
  beq_eq_false_iff_ne.mpr (ne_of_holds hc hd)

theorem plainLexeme_of_isDigit {c : Char} (hc : c.isDigit = true) (lineStart : Bool)
    (cs : List Char) : plainLexeme lineStart (c :: cs) = numeral (c :: cs) := by
  have hne : ∀ d, d.isDigit = false → (c == d) = false := fun d => ne_of_isDigit hc
  rw [plainLexeme, hne _ (by decide), hne _ (by decide), hne _ (by decide), hne _ (by decide),
    opensDirective_of_ne (hne _ (by decide)), hc]
  simp

/-- What is read where neither a literal nor a name begins: a directive or a symbol, or characters
that begin no token. -/
def markLexeme (lineStart : Bool) (text : List Char) : Lexeme :=
  if lineStart && opensDirective text then directive (text.drop 1)
  else
    match Symbol.leading? text with
    | some symbol => ⟨.symbol symbol, symbol.characters.length⟩
    | none => unexpected text

/-- Where the character is the first one, `read` tells the token. -/
inductive ReadBy : (c : Char) → (read : Bool → List Char → Lexeme) → Prop where
  | doubleQuoted : ReadBy '"' fun _ text => doubleQuoted (text.drop 1)
  | singleQuoted : ReadBy '\'' fun _ text => singleQuoted (text.drop 1)
  | backquoted : ReadBy '\x60' fun _ text => backquoted (text.drop 1)
  | dollarForm : ReadBy '$' fun _ text => dollarForm (text.drop 1)
  | numeral {c : Char} (hdigit : c.isDigit = true) : ReadBy c fun _ => numeral
  | word {c : Char} (hname : beginsName c = true) : ReadBy c fun _ => word
  | mark (c : Char) : ReadBy c markLexeme

theorem exists_readBy (c : Char) : ∃ read, ReadBy c read ∧
    ∀ lineStart cs, plainLexeme lineStart (c :: cs) = read lineStart (c :: cs) := by
  by_cases hdigit : c.isDigit
  · exact ⟨_, .numeral hdigit, plainLexeme_of_isDigit hdigit⟩
  by_cases hname : beginsName c
  · exact ⟨_, .word hname, plainLexeme_of_beginsName hname⟩
  by_cases hdouble : c = '"'
  · subst hdouble
    exact ⟨_, .doubleQuoted, fun _ _ => rfl⟩
  by_cases hsingle : c = '\''
  · subst hsingle
    exact ⟨_, .singleQuoted, fun _ _ => rfl⟩
  by_cases hback : c = '\x60'
  · subst hback
    exact ⟨_, .backquoted, fun _ _ => rfl⟩
  by_cases hdollar : c = '$'
  · subst hdollar
    exact ⟨_, .dollarForm, fun _ _ => rfl⟩
  refine ⟨_, .mark c, fun lineStart cs => ?_⟩
  simp only [plainLexeme, beq_eq_false_iff_ne.mpr hdouble, beq_eq_false_iff_ne.mpr hsingle,
    beq_eq_false_iff_ne.mpr hback, beq_eq_false_iff_ne.mpr hdollar, hdigit, hname,
    Bool.false_eq_true, if_false]
  rfl

/-- What the token of a text that is not empty is: a symbol with which the text begins, or another
token with a character. -/
theorem plainLexeme_cases (lineStart : Bool) (c : Char) (cs : List Char) :
    (plainLexeme lineStart (c :: cs)).IsProper ∨ ∃ symbol : Symbol,
      symbol.characters <+: c :: cs ∧
        plainLexeme lineStart (c :: cs) = ⟨.symbol symbol, symbol.characters.length⟩ := by
  obtain ⟨read, hread, htext⟩ := exists_readBy c
  rw [htext]
  cases hread with
  | doubleQuoted => exact Or.inl (doubleQuoted_isProper cs)
  | singleQuoted => exact Or.inl (singleQuoted_isProper cs)
  | backquoted => exact Or.inl (backquoted_isProper cs)
  | dollarForm => exact Or.inl (dollarForm_isProper cs)
  | numeral hdigit => exact Or.inl (numeral_isProper hdigit cs)
  | word hname => exact Or.inl (word_isProper hname cs)
  | mark =>
      rw [markLexeme]
      split_ifs
      · exact Or.inl (directive_isProper cs)
      · split
        · rename_i symbol hsymbol
          exact Or.inr ⟨symbol, isPrefixOf_of_leading? hsymbol, rfl⟩
        · exact Or.inl (unexpected_isProper c cs)

theorem leadingLexeme_cases (lineStart afterMatch : Bool) (c : Char) (cs : List Char) :
    (leadingLexeme lineStart afterMatch (c :: cs)).IsProper ∨ ∃ symbol : Symbol,
      symbol.characters <+: c :: cs ∧ leadingLexeme lineStart afterMatch (c :: cs) =
        ⟨.symbol symbol, symbol.characters.length⟩ := by
  rw [leadingLexeme]
  split_ifs with hcomment hafter
  · exact Or.inl (unterminated_isProper _ _ Nat.two_pos _)
  · split
    · rename_i hopening
      exact Or.inl (regexLiteral_isProper _ (opening_pos_of_regexOpening? hopening) _)
    · exact plainLexeme_cases lineStart c cs
  · exact plainLexeme_cases lineStart c cs

theorem leadingLexeme_nil (lineStart afterMatch : Bool) :
    leadingLexeme lineStart afterMatch [] = ⟨.eof, 0⟩ := by
  cases afterMatch <;> rfl

theorem Symbol.characters_length_pos (symbol : Symbol) : 0 < symbol.characters.length := by
  cases symbol <;> decide

theorem leadingLexeme_length_pos (lineStart afterMatch : Bool) {text : List Char}
    (h : text ≠ []) : 0 < (leadingLexeme lineStart afterMatch text).length := by
  obtain ⟨c, cs, rfl⟩ := List.exists_cons_of_ne_nil h
  rcases leadingLexeme_cases lineStart afterMatch c cs with hproper | ⟨symbol, _, hsymbol⟩
  · exact hproper.length_pos
  · rw [hsymbol]
    exact Symbol.characters_length_pos symbol

theorem leadingLexeme_kind_eq_eof_iff (lineStart afterMatch : Bool) (text : List Char) :
    (leadingLexeme lineStart afterMatch text).kind = .eof ↔ text = [] := by
  constructor
  · intro h
    by_contra hne
    obtain ⟨c, cs, rfl⟩ := List.exists_cons_of_ne_nil hne
    rcases leadingLexeme_cases lineStart afterMatch c cs with hproper | ⟨symbol, _, hsymbol⟩
    · exact hproper.kind_ne_eof h
    · simp [hsymbol] at h
  · rintro rfl
    rw [leadingLexeme_nil]

theorem leadingLexeme_of_symbol {lineStart afterMatch : Bool} {text : List Char} {symbol : Symbol}
    (h : (leadingLexeme lineStart afterMatch text).kind = .symbol symbol) :
    symbol.characters <+: text ∧
      (leadingLexeme lineStart afterMatch text).length = symbol.characters.length := by
  cases text with
  | nil => simp [leadingLexeme_nil] at h
  | cons c cs =>
      rcases leadingLexeme_cases lineStart afterMatch c cs with hproper | ⟨other, hbegins, hother⟩
      · exact absurd h (hproper.kind_ne_symbol symbol)
      · obtain rfl : other = symbol := by simpa [hother] using h
        exact ⟨hbegins, by rw [hother]⟩

end QoreSyntax.Token

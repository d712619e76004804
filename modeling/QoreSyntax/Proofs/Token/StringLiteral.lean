import Mathlib.Data.List.Forall2
import QoreSyntax.Proofs.Token.Closing
import QoreSyntax.Proofs.Token.Succession

namespace QoreSyntax.Token

/-- The letters that stand for other characters behind a backslash. -/
def mnemonics : List (Char × Char) :=
  [('n', '\n'), ('t', '\t'), ('r', '\r'), ('b', '\x08'), ('f', '\x0c'), ('v', '\x0b'),
   ('a', '\x07')]

/-- The hexadecimal digit of the value `n` in either case. -/
def hexDigits (n : Nat) : List Char :=
  [Nat.digitChar n, (Nat.digitChar n).toUpper]

/-- In double quotes the character may be written as `code`. -/
inductive Encodes : (c : Char) → (code : List Char) → Prop where
  | raw {c : Char} (hquote : c ≠ '"') (hbackslash : c ≠ '\\') : Encodes c [c]
  | marked {c : Char} (h : c ∈ ['\\', '"', '$']) : Encodes c ['\\', c]
  | mnemonic {letter c : Char} (h : (letter, c) ∈ mnemonics) : Encodes c ['\\', letter]
  | octal {c : Char} (h : c.toNat ≤ 0o777) :
      Encodes c ['\\', Nat.digitChar (c.toNat / 64), Nat.digitChar (c.toNat / 8 % 8),
        Nat.digitChar (c.toNat % 8)]
  | hexadecimal {c high low : Char} (h : c.toNat ≤ 0xff) (hhigh : high ∈ hexDigits (c.toNat / 16))
      (hlow : low ∈ hexDigits (c.toNat % 16)) : Encodes c ['\\', 'x', high, low]

/-- The character as it is written in single quotes. -/
def encodeSingle (c : Char) : List Char :=
  if c = '\'' ∨ c = '\\' then ['\\', c] else [c]

theorem octalDigit_cases {n : Nat} (h : n < 8) :
    isOctalDigit (Nat.digitChar n) = true ∧ mnemonic? (Nat.digitChar n) = none ∧
      digitValue (Nat.digitChar n) = n := by
  have hall : ∀ k < 8, isOctalDigit (Nat.digitChar k) = true ∧
      mnemonic? (Nat.digitChar k) = none ∧ digitValue (Nat.digitChar k) = k := by decide
  exact hall n h

theorem hexDigit_cases {n : Nat} (h : n < 16) {c : Char} (hc : c ∈ hexDigits n) :
    isHexDigit c = true ∧ digitValue c = n := by
  have hall : ∀ k < 16, ((hexDigits k).all fun d => isHexDigit d && digitValue d == k) = true := by
    decide
  simpa using List.all_eq_true.mp (hall n h) c hc

theorem escape_octal {a b c : Char} (hnone : mnemonic? a = none) (ha : isOctalDigit a = true)
    (hb : isOctalDigit b = true) (hc : isOctalDigit c = true) (rest : List Char) :
    escape (a :: b :: c :: rest) = ([Char.ofNat (numberOf 8 [a, b, c])], 3) := by
  simp [escape, hnone, ha, hb, hc]

theorem escape_hexadecimal {a b : Char} (ha : isHexDigit a = true) (hb : isHexDigit b = true)
    (rest : List Char) :
    escape ('x' :: a :: b :: rest) = ([Char.ofNat (numberOf 16 [a, b])], 3) := by
  have hx : isOctalDigit 'x' = false := by decide
  simp [escape, mnemonic?, hx, ha, hb]

theorem unescapeDouble_skip (chars rest : List Char) :
    unescapeDouble chars.length (chars ++ rest) = unescapeDouble 0 rest := by
  induction chars with
  | nil => rfl
  | cons c chars ih => exact ih

theorem unescapeDouble_escape {chars rest : List Char} {c : Char}
    (h : escape (chars ++ rest) = ([c], chars.length)) :
    unescapeDouble 0 ('\\' :: chars ++ rest) = c :: unescapeDouble 0 rest := by
  have hskip := unescapeDouble_skip chars rest
  rw [List.cons_append, unescapeDouble, if_pos (by rfl), h]
  exact congrArg ([c] ++ ·) hskip

namespace Encodes

variable {c : Char} {code : List Char}

/-- No way of writing a character closes the string. -/
theorem isPassedOver (h : Encodes c code) : IsPassedOver '"' code := by
  have hpair : ∀ d, IsPassedOver '"' ['\\', d] := IsPassedOver.pair (by decide)
  cases h with
  | raw hquote hbackslash => exact .plain hquote hbackslash
  | marked => exact hpair c
  | @mnemonic letter => exact hpair letter
  | octal h =>
      have hdigit : ∀ n < 8, IsPassedOver '"' [Nat.digitChar n] := by
        intro n hn
        have hoctal := (octalDigit_cases hn).1
        exact .plain (ne_of_holds hoctal (by decide)) (ne_of_holds hoctal (by decide))
      exact ((hpair _).append (hdigit (c.toNat / 8 % 8) (by omega))).append
        (hdigit (c.toNat % 8) (by omega))
  | hexadecimal h hhigh hlow =>
      have hdigit : ∀ {n d}, n < 16 → d ∈ hexDigits n → IsPassedOver '"' [d] := by
        intro n d hn hd
        have hhex := (hexDigit_cases hn hd).1
        exact .plain (ne_of_holds hhex (by decide)) (ne_of_holds hhex (by decide))
      exact ((hpair 'x').append (hdigit (by omega) hhigh)).append (hdigit (by omega) hlow)

/-- Each way of writing a character is read as the character, whatever follows. -/
theorem unescapeDouble_append (h : Encodes c code) (rest : List Char) :
    unescapeDouble 0 (code ++ rest) = c :: unescapeDouble 0 rest := by
  cases h with
  | raw hquote hbackslash =>
      have hnot : (c == '\\') = false := beq_eq_false_iff_ne.mpr hbackslash
      simp [unescapeDouble, hnot]
  | marked h =>
      apply unescapeDouble_escape
      simp only [List.mem_cons, List.not_mem_nil, or_false] at h
      rcases h with rfl | rfl | rfl <;> rfl
  | mnemonic h =>
      apply unescapeDouble_escape
      simp only [mnemonics, List.mem_cons, List.not_mem_nil, or_false, Prod.mk.injEq] at h
      rcases h with ⟨rfl, rfl⟩ | ⟨rfl, rfl⟩ | ⟨rfl, rfl⟩ | ⟨rfl, rfl⟩ | ⟨rfl, rfl⟩ | ⟨rfl, rfl⟩
        | ⟨rfl, rfl⟩ <;> rfl
  | octal h =>
      -- There are three digits already, so that a digit behind them is not taken along.
      apply unescapeDouble_escape
      obtain ⟨ha, hnone, hvalue⟩ := octalDigit_cases (n := c.toNat / 64) (by omega)
      obtain ⟨hb, -, hvalue'⟩ := octalDigit_cases (n := c.toNat / 8 % 8) (by omega)
      obtain ⟨hc, -, hvalue''⟩ := octalDigit_cases (n := c.toNat % 8) (by omega)
      have hnumber : numberOf 8 [Nat.digitChar (c.toNat / 64), Nat.digitChar (c.toNat / 8 % 8),
          Nat.digitChar (c.toNat % 8)] = c.toNat := by
        simp only [numberOf, List.foldl_cons, List.foldl_nil, hvalue, hvalue', hvalue'']
        omega
      have hread := escape_octal hnone ha hb hc rest
      rwa [hnumber, Char.ofNat_toNat] at hread
  | @hexadecimal _ high low h hhigh hlow =>
      apply unescapeDouble_escape
      obtain ⟨ha, hvalue⟩ := hexDigit_cases (n := c.toNat / 16) (by omega) hhigh
      obtain ⟨hb, hvalue'⟩ := hexDigit_cases (n := c.toNat % 16) (by omega) hlow
      have hnumber : numberOf 16 [high, low] = c.toNat := by
        simp only [numberOf, List.foldl_cons, List.foldl_nil, hvalue, hvalue']
        omega
      have hread := escape_hexadecimal ha hb rest
      rwa [hnumber, Char.ofNat_toNat] at hread

end Encodes

theorem isPassedOver_encodeSingle (c : Char) : IsPassedOver '\'' (encodeSingle c) := by
  rw [encodeSingle]
  split_ifs with hmark
  · exact .pair (by decide) c
  · rw [not_or] at hmark
    exact .plain hmark.1 hmark.2

theorem unescapeSingle_append (c : Char) (rest : List Char) :
    unescapeSingle (encodeSingle c ++ rest) = c :: unescapeSingle rest := by
  rw [encodeSingle]
  split_ifs with hmark
  · have hpair : (c == '\'' || c == '\\') = true := by
      simpa only [Bool.or_eq_true, beq_iff_eq] using hmark
    simp only [List.cons_append, List.nil_append, unescapeSingle, BEq.rfl, hpair, if_true]
  · have hnot : (c == '\\') = false := beq_eq_false_iff_ne.mpr (not_or.mp hmark).2
    rw [List.singleton_append, unescapeSingle.eq_def]
    simp only [hnot, Bool.false_eq_true, if_false]

section Strings

variable {s : List Char} {codes : List (List Char)}

theorem isPassedOver_flatten (h : List.Forall₂ Encodes s codes) :
    IsPassedOver '"' codes.flatten := by
  apply IsPassedOver.flatten
  induction h with
  | nil => simp
  | cons hcode _ ih => exact List.forall_mem_cons.mpr ⟨hcode.isPassedOver, ih⟩

theorem unescapeDouble_flatten (h : List.Forall₂ Encodes s codes) :
    unescapeDouble 0 codes.flatten = s := by
  induction h with
  | nil => rfl
  | cons hcode _ ih => rw [List.flatten_cons, hcode.unescapeDouble_append, ih]

theorem doubleQuoted_flatten (h : List.Forall₂ Encodes s codes) :
    doubleQuoted (codes.flatten ++ ['"']) =
      ⟨.string (String.ofList s), codes.flatten.length + 2⟩ := by
  have hclosing := (isPassedOver_flatten h).closing?_eq []
  rw [doubleQuoted, hclosing]
  simp only [List.take_left, unescapeDouble_flatten h]

end Strings

theorem unescapeSingle_flatMap (s : List Char) : unescapeSingle (s.flatMap encodeSingle) = s := by
  induction s with
  | nil => rfl
  | cons c s ih => rw [List.flatMap_cons, unescapeSingle_append, ih]

theorem singleQuoted_flatMap (s : List Char) : singleQuoted (s.flatMap encodeSingle ++ ['\'']) =
    ⟨.string (String.ofList s), (s.flatMap encodeSingle).length + 2⟩ := by
  have hpassed : IsPassedOver '\'' (s.flatMap encodeSingle) := by
    rw [List.flatMap_def]
    exact IsPassedOver.flatten (List.forall_mem_map.mpr fun c _ => isPassedOver_encodeSingle c)
  rw [singleQuoted, hpassed.closing?_eq []]
  simp only [List.take_left, unescapeSingle_flatMap]

/-- Every string can be written in double quotes and in single quotes, and is read back as the only
token. In double quotes each of its characters may be written in any of the ways that there are for
it; in single quotes only a single quote and a backslash have a backslash before them. -/
theorem strings_are_read_back (s : String) (line : Nat) :
    (∀ codes, List.Forall₂ Encodes s.toList codes →
      (Stream.ofText ('"' :: (codes.flatten ++ ['"'])) line).toList.map Token.kind
        = [.string s, .eof]) ∧
      (Stream.ofText ('\'' :: (s.toList.flatMap encodeSingle ++ ['\''])) line).toList.map Token.kind
        = [.string s, .eof] := by
  constructor
  · intro codes hcodes
    have hread := doubleQuoted_flatten hcodes
    rw [String.ofList_toList] at hread
    have hlexeme : leadingLexeme true false ('"' :: (codes.flatten ++ ['"'])) = _ := hread
    refine Stream.kinds_ofText_of_lexeme rfl (by simp) hlexeme ?_ line
    rw [List.length_cons, List.length_append, List.length_singleton]
  · have hread := singleQuoted_flatMap s.toList
    rw [String.ofList_toList] at hread
    have hlexeme : leadingLexeme true false ('\'' :: (s.toList.flatMap encodeSingle ++ ['\'']))
        = _ := hread
    refine Stream.kinds_ofText_of_lexeme rfl (by simp) hlexeme ?_ line
    rw [List.length_cons, List.length_append, List.length_singleton]

/-- An octal escape before a digit, an escaped quote, a raw NUL and a hexadecimal escape with a
capital digit before a letter that is a digit as well. -/
theorem strings_are_read_back_mixed :
    let s := String.ofList ['S', '7', '"', '\x00', 'J', 'a']
    let codes := [['\\', '1', '2', '3'], ['7'], ['\\', '"'], ['\x00'], ['\\', 'x', '4', 'A'], ['a']]
    List.Forall₂ Encodes s.toList codes ∧
      (Stream.ofText ('"' :: (codes.flatten ++ ['"'])) 1).toList.map Token.kind
        = [.string s, .eof] := by
  intro s codes
  have hcodes : List.Forall₂ Encodes s.toList codes := by
    rw [String.toList_ofList]
    refine .cons (.octal (by decide)) (.cons (.raw (by decide) (by decide)) (.cons ?_ ?_))
    · exact .marked (by decide)
    · refine .cons (.raw (by decide) (by decide)) (.cons ?_ ?_)
      · exact .hexadecimal (by decide) (by decide) (by decide)
      · exact .cons (.raw (by decide) (by decide)) .nil
  exact ⟨hcodes, (strings_are_read_back s 1).1 codes hcodes⟩

end QoreSyntax.Token

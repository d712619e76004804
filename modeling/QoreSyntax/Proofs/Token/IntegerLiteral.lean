import Mathlib.Data.Nat.Digits.Defs
import QoreSyntax.Proofs.Token.StringLiteral
import QoreSyntax.Proofs.Token.Tiling

namespace QoreSyntax.Token

/-- The characters write the number: they are its digits in the base, the one of the greatest weight
first, perhaps behind zeros, with letters of either case. -/
def Writes (base value : Nat) (chars : List Char) : Prop :=
  ∃ digits : List Nat, value = Nat.ofDigits base digits.reverse ∧
    List.Forall₂ (fun c n => n < base ∧ c ∈ hexDigits n) chars digits

/-- The text is one token of the kind, and there is nothing else but the end marker. -/
def IsOneToken (text : List Char) (line : Nat) (kind : Kind) : Prop :=
  ∃ t last, (Stream.ofText text line).toList = [t, last] ∧ t.kind = kind ∧
    t.span.Cuts text text [] ∧ last.isEof = true

theorem toNat_lt_of_isHexDigit {c : Char} (hc : isHexDigit c = true) : c.toNat < 128 := by
  simp only [isHexDigit, Char.isDigit, Bool.or_eq_true, Bool.and_eq_true, decide_eq_true_eq,
    Char.le_def, UInt32.le_iff_toNat_le, ge_iff_le] at hc
  rcases hc with (⟨-, hle⟩ | ⟨-, hle⟩) | ⟨-, hle⟩
  · exact hle.trans_lt (by decide)
  · exact hle.trans_lt (by decide)
  · exact hle.trans_lt (by decide)

theorem mem_hexDigits {c : Char} (hc : isHexDigit c = true) : c ∈ hexDigits (digitValue c) := by
  have hall : ∀ n < 128, isHexDigit (Char.ofNat n) = true →
      (hexDigits (digitValue (Char.ofNat n))).contains (Char.ofNat n) = true := by
    decide
  have h := hall c.toNat (toNat_lt_of_isHexDigit hc)
  rw [Char.ofNat_toNat, List.contains_iff_mem] at h
  exact h hc

theorem isDigit_of_digitValue {c : Char} (h : digitValue c < 10) : c.isDigit = true := by
  rw [digitValue] at h
  split_ifs at h with hdigit
  · exact hdigit
  · omega
  · omega

theorem numberOf_eq_ofDigits (base : Nat) (chars : List Char) :
    numberOf base chars = Nat.ofDigits base (chars.map digitValue).reverse := by
  rw [numberOf, Nat.ofDigits_eq_foldr, List.foldr_reverse, List.foldl_map]
  apply List.foldl_ext
  intro value c _
  rw [Nat.cast_id, Nat.mul_comm, Nat.add_comm]

theorem eq_map_of_writes {base : Nat} (hbase : base ≤ 16) {chars : List Char} {digits : List Nat}
    (h : List.Forall₂ (fun c n => n < base ∧ c ∈ hexDigits n) chars digits) :
    digits = chars.map digitValue ∧
      ∀ c ∈ chars, isHexDigit c = true ∧ digitValue c < base := by
  induction h with
  | nil => simp
  | @cons c n chars digits hc _ ih =>
      obtain ⟨hdigit, hvalue⟩ := hexDigit_cases (hc.1.trans_le hbase) hc.2
      constructor
      · rw [List.map_cons, hvalue, ih.1]
      · exact List.forall_mem_cons.mpr ⟨⟨hdigit, hvalue ▸ hc.1⟩, ih.2⟩

/-- Characters write a number if they are digits in the base, and then they write one number. -/
theorem writes_iff {base : Nat} (hbase : base ≤ 16) {value : Nat} {chars : List Char} :
    Writes base value chars ↔
      (∀ c ∈ chars, isHexDigit c = true ∧ digitValue c < base) ∧ value = numberOf base chars := by
  constructor
  · rintro ⟨digits, rfl, hdigits⟩
    obtain ⟨rfl, hchars⟩ := eq_map_of_writes hbase hdigits
    exact ⟨hchars, (numberOf_eq_ofDigits base chars).symm⟩
  · rintro ⟨hchars, rfl⟩
    refine ⟨chars.map digitValue, numberOf_eq_ofDigits base chars, ?_⟩
    rw [List.forall₂_map_right_iff, List.forall₂_same]
    intro c hmem
    exact ⟨(hchars c hmem).2, mem_hexDigits (hchars c hmem).1⟩

/-- Reading the digits one by one, with no step beyond the greatest number, gives the number that
they write or the greatest one. -/
theorem implicitArgOf_eq (digits : List Char) :
    implicitArgOf digits = min (numberOf 10 digits) maxImplicitArg := by
  -- Whatever the digits before these have come to, the limit may as well be applied at the end.
  have hfold : ∀ value, digits.foldl
      (fun index c => min (min (index * 10) maxImplicitArg + digitValue c) maxImplicitArg)
        (min value maxImplicitArg)
      = min (digits.foldl (fun value c => value * 10 + digitValue c) value) maxImplicitArg := by
    induction digits with
    | nil => exact fun value => rfl
    | cons c digits ih =>
        intro value
        rw [List.foldl_cons, List.foldl_cons, ← ih]
        congr 1
        omega
  exact hfold 0

theorem isOneToken_of_lexeme {text : List Char} {kind : Kind} (hpiece : pieceLength text = 0)
    (hkind : kind ≠ .eof) (hlexeme : leadingLexeme true false text = ⟨kind, text.length⟩)
    (line : Nat) : IsOneToken text line kind := by
  have hkinds := Stream.kinds_ofText_of_lexeme hpiece hkind hlexeme le_rfl line
  obtain ⟨t, rest, hlist, ht, hrest⟩ := List.map_eq_cons_iff.mp hkinds
  obtain ⟨last, rfl, hlast⟩ := List.map_eq_singleton_iff.mp hrest
  refine ⟨t, last, hlist, ht, ?_, beq_iff_eq.mpr hlast⟩
  rw [Stream.ofText_eq_stream] at hlist
  obtain ⟨rfl, -⟩ := Reader.next_of_toList_eq_cons hlist
  obtain ⟨n, hgapEnd⟩ := (Reader.readsIn_ofText text line).gapEnd
  have hcuts := Cursor.cuts_skip text (max line 1) n text.length
  rw [← hgapEnd, Reader.gapEnd_ofText hpiece, List.take_length, List.drop_length] at hcuts
  rw [Reader.next_span, Reader.lexeme_ofText hpiece hlexeme]
  exact hcuts

theorem integerKind_ne_eof (value : Nat) (spelling : List Char) :
    integerKind value spelling ≠ .eof := by
  rw [integerKind]
  split_ifs <;> simp

theorem leadingLexeme_of_isDigit {c : Char} (hc : c.isDigit = true) (lineStart : Bool)
    (cs : List Char) : leadingLexeme lineStart false (c :: cs) = numeral (c :: cs) := by
  have hopens := opensComment_of_not_mem (not_mem_gapMarks_of_isDigit hc) cs
  rw [leadingLexeme, if_neg (Bool.eq_false_iff.mp hopens), ← plainLexeme_of_isDigit hc lineStart]
  rfl

theorem isOneToken_of_numeral {c : Char} (hc : c.isDigit = true) {cs spelling : List Char}
    {value : Nat} (h : numeral (c :: cs) = ⟨integerKind value spelling, (c :: cs).length⟩)
    (line : Nat) : IsOneToken (c :: cs) line (integerKind value spelling) := by
  apply isOneToken_of_lexeme
  · exact pieceLength_of_not_mem (not_mem_gapMarks_of_isDigit hc) cs
  · exact integerKind_ne_eof value spelling
  · rw [leadingLexeme_of_isDigit hc, h]

section Digits

variable {chars : List Char} (hne : chars ≠ []) (line : Nat)
include hne

theorem isOneToken_decimal (h : ∀ c ∈ chars, c.isDigit = true) :
    IsOneToken chars line (integerKind (numberOf 10 chars) chars) := by
  have hends : EndsNumber [] := fun _ hmem => nomatch hmem
  have hnumeral := hends.numeral_append h hne
  rw [List.append_nil] at hnumeral
  obtain ⟨c, cs, rfl⟩ := List.exists_cons_of_ne_nil hne
  exact isOneToken_of_numeral (h c List.mem_cons_self) hnumeral line

theorem isOneToken_hexadecimal (h : ∀ c ∈ chars, isHexDigit c = true) {x : Char}
    (hx : x ∈ ['x', 'X']) : IsOneToken ('0' :: x :: chars) line
      (integerKind (numberOf 16 chars) ('0' :: 'x' :: chars)) := by
  apply isOneToken_of_numeral rfl
  have hread : numeral ('0' :: x :: chars) = hexadecimal chars := by
    apply if_pos
    rcases List.mem_pair.mp hx with rfl | rfl
    · rfl
    · rfl
  rw [hread, hexadecimal, List.takeWhile_eq_self_iff.mpr h, if_neg (by simpa using hne)]
  simp
  omega

theorem isOneToken_implicitArg (h : ∀ c ∈ chars, c.isDigit = true) :
    IsOneToken ('$' :: chars) line (.implicitArg (min (numberOf 10 chars) maxImplicitArg)) := by
  have hread : leadingLexeme true false ('$' :: chars) = dollarForm chars := rfl
  apply isOneToken_of_lexeme rfl (by simp)
  obtain ⟨c, cs, rfl⟩ := List.exists_cons_of_ne_nil hne
  have hc : c.isDigit = true := h c List.mem_cons_self
  have hall : leadingDigits (c :: cs) = c :: cs := List.takeWhile_eq_self_iff.mpr h
  rw [hread, dollarForm, ne_of_isDigit hc (by decide), if_neg Bool.false_ne_true, if_pos hc, hall,
    ← implicitArgOf_eq]
  simp
  omega

end Digits

/-- A text of decimal digits, or of hexadecimal digits behind their mark, is one token, the integer
that they write if it is less than `2 ^ 63`, and else an integer that is out of range. Behind a
dollar sign decimal digits are an implicit argument, with a number of at most `2 ^ 32 - 1`. -/
theorem integers_are_read_up_to_limits {chars : List Char} (hne : chars ≠ []) (value line : Nat) :
    (Writes 10 value chars →
      IsOneToken chars line (if value < 2 ^ 63 then .integer value
        else .invalid (.integerRange (String.ofList chars))) ∧
      IsOneToken ('$' :: chars) line (.implicitArg (min value (2 ^ 32 - 1)))) ∧
    (Writes 16 value chars → ∀ x ∈ ['x', 'X'],
      IsOneToken ('0' :: x :: chars) line (if value < 2 ^ 63 then .integer value
        else .invalid (.integerRange (String.ofList ('0' :: 'x' :: chars))))) := by
  constructor
  · intro hwrites
    obtain ⟨hdigits, rfl⟩ := (writes_iff (by decide)).mp hwrites
    have hdecimal : ∀ c ∈ chars, c.isDigit = true := fun c hmem =>
      isDigit_of_digitValue (hdigits c hmem).2
    constructor
    · exact isOneToken_decimal hne line hdecimal
    · exact isOneToken_implicitArg hne line hdecimal
  · intro hwrites x hx
    obtain ⟨hdigits, rfl⟩ := (writes_iff le_rfl).mp hwrites
    exact isOneToken_hexadecimal hne line (fun c hmem => (hdigits c hmem).1) hx

/-- The least number that no integer holds, behind a zero. -/
theorem integers_are_read_up_to_limits_beyond :
    let chars := ['0', '9', '2', '2', '3', '3', '7', '2', '0', '3', '6', '8', '5', '4', '7', '7',
      '5', '8', '0', '8']
    chars ≠ [] ∧ Writes 10 (2 ^ 63) chars ∧
      IsOneToken chars 1 (.invalid (.integerRange "09223372036854775808")) ∧
      IsOneToken ('$' :: chars) 1 (.implicitArg 4294967295) := by
  intro chars
  have hne : chars ≠ [] := by decide
  have hdigits : chars.all fun c => isHexDigit c && decide (digitValue c < 10) := by decide
  have hwrites : Writes 10 (2 ^ 63) chars :=
    (writes_iff (by decide)).mpr ⟨by simpa using hdigits, by decide⟩
  refine ⟨hne, hwrites, ?_⟩
  exact (integers_are_read_up_to_limits hne (2 ^ 63) 1).1 hwrites

end QoreSyntax.Token

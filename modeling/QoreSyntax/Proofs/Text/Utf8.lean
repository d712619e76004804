import Mathlib.Tactic.Common
import QoreSyntax.Text.Utf8

namespace QoreSyntax.Text

theorem continuation?_two : ∀ k < 32, 2 ≤ k → continuation? (k + 192) = some (1, 0x80, 0xbf) := by
  decide

/-- Of three bytes the second one is restricted behind the least first byte, where fewer bytes are
enough, and where the surrogates are. -/
theorem continuation?_three : ∀ k < 16, continuation? (k + 224)
    = some (2, if k = 0 then 0xa0 else 0x80, if k = 13 then 0x9f else 0xbf) := by
  decide

/-- Of four bytes the second one is restricted behind the least first byte, where fewer bytes are
enough, and behind the greatest one. -/
theorem continuation?_four : ∀ k < 5, continuation? (k + 240)
    = some (3, if k = 0 then 0x90 else 0x80, if k = 4 then 0x8f else 0xbf) := by
  decide

theorem toNat_ofNat_of_lt {n : Nat} (h : n < 256) : (UInt8.ofNat n).toNat = n := by
  rw [UInt8.toNat_ofNat', Nat.mod_eq_of_lt h]

theorem leadingChar_of_continuation? {first count low high : Nat} (hlow : 0x80 ≤ first)
    (hhigh : first < 256) (h : continuation? first = some (count, low, high))
    (bytes : List UInt8) :
    leadingChar (UInt8.ofNat first) bytes
      = readSequence (leadingBits first count) 1 count low high bytes := by
  rw [leadingChar, toNat_ofNat_of_lt hhigh, if_neg (Nat.not_lt.mpr hlow), h]

/-- The next byte holds six bits of the number. -/
theorem readSequence_cons {value read count low high : Nat} (n : Nat) (bytes : List UInt8)
    (hlow : low ≤ n % 64 + 128) (hhigh : n % 64 + 128 ≤ high) :
    readSequence value read (count + 1) low high (UInt8.ofNat (n % 64 + 128) :: bytes)
      = readSequence (value * 64 + n % 64) (read + 1) count 0x80 0xbf bytes := by
  have hbyte : (UInt8.ofNat (n % 64 + 128)).toNat = n % 64 + 128 := toNat_ofNat_of_lt (by omega)
  have hbits : (n % 64 + 128) % 64 = n % 64 := by omega
  rw [readSequence, hbyte, if_pos ⟨hlow, hhigh⟩, hbits]

theorem leadingChar_one {n : Nat} (h : n < 0x80) (bytes : List UInt8) :
    leadingChar (UInt8.ofNat n) bytes = (Char.ofNat n, 1) := by
  rw [leadingChar, toNat_ofNat_of_lt (by omega), if_pos h]

theorem leadingChar_two {n : Nat} (hlow : 0x80 ≤ n) (hhigh : n < 0x800) (bytes : List UInt8) :
    leadingChar (UInt8.ofNat (n / 64 % 32 + 192)) (UInt8.ofNat (n % 64 + 128) :: bytes)
      = (Char.ofNat n, 2) := by
  have hfirst := continuation?_two (n / 64 % 32) (by omega) (by omega)
  have hbits : leadingBits (n / 64 % 32 + 192) 1 * 64 + n % 64 = n := by
    change (n / 64 % 32 + 192) % 32 * 64 + n % 64 = n
    omega
  rw [leadingChar_of_continuation? (by omega) (by omega) hfirst,
    readSequence_cons n _ (by omega) (by omega), hbits, readSequence]

/-- Too small a number would take fewer bytes, and a surrogate is no character. -/
theorem leadingChar_three {n : Nat} (hlow : 0x800 ≤ n) (hhigh : n < 0x10000)
    (hvalid : n < 0xd800 ∨ 0xdfff < n) (bytes : List UInt8) :
    leadingChar (UInt8.ofNat (n / 4096 % 16 + 224))
      (UInt8.ofNat (n / 64 % 64 + 128) :: UInt8.ofNat (n % 64 + 128) :: bytes)
      = (Char.ofNat n, 3) := by
  have hfirst := continuation?_three (n / 4096 % 16) (by omega)
  have hbits : (leadingBits (n / 4096 % 16 + 224) 2 * 64 + n / 64 % 64) * 64 + n % 64 = n := by
    change ((n / 4096 % 16 + 224) % 16 * 64 + n / 64 % 64) * 64 + n % 64 = n
    omega
  have hsecond : (if n / 4096 % 16 = 0 then 0xa0 else 0x80) ≤ n / 64 % 64 + 128 ∧
      n / 64 % 64 + 128 ≤ if n / 4096 % 16 = 13 then 0x9f else 0xbf := by
    constructor <;> split_ifs <;> omega
  rw [leadingChar_of_continuation? (by omega) (by omega) hfirst,
    readSequence_cons (n / 64) _ hsecond.1 hsecond.2,
    readSequence_cons n _ (by omega) (by omega), hbits, readSequence]

theorem leadingChar_four {n : Nat} (hlow : 0x10000 ≤ n) (hhigh : n < 0x110000)
    (bytes : List UInt8) :
    leadingChar (UInt8.ofNat (n / 262144 % 8 + 240))
      (UInt8.ofNat (n / 4096 % 64 + 128) :: UInt8.ofNat (n / 64 % 64 + 128)
        :: UInt8.ofNat (n % 64 + 128) :: bytes)
      = (Char.ofNat n, 4) := by
  have hfirst := continuation?_four (n / 262144 % 8) (by omega)
  have hbits : ((leadingBits (n / 262144 % 8 + 240) 3 * 64 + n / 4096 % 64) * 64 + n / 64 % 64)
      * 64 + n % 64 = n := by
    change (((n / 262144 % 8 + 240) % 8 * 64 + n / 4096 % 64) * 64 + n / 64 % 64) * 64 + n % 64 = n
    omega
  have hsecond : (if n / 262144 % 8 = 0 then 0x90 else 0x80) ≤ n / 4096 % 64 + 128 ∧
      n / 4096 % 64 + 128 ≤ if n / 262144 % 8 = 4 then 0x8f else 0xbf := by
    constructor <;> split_ifs <;> omega
  rw [leadingChar_of_continuation? (by omega) (by omega) hfirst,
    readSequence_cons (n / 4096) _ hsecond.1 hsecond.2,
    readSequence_cons (n / 64) _ (by omega) (by omega),
    readSequence_cons n _ (by omega) (by omega), hbits, readSequence]

/-- The bytes of a character are read as the character, whatever follows them. -/
theorem exists_leadingChar (c : Char) (bytes : List UInt8) :
    ∃ byte rest, String.utf8EncodeChar c = byte :: rest ∧
      leadingChar byte (rest ++ bytes) = (c, rest.length + 1) := by
  have hnumber : Char.ofNat c.val.toNat = c := Char.ofNat_toNat c
  have hvalid : c.val.toNat < 0xd800 ∨ 0xdfff < c.val.toNat ∧ c.val.toNat < 0x110000 := c.valid
  rw [String.utf8EncodeChar]
  generalize c.val.toNat = n at hnumber hvalid ⊢
  subst hnumber
  split_ifs
  · exact ⟨_, _, rfl, leadingChar_one (by omega) _⟩
  · exact ⟨_, _, rfl, leadingChar_two (by omega) (by omega) _⟩
  · exact ⟨_, _, rfl, leadingChar_three (by omega) (by omega) (by omega) _⟩
  · exact ⟨_, _, rfl, leadingChar_four (by omega) (by omega) _⟩

/-- The bytes of a character that has been read are passed over. -/
theorem decodeFrom_append (skipped : List UInt8) (read : List Char) (bytes : List UInt8) :
    decodeFrom skipped.length read (skipped ++ bytes) = decodeFrom 0 read bytes := by
  induction skipped with
  | nil => rfl
  | cons byte skipped ih => exact ih

theorem decodeFrom_utf8EncodeChar (c : Char) (read : List Char) (bytes : List UInt8) :
    decodeFrom 0 read (String.utf8EncodeChar c ++ bytes) = decodeFrom 0 (c :: read) bytes := by
  obtain ⟨byte, rest, hbytes, hread⟩ := exists_leadingChar c bytes
  rw [hbytes, List.cons_append, decodeFrom, hread]
  exact decodeFrom_append rest (c :: read) bytes

theorem decodeFrom_flatMap (text read : List Char) :
    decodeFrom 0 read (text.flatMap String.utf8EncodeChar) = read.reverse ++ text := by
  induction text generalizing read with
  | nil => rw [List.flatMap_nil, decodeFrom, List.append_nil]
  | cons c text ih =>
      rw [List.flatMap_cons, decodeFrom_utf8EncodeChar, ih, List.reverse_cons, List.append_assoc]
      rfl

/-- The bytes of a text are read as the text. -/
theorem decode_toUTF8 (text : String) : decode text.toUTF8.data.toList = text.toList := by
  have hbytes : text.toUTF8.data.toList = text.toList.flatMap String.utf8EncodeChar := by
    rw [String.toUTF8, ← String.utf8Encode_toList, List.utf8Encode, List.data_toByteArray]
  rw [decode, hbytes, decodeFrom_flatMap]
  rfl

end QoreSyntax.Text

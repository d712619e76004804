/-!
Reading bytes as UTF-8. Bytes that are no well-formed UTF-8 are read as replacement characters:
one for each longest run of bytes that begins a well-formed sequence, and one for each other byte.
-/

namespace QoreSyntax.Text

/-- The character that stands for bytes that cannot be read. -/
def replacement : Char :=
  '\ufffd'

/-- The number of bytes after the first one of a sequence, and the least and greatest value of the
second one. Too long forms, surrogates and values beyond Unicode are excluded. -/
def continuation? (first : Nat) : Option (Nat × Nat × Nat) :=
  if first < 0xc2 then none
  else if first ≤ 0xdf then some (1, 0x80, 0xbf)
  else if first = 0xe0 then some (2, 0xa0, 0xbf)
  else if first = 0xed then some (2, 0x80, 0x9f)
  else if first ≤ 0xef then some (2, 0x80, 0xbf)
  else if first = 0xf0 then some (3, 0x90, 0xbf)
  else if first ≤ 0xf3 then some (3, 0x80, 0xbf)
  else if first = 0xf4 then some (3, 0x80, 0x8f)
  else none

/-- The bits that the first byte of a sequence with `count` more bytes adds to its value. -/
def leadingBits (first count : Nat) : Nat :=
  first % Nat.pow 2 (6 - count)

/-- Reads `count` more bytes of a sequence, of which the next one lies between `low` and `high`. The
bytes before have the value `value` and the number `read`. -/
def readSequence (value read : Nat) : (count low high : Nat) → List UInt8 → Char × Nat
  | 0, _, _, _ => (Char.ofNat value, read)
  | _ + 1, _, _, [] => (replacement, read)
  | count + 1, low, high, byte :: bytes =>
      let next := byte.toNat
      if low ≤ next ∧ next ≤ high then
        readSequence (value * 64 + next % 64) (read + 1) count 0x80 0xbf bytes
      else (replacement, read)

/-- The first character of the bytes, and the number of bytes that it takes. -/
def leadingChar (byte : UInt8) (bytes : List UInt8) : Char × Nat :=
  let first := byte.toNat
  if first < 0x80 then (Char.ofNat first, 1)
  else
    match continuation? first with
    | none => (replacement, 1)
    | some (count, low, high) => readSequence (leadingBits first count) 1 count low high bytes

/-- Reads bytes after the characters `read`, the last one of which comes first. The first `skip`
bytes belong to the character before. -/
def decodeFrom : (skip : Nat) → (read : List Char) → List UInt8 → List Char
  | _, read, [] => read.reverse
  | skip + 1, read, _ :: bytes => decodeFrom skip read bytes
  | 0, read, byte :: bytes =>
      let (c, length) := leadingChar byte bytes
      decodeFrom (length - 1) (c :: read) bytes

/-- The text that the bytes hold. -/
def decode (bytes : List UInt8) : List Char :=
  decodeFrom 0 [] bytes

end QoreSyntax.Text

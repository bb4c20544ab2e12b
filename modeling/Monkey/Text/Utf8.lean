/-!
# UTF-8

The bytes of a text, and the text of any bytes.  Reading never fails: a byte that begins no
well-formed sequence stands for U+FFFD, and reading goes on at the very next byte.
-/

namespace Monkey.Utf8

/-- The bytes of a text. -/
def encode (s : String) : List UInt8 := s.toList.flatMap String.utf8EncodeChar

/-- The character that replaces a byte which is not part of a well-formed sequence. -/
def replacement : Char := '\ufffd'

/-- The six low bits of a continuation byte. -/
def continuation? (b : UInt8) : Option Nat :=
  if b.toNat / 64 = 2 then some (b.toNat % 64) else none

/-- The character with a given number, unless the number is below `least`, is a surrogate or is
out of range. -/
def char? (least n : Nat) : Option Char :=
  if least ≤ n ∧ n.isValidChar then some (Char.ofNat n) else none

/-- The character at the front of some bytes, if they begin with a well-formed sequence, and the
number of bytes that follow the first one in it. -/
def front? (b : UInt8) (rest : List UInt8) : Option (Char × Nat) :=
  let n := b.toNat
  if n < 0x80 then some (Char.ofNat n, 0)
  else if n < 0xc0 then none
  else if n < 0xe0 then do
    let x ← continuation? (← rest[0]?)
    return (← char? 0x80 (n % 32 * 64 + x), 1)
  else if n < 0xf0 then do
    let x ← continuation? (← rest[0]?)
    let y ← continuation? (← rest[1]?)
    return (← char? 0x800 ((n % 16 * 64 + x) * 64 + y), 2)
  else if n < 0xf8 then do
    let x ← continuation? (← rest[0]?)
    let y ← continuation? (← rest[1]?)
    let z ← continuation? (← rest[2]?)
    return (← char? 0x10000 (((n % 8 * 64 + x) * 64 + y) * 64 + z), 3)
  else none

/-- The characters that some bytes stand for. -/
def decodeChars (bs : List UInt8) : List Char :=
  match bs with
  | [] => []
  | b :: rest =>
    match front? b rest with
    | some (c, n) => c :: decodeChars (rest.drop n)
    | none => replacement :: decodeChars rest
termination_by bs.length

/-- The text that some bytes stand for. -/
def decode (bs : List UInt8) : String := String.ofList (decodeChars bs)

end Monkey.Utf8

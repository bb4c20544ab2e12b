/-!
# Bytes as letters

Four letters stand for three bytes, six bits each.  The last group may stand for one or two bytes;
equals signs then fill it up.  Bits that are left over do not count, nor do line breaks.
-/

namespace Monkey.Text.Base64

/-- The six bits that a letter stands for. -/
def sextet? (c : Char) : Option Nat :=
  if 'A' ≤ c ∧ c ≤ 'Z' then some (c.toNat - 65)
  else if 'a' ≤ c ∧ c ≤ 'z' then some (c.toNat - 71)
  else if c.isDigit then some (c.toNat + 4)
  else if c = '+' then some 62
  else if c = '/' then some 63
  else none

/-- The bytes of letters in groups of four. -/
def groups? : List Char → Option (List UInt8)
  | [] => some []
  | [a, b, '=', '='] => do
    let n := 64 * (← sextet? a) + (← sextet? b)
    return [UInt8.ofNat (n / 16)]
  | [a, b, c, '='] => do
    let n := 4096 * (← sextet? a) + 64 * (← sextet? b) + (← sextet? c)
    return [UInt8.ofNat (n / 1024), UInt8.ofNat (n / 4)]
  | a :: b :: c :: d :: rest => do
    let n := 262144 * (← sextet? a) + 4096 * (← sextet? b) + 64 * (← sextet? c) + (← sextet? d)
    return UInt8.ofNat (n / 65536) :: UInt8.ofNat (n / 256) :: UInt8.ofNat n :: (← groups? rest)
  | _ => none

def decode? (text : String) : Option (List UInt8) :=
  groups? (text.toList.filter fun c => c ≠ '\r' ∧ c ≠ '\n')

end Monkey.Text.Base64

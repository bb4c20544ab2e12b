import Monkey.Text.Unassigned

/-!
# Classes of characters

Ranges of three Unicode properties: the general category Other (controls, formats, private use, and
code points without a character), separators, and White_Space.
-/

namespace Monkey.Text

/-- Whether a number lies in one of some ranges, both ends included. -/
def inRanges (ranges : List (Nat × Nat)) (n : Nat) : Bool :=
  ranges.any fun (low, high) => low ≤ n && n ≤ high

/-- Controls, formats and private use. -/
def otherRanges : List (Nat × Nat) :=
  [(0x0, 0x1f), (0x7f, 0x9f), (0xad, 0xad), (0x600, 0x605), (0x61c, 0x61c), (0x6dd, 0x6dd),
   (0x70f, 0x70f), (0x890, 0x891), (0x8e2, 0x8e2), (0x180e, 0x180e), (0x200b, 0x200f),
   (0x202a, 0x202e), (0x2060, 0x2064), (0x2066, 0x206f), (0xe000, 0xf8ff), (0xfeff, 0xfeff),
   (0xfff9, 0xfffb), (0x110bd, 0x110bd), (0x110cd, 0x110cd), (0x13430, 0x1343f),
   (0x1bca0, 0x1bca3), (0x1d173, 0x1d17a), (0xe0001, 0xe0001), (0xe0020, 0xe007f),
   (0xf0000, 0xffffd), (0x100000, 0x10fffd)]

/-- Space, line and paragraph separators. -/
def separatorRanges : List (Nat × Nat) :=
  [(0x20, 0x20), (0xa0, 0xa0), (0x1680, 0x1680), (0x2000, 0x200a), (0x2028, 0x2029),
   (0x202f, 0x202f), (0x205f, 0x205f), (0x3000, 0x3000)]

/-- Controls, formats, characters of private use, and code points without a character. -/
def isOther (c : Char) : Bool := inRanges otherRanges c.toNat || inRanges unassignedRanges c.toNat

/-- White space: the separators and the blanks among the controls. -/
def isWhite (c : Char) : Bool :=
  inRanges ((0x9, 0xd) :: (0x85, 0x85) :: separatorRanges) c.toNat

/-- Characters that are shown as themselves.  The space is the only separator among them. -/
def isPrintable (c : Char) : Bool :=
  c == ' ' || !(isOther c || inRanges separatorRanges c.toNat)

/-- A text without the white space at its two ends. -/
def trimChars (cs : List Char) : List Char :=
  ((cs.dropWhile isWhite).reverse.dropWhile isWhite).reverse

def trim (s : String) : String := String.ofList (trimChars s.toList)

end Monkey.Text

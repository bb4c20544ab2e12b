import Monkey.Yaml.Problem

/-!
# The characters of a YAML text

A text comes as bytes, in UTF-8 unless it begins with the byte order mark of UTF-16.  It is read in
blocks of at most 512 bytes.  A block that holds a fault is not read at all; the text then ends
before it, and the fault is what is found there.

Each character is kept together with its place.
-/

namespace Monkey.Yaml

inductive Encoding where
  | utf8
  | utf16 (littleEndian : Bool)
  deriving DecidableEq

/-- What stands at the front of some bytes: a character and the number of its bytes, a fault that
shows within a number of bytes, or the beginning of a character that is cut off. -/
inductive Front where
  | char (c : Char) (width : Nat)
  | fault (problem : Problem) (width : Nat)
  | cut (problem : Problem)

namespace Front

/-- Controls are not characters of a text, the blanks and line breaks among them excepted. -/
def allowed (n : Nat) : Bool :=
  n == 0x9 || n == 0xa || n == 0xd || (0x20 ≤ n && n ≤ 0x7e) || n == 0x85 ||
    (0xa0 ≤ n && n ≤ 0xd7ff) || (0xe000 ≤ n && n ≤ 0xfffd) || (0x10000 ≤ n && n ≤ 0x10ffff)

def ofNumber (n width : Nat) : Front :=
  if allowed n then .char (Char.ofNat n) width else .fault .controlCharacter width

/-- The number of bytes of a character and the bits of it that its first byte holds. -/
def lead? (b : UInt8) : Option (Nat × Nat) :=
  let n := b.toNat
  if n < 0x80 then some (1, n)
  else if n < 0xc0 then none
  else if n < 0xe0 then some (2, n % 32)
  else if n < 0xf0 then some (3, n % 16)
  else if n < 0xf8 then some (4, n % 8)
  else none

/-- The least number that needs a given number of bytes. -/
def least : Nat → Nat
  | 2 => 0x80
  | 3 => 0x800
  | 4 => 0x10000
  | _ => 0

def ofUtf8 (b : UInt8) (rest : List UInt8) : Front :=
  match lead? b with
  | none => .fault .leadingOctet 1
  | some (width, bits) =>
    let trail := rest.take (width - 1)
    if trail.length < width - 1 then .cut .incompleteOctets
    else if trail.any (fun t => t.toNat / 64 ≠ 2) then .fault .trailingOctet width
    else
      let n := trail.foldl (fun n t => 64 * n + t.toNat % 64) bits
      if n < least width then .fault .octetCount width
      else if (0xd800 ≤ n && n ≤ 0xdfff) || 0x10ffff < n then .fault .notACharacter width
      else ofNumber n width

def unit (littleEndian : Bool) (a b : UInt8) : Nat :=
  if littleEndian then 256 * b.toNat + a.toNat else 256 * a.toNat + b.toNat

def ofUtf16 (littleEndian : Bool) (b : UInt8) (rest : List UInt8) : Front :=
  match rest with
  | [] => .cut .incompleteUnit
  | b' :: rest =>
    let high := unit littleEndian b b'
    if high / 1024 = 0x37 then .fault .strayLowSurrogate 2
    else if high / 1024 = 0x36 then
      match rest with
      | c :: c' :: _ =>
        let low := unit littleEndian c c'
        if low / 1024 = 0x37 then ofNumber (0x10000 + high % 1024 * 1024 + low % 1024) 4
        else .fault .noLowSurrogate 4
      | _ => .cut .incompletePair
    else ofNumber high 2

def next : Encoding → UInt8 → List UInt8 → Front
  | .utf8 => ofUtf8
  | .utf16 littleEndian => ofUtf16 littleEndian

end Front

/-- The encoding of a text and the length of its byte order mark. -/
def Encoding.detect : List UInt8 → Encoding × Nat
  | 0xff :: 0xfe :: _ => (.utf16 true, 2)
  | 0xfe :: 0xff :: _ => (.utf16 false, 2)
  | 0xef :: 0xbb :: 0xbf :: _ => (.utf8, 3)
  | _ => (.utf8, 0)

/-- The number of bytes in a block. -/
def blockSize : Nat := 512

/-- The characters of some bytes, and the fault that ends them.  `block` holds the characters of the
block that is being read, the last one first, and `used` is the number of its bytes. -/
def readBlocks (e : Encoding) (used : Nat) (block : List Char) (bytes : List UInt8) :
    List Char × Option Problem :=
  match bytes with
  | [] => (block.reverse, none)
  | b :: rest =>
    match Front.next e b rest with
    | .char c width =>
      if used + width ≤ blockSize then
        readBlocks e (used + width) (c :: block) (rest.drop (width - 1))
      else
        let (cs, fault?) := readBlocks e width [c] (rest.drop (width - 1))
        (block.reverse ++ cs, fault?)
    | .fault problem width =>
      (if used + width ≤ blockSize then [] else block.reverse, some problem)
    | .cut problem => (block.reverse, some problem)
termination_by bytes.length

/-- A character at its place. -/
structure Glyph where
  char : Char
  mark : Mark
  /-- Whether it stands first on its line but for blanks, and is not on the first line. -/
  leads : Bool
  deriving DecidableEq

/-- Line breaks: a line feed, a next line, and the separators of lines and paragraphs. -/
def isBreak (c : Char) : Bool := c == '\n' || c == '\u0085' || c == '\u2028' || c == '\u2029'

/-- Spaces and tabs. -/
def isBlank (c : Char) : Bool := c == ' ' || c == '\t'

/-- Some characters in their places, the last one first, and what is needed to go on. -/
structure Placed where
  glyphs : List Glyph
  mark : Mark
  leads : Bool
  /-- Whether the last character was a carriage return. -/
  returned : Bool

/-- Puts one more character in its place.  A carriage return, alone or before a line feed, is a line
feed. -/
def Placed.push (p : Placed) (c : Char) : Placed :=
  if p.returned && c == '\n' then { p with returned := false }
  else
    let c' := if c = '\r' then '\n' else c
    let glyphs := ⟨c', p.mark, p.leads⟩ :: p.glyphs
    if isBreak c' then ⟨glyphs, ⟨p.mark.line + 1, 0⟩, true, c == '\r'⟩
    else ⟨glyphs, ⟨p.mark.line, p.mark.column + 1⟩, p.leads && isBlank c', false⟩

/-- A text: its characters, the place after them, and the fault that is found there, if any. -/
structure Source where
  glyphs : List Glyph
  finish : Mark
  fault? : Option Problem

def Source.ofBytes (bytes : List UInt8) : Source :=
  let (encoding, width) := Encoding.detect bytes
  let (chars, fault?) := readBlocks encoding width [] (bytes.drop width)
  let placed := chars.foldl Placed.push ⟨[], ⟨0, 0⟩, false, false⟩
  ⟨placed.glyphs.reverse, placed.mark, fault?⟩

end Monkey.Yaml

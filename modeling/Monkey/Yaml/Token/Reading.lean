import Monkey.Yaml.Token

/-!
# Reading tokens

A token is read from the front of the characters that are left.  Reading gives a value and what is
left then, or a problem and the characters it was met at.
-/

namespace Monkey.Yaml

/-- A problem and the characters that were left when it was met. -/
abbrev Trouble : Type := Problem × List Glyph

abbrev Reading (α : Type) : Type := Except Trouble (α × List Glyph)

/-- A problem at the front of some characters. -/
def stuck {α : Type} (problem : Problem) (gs : List Glyph) : Except Trouble α :=
  .error (problem, gs)

def Reading.map {α β : Type} (f : α → β) : Reading α → Reading β
  | .ok (a, rest) => .ok (f a, rest)
  | .error e => .error e

def isGap (c : Char) : Bool := isBlank c || isBreak c

/-- Whether a blank, a line break or the end comes next. -/
def atGap : List Glyph → Bool
  | [] => true
  | g :: _ => isGap g.char

/-- Whether a blank comes next. -/
def atBlank : List Glyph → Bool
  | [] => false
  | g :: _ => isBlank g.char

/-- Whether a line break or the end comes next. -/
def atLineEnd : List Glyph → Bool
  | [] => true
  | g :: _ => isBreak g.char

/-- Whether a given character comes next. -/
def atChar (c : Char) : List Glyph → Bool
  | [] => false
  | g :: _ => g.char == c

def skipBlanks (gs : List Glyph) : List Glyph := gs.dropWhile (isBlank ·.char)

/-- Leaves out the rest of a line, but not its break. -/
def skipLine (gs : List Glyph) : List Glyph := gs.dropWhile (!isBreak ·.char)

/-- Leaves out blanks and a comment; nothing else may stand before the line break, which is left
out too. -/
def endLine (gs : List Glyph) : Reading Unit :=
  let gs := skipBlanks gs
  let gs := if atChar '#' gs then skipLine gs else gs
  if atLineEnd gs then .ok ((), gs.tail) else stuck .noCommentOrBreak gs

/-- Three dashes or points at the beginning of a line with nothing right behind them. -/
def documentMark? : List Glyph → Option Token.Kind
  | a :: b :: c :: rest =>
    if a.mark.column = 0 && b.char == a.char && c.char == a.char && atGap rest then
      if a.char = '-' then some .documentStart
      else if a.char = '.' then some .documentEnd
      else none
    else none
  | _ => none

def textOf (gs : List Glyph) : List Char := gs.map (·.char)

/-- Letters, digits, the low line and the dash. -/
def isNameChar (c : Char) : Bool := c.isAlphanum || c == '_' || c == '-'

def hexDigit? (c : Char) : Option Nat :=
  if c.isDigit then some (c.toNat - 48)
  else if 'a' ≤ c ∧ c ≤ 'f' then some (c.toNat - 87)
  else if 'A' ≤ c ∧ c ≤ 'F' then some (c.toNat - 55)
  else none

/-- The value of a row of hexadecimal digits. -/
def hexValue? (gs : List Glyph) : Option Nat :=
  gs.foldlM (fun n g => (hexDigit? g.char).map (16 * n + ·)) 0

end Monkey.Yaml

import Monkey.Yaml.Token.Reading

/-!
# Scalars

Plain and quoted scalars may go on over several lines: a gap without line breaks stands for itself,
one line break for a space, and each further line break for itself.  In a block scalar lines are
kept as they are, or folded in the same way where neither line begins with a blank.
-/

namespace Monkey.Yaml

/-- The text of a line break; the separators of lines and paragraphs stand for themselves. -/
def breakText (c : Char) : Char := if c = '\u0085' then '\n' else c

def breaksOf (gap : List Glyph) : List Char :=
  (gap.filter (isBreak ·.char)).map (breakText ·.char)

/-- The text of a gap between two words. -/
def folded (gap : List Glyph) : List Char :=
  match breaksOf gap with
  | [] => textOf gap
  | ['\n'] => [' ']
  | '\n' :: more => more
  | breaks => breaks

namespace Plain

/-- Whether a plain scalar ends before a character, given what follows it. -/
def endsAt (flow : Bool) (c : Char) (rest : List Glyph) : Bool :=
  (c == ':' && atGap rest) || (flow && c ∈ [',', '?', '[', ']', '\x7b', '\x7d'])

/-- The rest of a plain scalar.  `done` is the text so far and `gap` the blanks and breaks behind
it, both with the last character first.  A gap at the end is left out of the text; the second
component tells whether it has a line break. -/
def read (flow : Bool) (floor : Nat) (done : List Char) (gap : List Glyph) :
    List Glyph → Reading (List Char × Bool)
  | [] => .ok ((done.reverse, gap.any (isBreak ·.char)), [])
  | g :: gs =>
    let crossed := gap.any (isBreak ·.char)
    if isGap g.char then
      if crossed && g.char == '\t' && g.mark.column < floor then stuck .tabInPlain (g :: gs)
      else read flow floor done (g :: gap) gs
    else if !gap.isEmpty && ((!flow && g.mark.column < floor) || g.char == '#' ||
        (documentMark? (g :: gs)).isSome) then
      .ok ((done.reverse, crossed), g :: gs)
    else if endsAt flow g.char gs then .ok ((done.reverse, crossed), g :: gs)
    else read flow floor (g.char :: ((folded gap.reverse).reverse ++ done)) [] gs

end Plain

namespace Quoted

/-- The character that a letter behind a backslash stands for. -/
def escape? : Char → Option Char
  | '0' => some '\x00'
  | 'a' => some '\x07'
  | 'b' => some '\x08'
  | 't' | '\t' => some '\t'
  | 'n' => some '\n'
  | 'v' => some '\x0b'
  | 'f' => some '\x0c'
  | 'r' => some '\r'
  | 'e' => some '\x1b'
  | ' ' => some ' '
  | '"' => some '"'
  | '\'' => some '\''
  | '\\' => some '\\'
  | 'N' => some '\u0085'
  | '_' => some '\u00a0'
  | 'L' => some '\u2028'
  | 'P' => some '\u2029'
  | _ => none

/-- The number of digits behind a letter for a character by its number. -/
def digitCount? : Char → Option Nat
  | 'x' => some 2
  | 'u' => some 4
  | 'U' => some 8
  | _ => none

/-- The character a backslash and what follows it stand for; `all` begins with the backslash. -/
def escaped (all : List Glyph) (letter : Glyph) (gs : List Glyph) : Reading Char :=
  match escape? letter.char, digitCount? letter.char with
  | some c, _ => .ok (c, gs)
  | none, none => stuck .unknownEscape all
  | none, some count =>
    let digits := gs.take count
    if digits.length < count then stuck .noHexDigit gs
    else
      match hexValue? digits with
      | none => stuck .noHexDigit gs
      | some n =>
        if n.isValidChar then .ok (Char.ofNat n, gs.drop count) else stuck .escapeRange gs

theorem length_of_escaped {all gs rest : List Glyph} {letter : Glyph} {c : Char}
    (h : escaped all letter gs = .ok (c, rest)) : rest.length ≤ gs.length := by
  unfold escaped stuck at h
  split at h
  · cases h
    exact Nat.le_refl _
  · cases h
  · dsimp only at h
    split at h
    · cases h
    · split at h
      · cases h
      · split at h
        · cases h
          simp
        · cases h

/-- The gap between two words of a quoted scalar.  After a line break with a backslash before it
only further line breaks count. -/
def gapText (joined : Bool) (gap : List Glyph) : List Char :=
  if joined then breaksOf gap else folded gap

/-- The rest of a quoted scalar.  `done` is the text so far and `gap` the blanks and breaks behind
it, both with the last character first; `joined` tells whether a backslash and a line break stand
before the gap. -/
def read (quote : Char) (done : List Char) (joined : Bool) (gap : List Glyph) (gs : List Glyph) :
    Reading (List Char) :=
  match gs with
  | [] => stuck .openQuotes []
  | g :: gs =>
    if isGap g.char then read quote done joined (g :: gap) gs
    else if (joined || !gap.isEmpty) && (documentMark? (g :: gs)).isSome then
      stuck .documentInQuotes (g :: gs)
    else
      let done := (gapText joined gap.reverse).reverse ++ done
      if g.char = quote then
        match gs with
        | g' :: gs' =>
          if quote = '\'' ∧ g'.char = '\'' then read quote ('\'' :: done) false [] gs'
          else .ok (done.reverse, gs)
        | [] => .ok (done.reverse, gs)
      else if quote = '"' ∧ g.char = '\\' then
        match gs with
        | [] => stuck .unknownEscape [g]
        | letter :: gs' =>
          if isBreak letter.char then read quote done true [] gs'
          else
            match h : escaped (g :: letter :: gs') letter gs' with
            | .error e => .error e
            | .ok (c, rest) =>
              have := length_of_escaped h
              read quote (c :: done) false [] rest
      else read quote (g.char :: done) false [] gs
termination_by gs.length

end Quoted

namespace Block

/-- What becomes of the line breaks at the end. -/
inductive Chomp where
  | clip
  | strip
  | keep
  deriving DecidableEq

def chomp? : List Glyph → Option Chomp
  | [] => none
  | g :: _ => if g.char = '+' then some .keep else if g.char = '-' then some .strip else none

/-- A digit that tells the indentation; zero if there is none. -/
def increment (gs : List Glyph) : Reading Nat :=
  match gs with
  | [] => .ok (0, gs)
  | g :: rest =>
    if g.char = '0' then stuck .zeroIndent gs
    else if g.char.isDigit then .ok (g.char.toNat - 48, rest)
    else .ok (0, gs)

/-- The line a block scalar begins with. -/
def header (gs : List Glyph) : Except Trouble ((Chomp × Nat) × List Glyph) := do
  match chomp? gs with
  | some c =>
    let (n, gs) ← increment gs.tail
    let (_, gs) ← endLine gs
    return ((c, n), gs)
  | none =>
    let (n, gs) ← increment gs
    let (_, rest) ← endLine (if (chomp? gs).isSome then gs.tail else gs)
    return (((chomp? gs).getD .clip, n), rest)

/-- The deepest column that spaces lead to, in the empty lines at the front and in the line after
them.  That line may end with the text. -/
def deepest (column : Nat) : List Glyph → Except Trouble Nat
  | [] => .ok column
  | g :: gs =>
    if g.char = ' ' then deepest (max column (g.mark.column + 1)) gs
    else if g.char = '\t' then .error (.tabInBlock, g :: gs)
    else if isBreak g.char then deepest column gs
    else .ok column

/-- Where the lines of a block scalar stand, and the text that has been read. -/
structure Body where
  indent : Nat
  literal : Bool
  /-- The text so far, the last character first. -/
  done : List Char
  /-- The break of the last line that was not empty. -/
  held : List Char
  /-- The breaks of the empty lines after it, the last one first. -/
  empty : List Char
  /-- Whether the last line that was not empty begins with a blank. -/
  indented : Bool

/-- Begins a line with a character. -/
def Body.beginLine (b : Body) (c : Char) : Body :=
  let blank := isBlank c
  let between :=
    if !b.literal && !b.indented && !blank && b.held == ['\n'] then
      if b.empty.isEmpty then [' '] else []
    else b.held
  { b with
    done := c :: (b.empty ++ (between ++ b.done))
    held := []
    empty := []
    indented := blank }

def Body.finish (c : Chomp) (b : Body) : List Char :=
  b.done.reverse ++
    match c with
    | .strip => []
    | .clip => b.held
    | .keep => b.held ++ b.empty.reverse

/-- The lines of a block scalar; `inLine` tells whether a line has begun. -/
def lines (b : Body) (inLine : Bool) : List Glyph → Reading Body
  | [] => .ok (b, [])
  | g :: gs =>
    if inLine then
      if isBreak g.char then lines { b with held := [breakText g.char] } false gs
      else lines { b with done := g.char :: b.done } true gs
    else if isBreak g.char then lines { b with empty := breakText g.char :: b.empty } false gs
    else if g.mark.column < b.indent then
      if g.char = ' ' then lines b false gs
      else if g.char = '\t' then stuck .tabInBlock (g :: gs)
      else .ok (b, g :: gs)
    else if g.mark.column = b.indent then lines (b.beginLine g.char) true gs
    else .ok (b, g :: gs)

/-- A block scalar after its indicator; `floor` is the least column it may be indented to. -/
def read (literal : Bool) (floor : Nat) (gs : List Glyph) :
    Except Trouble (List Char × List Glyph) := do
  let ((chomp, n), gs) ← header gs
  let indent ← if n > 0 then .ok (floor - 1 + n) else (max 1 <| max floor ·) <$> deepest 0 gs
  let (b, gs) ← lines ⟨indent, literal, [], [], [], false⟩ false gs
  return (b.finish chomp, gs)

end Block

end Monkey.Yaml

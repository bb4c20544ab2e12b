import Monkey.Text.Utf8
import Monkey.Yaml.Token.Reading

/-!
# Anchors, tags and directives

An anchor gives a node a name and a tag gives it a type; a directive says something about the whole
document.
-/

namespace Monkey.Yaml

/-- The name of an anchor or an alias, behind its indicator. -/
def anchorName (gs : List Glyph) : Reading String :=
  let name := gs.takeWhile (isNameChar ·.char)
  let rest := gs.dropWhile (isNameChar ·.char)
  let closed := atGap rest || ['?', ':', ',', ']', '\x7d', '%', '@', '\x60'].any (atChar · rest)
  if !name.isEmpty && closed then .ok (String.ofList (textOf name), rest)
  else stuck .noAnchorName rest

namespace Tag

/-- The characters of a tag that stand for themselves. -/
def isUriChar (c : Char) : Bool := isNameChar c || c ∈ ";/?:@&=+$,.!~*'()[]".toList

/-- The bytes of a tag, the last one first.  A percent sign and two digits stand for a byte; `due`
is how many more of them the character they are part of asks for. -/
def uri (due : Nat) (done : List UInt8) (gs : List Glyph) : Reading (List UInt8) :=
  match gs with
  | [] => if due = 0 then .ok (done, []) else stuck .noUriOctet []
  | g :: gs =>
    if g.char = '%' then
      match gs with
      | h :: l :: rest =>
        match hexValue? [h, l] with
        | none => stuck .noUriOctet (g :: gs)
        | some n =>
          let octet := UInt8.ofNat n
          if due = 0 then
            match Front.lead? octet with
            | none => stuck .uriLeadingOctet (g :: gs)
            | some (width, _) => uri (width - 1) (octet :: done) rest
          else if n / 64 = 2 then uri (due - 1) (octet :: done) rest
          else stuck .uriTrailingOctet (g :: gs)
      | _ => stuck .noUriOctet (g :: gs)
    else if due > 0 then stuck .noUriOctet (g :: gs)
    else if isUriChar g.char then uri 0 (UInt8.ofNat g.char.toNat :: done) gs
    else .ok (done, g :: gs)
termination_by gs.length

/-- What a tag holds besides its handle.  It may be empty only if something stands before it. -/
def suffix (before : List Char) (mayBeEmpty : Bool) (gs : List Glyph) : Reading String :=
  match uri 0 [] gs with
  | .error e => .error e
  | .ok (bytes, rest) =>
    if bytes.isEmpty && !mayBeEmpty then stuck .noTagUri rest
    else .ok (String.ofList before ++ Utf8.decode bytes.reverse, rest)

/-- The rest of a handle behind its exclamation mark, and whether another mark closes it. -/
def handle (gs : List Glyph) : (List Char × Bool) × List Glyph :=
  let name := textOf (gs.takeWhile (isNameChar ·.char))
  let rest := gs.dropWhile (isNameChar ·.char)
  if atChar '!' rest then ((name, true), rest.tail) else ((name, false), rest)

def closedHandle (name : List Char) : String := "!" ++ String.ofList name ++ "!"

/-- A tag behind its exclamation mark: `<uri>`, a handle and a suffix, a suffix, or nothing. -/
def read (gs : List Glyph) : Except Trouble (TagName × List Glyph) := do
  let (tag, rest) ←
    if atChar '<' gs then do
      let (s, rest) ← suffix [] false gs.tail
      if atChar '>' rest then .ok (TagName.mk "" s, rest.tail) else stuck .noTagClose rest
    else
      match handle gs with
      | ((name, true), rest) => do
        let (s, rest) ← suffix [] false rest
        .ok (TagName.mk (closedHandle name) s, rest)
      | ((name, false), rest) => do
        let (s, rest) ← suffix name true rest
        .ok (if s = "" then TagName.mk "" "!" else ⟨"!", s⟩, rest)
  if atGap rest then return (tag, rest) else stuck .noBlankOrBreak rest

end Tag

namespace Directive

/-- One or two digits. -/
def versionNumber (gs : List Glyph) : Reading Nat :=
  let digits := gs.takeWhile (·.char.isDigit)
  if digits.length > 2 then stuck .longVersion gs
  else if digits.isEmpty then stuck .noVersion gs
  else
    .ok (digits.foldl (fun n g => 10 * n + (g.char.toNat - 48)) 0, gs.dropWhile (·.char.isDigit))

/-- Two numbers with a point between them. -/
def version (gs : List Glyph) : Except Trouble (Token.Kind × List Glyph) := do
  let (major, gs) ← versionNumber (skipBlanks gs)
  if !atChar '.' gs then stuck .noVersionPoint gs
  let (minor, gs) ← versionNumber gs.tail
  return (.version major minor, gs)

/-- A handle and what it stands for. -/
def tagHandle (gs : List Glyph) : Except Trouble (Token.Kind × List Glyph) := do
  let gs := skipBlanks gs
  if !atChar '!' gs then stuck .noTagMark gs
  let ((name, closed), gs) := Tag.handle gs.tail
  if !closed && !name.isEmpty then stuck .noTagMark gs
  let written := if closed then Tag.closedHandle name else "!"
  if !atBlank gs then stuck .noBlank gs
  let (stem, gs) ← Tag.suffix [] false (skipBlanks gs)
  if !atGap gs then stuck .noBlankOrBreak gs
  return (.tagHandle written stem, gs)

/-- A directive behind its percent sign, up to the next line. -/
def read (gs : List Glyph) : Except Trouble (Token.Kind × List Glyph) := do
  let name := String.ofList (textOf (gs.takeWhile (isNameChar ·.char)))
  let gs := gs.dropWhile (isNameChar ·.char)
  if name = "" then stuck .noDirectiveName gs
  if !atGap gs then stuck .directiveNameEnd gs
  let (kind, gs) ←
    if name = "YAML" then version gs
    else if name = "TAG" then tagHandle gs
    else stuck .unknownDirective gs
  let (_, gs) ← endLine gs
  return (kind, gs)

end Directive

end Monkey.Yaml

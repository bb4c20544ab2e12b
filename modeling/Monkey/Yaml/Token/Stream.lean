import Monkey.Yaml.Token.Property
import Monkey.Yaml.Token.Scalar

/-!
# The tokens of a text

Whether a scalar is a key shows only when a colon follows it, so tokens wait until they can no
longer become keys, and always until two more tokens are known.  A problem in the text is therefore
met up to two tokens before its place: the tokens end where the one that waits for it would stand.
-/

namespace Monkey.Yaml

/-- What may turn out to be a key. -/
structure Candidate where
  possible : Bool
  /-- Whether nothing else may stand in its place. -/
  required : Bool
  /-- The number of its first token. -/
  number : Nat
  mark : Mark
  /-- The numbers of the tokens that wait for it: that of its first token, and those of earlier
  candidates in its place that ran out. -/
  waiting : List Nat

/-- A candidate that is a key or is given up: its first token no longer waits for it. -/
def Candidate.settled (k : Candidate) : Candidate :=
  { k with possible := false, waiting := k.waiting.erase k.number }

/-- The state between two tokens. -/
structure Scan where
  glyphs : List Glyph
  /-- The place after the last character. -/
  finish : Mark
  /-- The tokens that wait. -/
  pending : List Token
  /-- The number of the first token that waits. -/
  taken : Nat
  /-- The columns of the open block collections, the innermost first. -/
  indents : List Nat
  /-- The last candidate in the innermost open flow collection. -/
  key : Candidate
  /-- The candidates outside of it; there is one for each open flow collection. -/
  outer : List Candidate
  /-- Whether a key may begin here. -/
  keyAllowed : Bool

/-- The tokens of a text, and what is met after them: an error or the end. -/
structure Tokens where
  list : List Token
  stop : Except FormError Mark

namespace Scan

def start (source : Source) : Scan :=
  ⟨source.glyphs, source.finish, [], 0, [], ⟨false, false, 0, ⟨0, 0⟩, []⟩, [], true⟩

def inFlow (s : Scan) : Bool := !s.outer.isEmpty

/-- The place of the next character. -/
def here (s : Scan) : Mark :=
  match s.glyphs with
  | [] => s.finish
  | g :: _ => g.mark

/-- The least column of what belongs to the innermost block collection without being an entry. -/
def floor (s : Scan) : Nat :=
  match s.indents with
  | [] => 0
  | column :: _ => column + 1

def refuse {α : Type} (s : Scan) (problem : Problem) : Except FormError α :=
  .error (.inToken s.here s.here problem)

/-! ## Gaps between tokens -/

/-- How far ahead a comment is looked for behind blanks. -/
def commentReach : Nat := 512

inductive Gap where
  | outside
  | comment
  /-- Between two comments with nothing but blanks and empty lines between them. -/
  | between

/-- Whether only blanks and line feeds separate the end of a comment from the next one. -/
def commentFollows (gs : List Glyph) : Bool :=
  let separates (g : Glyph) : Bool := isBlank g.char || g.char == '\n'
  atChar '\n' gs && atChar '#' (gs.dropWhile separates) &&
    (gs.takeWhile separates).length < commentReach

/-- Leaves out blanks, comments and line breaks.  A tab is left out only where no key may begin; in
block collections a key may begin after a line break. -/
def skipGap (flow : Bool) (gap : Gap) (keyAllowed : Bool) : List Glyph → List Glyph × Bool
  | [] => ([], keyAllowed)
  | g :: gs =>
    match gap with
    | .between => skipGap flow (if g.char = '#' then .comment else .between) keyAllowed gs
    | .comment =>
      if !isBreak g.char then skipGap flow .comment keyAllowed gs
      else if commentFollows (g :: gs) then skipGap flow .between keyAllowed gs
      else skipGap flow .outside (keyAllowed || !flow) gs
    | .outside =>
      if g.char = ' ' ∨ (g.char = '\t' ∧ (flow ∨ !keyAllowed)) then
        skipGap flow .outside keyAllowed gs
      else if g.char = '#' then skipGap flow .comment keyAllowed gs
      else if isBreak g.char then skipGap flow .outside (keyAllowed || !flow) gs
      else (g :: gs, keyAllowed)

/-- Leaves out a comment on the line of the token before it. -/
def skipLineComment (s : Scan) : Scan :=
  match s.glyphs with
  | [] => s
  | g :: _ =>
    let rest := skipBlanks s.glyphs
    if !g.leads && atChar '#' rest &&
        (s.glyphs.takeWhile (isBlank ·.char)).length < commentReach then
      { s with glyphs := skipLine rest }
    else s

/-! ## Tokens that wait -/

def push (s : Scan) (kind : Token.Kind) (mark : Mark) : Scan :=
  { s with pending := s.pending ++ [⟨kind, mark⟩] }

/-- Puts a token before the one with a given number, if that still waits, and else at the end. -/
def insert (s : Scan) (number : Nat) (kind : Token.Kind) (mark : Mark) : Scan :=
  if s.taken ≤ number then
    let place := number - s.taken
    { s with pending := s.pending.take place ++ ⟨kind, mark⟩ :: s.pending.drop place }
  else s.push kind mark

/-- A token here, given what is left after it. -/
def emit (s : Scan) (kind : Token.Kind) (rest : List Glyph) : Scan :=
  { s.push kind s.here with glyphs := rest }

/-- The number of the next token. -/
def nextNumber (s : Scan) : Nat := s.taken + s.pending.length

/-! ## Candidates for keys -/

/-- How long a key may be. -/
def keyReach : Nat := 1024

/-- A key ends on its line and within reach. -/
def isLate (s : Scan) (k : Candidate) : Bool :=
  k.mark.line < s.here.line || k.mark.column + keyReach < s.here.column

/-- A candidate after a look at it: it has run out if it can no longer become a key. -/
def review (s : Scan) (k : Candidate) : Except FormError Candidate :=
  if k.possible && s.isLate k then
    if k.required then .error (.inToken k.mark s.here .noColon)
    else .ok { k with possible := false }
  else .ok k

/-- Gives up the candidate, unless it has run out before. -/
def dropKey (s : Scan) : Except FormError Scan :=
  if !s.key.possible then .ok s
  else if s.key.required then .error (.inToken s.key.mark s.here .noColon)
  else .ok { s with key := s.key.settled }

/-- Takes the next token for a candidate, if a key may begin here. -/
def saveKey (s : Scan) : Except FormError Scan := do
  if !s.keyAllowed then return s
  let required := !s.inFlow && s.indents.head? == some s.here.column
  let s ← s.dropKey
  return { s with key := ⟨true, required, s.nextNumber, s.here, s.nextNumber :: s.key.waiting⟩ }

/-! ## Block collections -/

/-- Opens a block collection at a column, unless one is open there. -/
def indent (s : Scan) (column : Nat) (number : Nat) (kind : Bracket) (mark : Mark) :
    Except FormError Scan :=
  if s.inFlow || column < s.floor then .ok s
  else
    let s := { s with indents := column :: s.indents }
    if s.indents.length > Problem.maxDepth then .error (.inToken s.key.mark s.here .tooDeep)
    else .ok (s.insert number (.opening kind) mark)

/-- Opens a block collection here. -/
def indentHere (s : Scan) (kind : Bracket) : Except FormError Scan :=
  s.indent s.here.column s.nextNumber kind s.here

/-- Closes block collections that do not reach to a condition on their column. -/
def unindent (s : Scan) (closes : Nat → Bool) (mark : Mark) : Scan :=
  if s.inFlow then s
  else
    let closed := s.indents.takeWhile closes
    { s with
      indents := s.indents.dropWhile closes
      pending := s.pending ++ closed.map fun _ => ⟨.blockEnd, mark⟩ }

/-! ## One token -/

/-- The end of the text; it stands on a line of its own. -/
def fetchEnd (s : Scan) : Except FormError Scan := do
  let finish := if s.finish.column = 0 then s.finish else ⟨s.finish.line + 1, 0⟩
  let s := { s with finish }
  let s ← (s.unindent (fun _ => true) finish).dropKey
  return { s with keyAllowed := false }.push .streamEnd finish

/-- What a document begins or ends with. -/
def fetchDocumentMark (s : Scan) (kind : Token.Kind) : Except FormError Scan := do
  let s ← (s.unindent (fun _ => true) s.here).dropKey
  return { s with keyAllowed := false }.emit kind (s.glyphs.drop 3)

def fetchFlowStart (s : Scan) (kind : Bracket) : Except FormError Scan := do
  let s ← s.saveKey
  let inner : Candidate := ⟨false, false, s.nextNumber, s.here, []⟩
  let s := { s with key := inner, outer := s.key :: s.outer, keyAllowed := true }
  if s.outer.length > Problem.maxDepth then s.refuse .tooDeep
  return s.emit (.opening kind) s.glyphs.tail

/-- The end of a flow collection.  If nothing in it was a candidate, its first token no longer waits
for the collection to become a key. -/
def fetchFlowEnd (s : Scan) (kind : Token.Kind) : Except FormError Scan := do
  let s ← s.dropKey
  let s := match s.outer with
    | [] => s
    | k :: ks =>
      { s with key := { k with waiting := k.waiting.erase s.key.number }, outer := ks }
  return { s with keyAllowed := false }.emit kind s.glyphs.tail

def fetchComma (s : Scan) : Except FormError Scan := do
  let s ← s.dropKey
  return { s with keyAllowed := true }.emit .comma s.glyphs.tail

def fetchEntry (s : Scan) : Except FormError Scan := do
  if !s.inFlow && !s.keyAllowed then s.refuse .entryNotAllowed
  let s ← (← s.indentHere .blockSeq).dropKey
  return { s with keyAllowed := true }.emit .entry s.glyphs.tail

def fetchKey (s : Scan) : Except FormError Scan := do
  if !s.inFlow && !s.keyAllowed then s.refuse .keyNotAllowed
  let s ← (← s.indentHere .blockMap).dropKey
  return { s with keyAllowed := !s.inFlow }.emit .key s.glyphs.tail

/-- A colon: the candidate before it becomes a key. -/
def fetchValue (s : Scan) : Except FormError Scan := do
  let k ← s.review s.key
  let s ←
    if k.possible then do
      let s ← (s.insert k.number .key k.mark).indent k.mark.column k.number .blockMap k.mark
      pure { s with key := k.settled, keyAllowed := false }
    else do
      if !s.inFlow && !s.keyAllowed then s.refuse .valueNotAllowed
      let s ← s.indentHere .blockMap
      pure { s with key := k, keyAllowed := !s.inFlow }
  return s.emit .value s.glyphs.tail

/-- The outcome of reading a token that begins here.  A fault at the end of the text comes before
problems that are met there. -/
def settle {α : Type} (fault? : Option Problem) (s : Scan) (r : Reading α) :
    Except FormError (α × List Glyph) :=
  match r, fault? with
  | .ok (_, []), some fault => .error (.anywhere fault)
  | .ok found, _ => .ok found
  | .error (_, []), some fault | .error (_, [_]), some fault => .error (.anywhere fault)
  | .error (problem, rest), _ =>
    .error (.inToken s.here { s with glyphs := rest }.here problem)

def fetchDirective (fault? : Option Problem) (s : Scan) : Except FormError Scan := do
  let s ← (s.unindent (fun _ => true) s.here).dropKey
  let (kind, rest) ← s.settle fault? (Directive.read s.glyphs.tail)
  return { s with keyAllowed := false }.emit kind rest

/-- A token that may begin a key. -/
def fetchStart (fault? : Option Problem) (s : Scan) (read : List Glyph → Reading Token.Kind) :
    Except FormError Scan := do
  let s ← s.saveKey
  let (kind, rest) ← s.settle fault? (read s.glyphs.tail)
  return { s with keyAllowed := false }.emit kind rest

def fetchQuoted (fault? : Option Problem) (s : Scan) (quote : Char) : Except FormError Scan :=
  s.fetchStart fault? fun gs =>
    (Quoted.read quote [] false [] gs).map fun text => .scalar .quoted (String.ofList text)

def fetchAnchor (fault? : Option Problem) (s : Scan) (kind : String → Token.Kind) :
    Except FormError Scan :=
  s.fetchStart fault? fun gs => (anchorName gs).map kind

def fetchTag (fault? : Option Problem) (s : Scan) : Except FormError Scan :=
  s.fetchStart fault? fun gs => Reading.map .tag (Tag.read gs)

def fetchPlain (fault? : Option Problem) (s : Scan) : Except FormError Scan := do
  let s ← s.saveKey
  let ((text, crossed), rest) ← s.settle fault? (Plain.read s.inFlow s.floor [] [] s.glyphs)
  return { s with keyAllowed := crossed }.emit (.scalar .plain (String.ofList text)) rest

def fetchBlock (fault? : Option Problem) (s : Scan) (literal : Bool) : Except FormError Scan := do
  let s ← s.dropKey
  let (text, rest) ← s.settle fault? (Block.read literal s.floor s.glyphs.tail)
  return { s with keyAllowed := true }.emit (.scalar .block (String.ofList text)) rest

/-- Whether a plain scalar may begin with a character, given what follows it. -/
def startsPlain (flow : Bool) (c : Char) (rest : List Glyph) : Bool :=
  if c = '-' then !atBlank rest
  else if c = '?' ∨ c = ':' then !flow && !atGap rest
  else !isGap c && c ∉ ",[]\x7b\x7d#&*!|>'\"%@\x60".toList

/-- A token that begins with a character; `rest` are the characters after it. -/
def fetchToken (fault? : Option Problem) (s : Scan) (c : Char) (rest : List Glyph) :
    Except FormError Scan :=
  let flow := s.inFlow
  match c with
  | '[' => s.fetchFlowStart .flowSeq
  | '\x7b' => s.fetchFlowStart .flowMap
  | ']' => s.fetchFlowEnd .flowSeqEnd
  | '\x7d' => s.fetchFlowEnd .flowMapEnd
  | ',' => s.fetchComma
  | '*' => s.fetchAnchor fault? .reference
  | '&' => s.fetchAnchor fault? .anchor
  | '!' => s.fetchTag fault?
  | '\'' | '"' => s.fetchQuoted fault? c
  | _ =>
    if c = '-' ∧ atGap rest then s.fetchEntry
    else if c = '?' ∧ (flow ∨ atGap rest) then s.fetchKey
    else if c = ':' ∧ (flow ∨ atGap rest) then s.fetchValue
    else if (c = '|' ∨ c = '>') ∧ !flow then s.fetchBlock fault? (c == '|')
    else if startsPlain flow c rest then s.fetchPlain fault?
    else s.refuse .cannotStartToken

/-- The next token, with those that it opens or closes.  A fault within four characters of a token
comes before the token. -/
def fetch (fault? : Option Problem) (s : Scan) : Except FormError Scan := do
  let before := s.here
  let (glyphs, keyAllowed) := skipGap s.inFlow .outside s.keyAllowed s.glyphs
  let s := { s with glyphs, keyAllowed }
  let column := s.here.column
  let s := s.unindent (fun indent => column < indent) before
  if (glyphs.drop 3).isEmpty then
    if let some fault := fault? then throw (.anywhere fault)
  match glyphs with
  | [] => s.fetchEnd
  | g :: rest =>
    if g.mark.column = 0 ∧ g.char = '%' then s.fetchDirective fault?
    else
      match documentMark? glyphs with
      | some kind => s.fetchDocumentMark kind
      | none =>
        let next ← s.fetchToken fault? g.char rest
        if next.pending.getLast?.any (·.kind = .entry) then return next
        else return next.skipLineComment

/-! ## All tokens -/

/-- Looks at the candidate that a token waits for, if there is one, and tells whether it is open. -/
def reviewFor (s : Scan) (number : Nat) : List Candidate → Except FormError (Bool × List Candidate)
  | [] => .ok (false, [])
  | k :: ks => do
    if number ∈ k.waiting then
      let k ← s.review k
      return (k.possible, k :: ks)
    else
      let (waits, ks) ← s.reviewFor number ks
      return (waits, k :: ks)

/-- Whether the first token has to wait for a candidate. -/
def firstWaits (s : Scan) : Except FormError (Bool × Scan) := do
  if s.taken ∈ s.key.waiting then
    let key ← s.review s.key
    return (key.possible, { s with key })
  else
    let (waits, outer) ← s.reviewFor s.taken s.outer
    return (waits, { s with outer })

/-- Lets tokens go that need not wait, in front of `gone`, the last one first.  An error that shows
on the way is kept. -/
def release (s : Scan) (gone : List Token) : List Token → Except FormError Scan × List Token
  | t :: t' :: t'' :: ts =>
    let s := { s with pending := t :: t' :: t'' :: ts }
    match s.firstWaits with
    | .error e => (.error e, gone)
    | .ok (true, s) => (.ok s, gone)
    | .ok (false, s) =>
      release { s with taken := s.taken + 1 } (t :: gone) (t' :: t'' :: ts)
  | ts => (.ok { s with pending := ts }, gone)

/-- Takes up to a number of tokens.  `gone` are those that need not wait, the last one first. -/
def run (fault? : Option Problem) : Nat → Scan → List Token → Tokens
  | 0, s, gone => ⟨gone.reverse, .ok s.finish⟩
  | n + 1, s, gone =>
    match s.fetch fault? with
    | .error e => ⟨gone.reverse, .error e⟩
    | .ok s =>
      match s.release gone s.pending with
      | (.error e, gone) => ⟨gone.reverse, .error e⟩
      | (.ok _, ⟨.streamEnd, mark⟩ :: gone) => ⟨gone.reverse, .ok mark⟩
      | (.ok s, gone) => run fault? n s gone

end Scan

/-- The tokens of a text.  Each step takes a character, up to the end, which is met three times so
that no token is left waiting. -/
def Tokens.ofSource (source : Source) : Tokens :=
  Scan.run source.fault? (source.glyphs.length + 3) (.start source) []

end Monkey.Yaml

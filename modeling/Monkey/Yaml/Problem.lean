/-!
# What can be wrong with a YAML text

The problems by their causes, from bytes that are no characters up to nodes in the wrong place, and
their wording.  A problem is reported with the line it was met on, counted from one; the first line
is not named.
-/

namespace Monkey.Yaml

inductive Problem where
  /-- Bytes that are no characters of a text. -/
  | leadingOctet
  | incompleteOctets
  | trailingOctet
  | octetCount
  | notACharacter
  | incompleteUnit
  | strayLowSurrogate
  | incompletePair
  | noLowSurrogate
  | controlCharacter
  /-- Characters that make no token. -/
  | cannotStartToken
  | noDirectiveName
  | directiveNameEnd
  | unknownDirective
  | noVersion
  | longVersion
  | noVersionPoint
  | noTagMark
  | noBlank
  | noBlankOrBreak
  | noTagUri
  | noUriOctet
  | uriLeadingOctet
  | uriTrailingOctet
  | noTagClose
  | noCommentOrBreak
  | noAnchorName
  | documentInQuotes
  | openQuotes
  | unknownEscape
  | noHexDigit
  | escapeRange
  | tabInPlain
  | tabInBlock
  | zeroIndent
  /-- Tokens where they may not stand. -/
  | noColon
  | entryNotAllowed
  | keyNotAllowed
  | valueNotAllowed
  | tooDeep
  /-- Tokens that make no node. -/
  | noDocumentStart
  | versionTwice
  | otherVersion
  | tagTwice
  | unknownHandle
  | noContent
  | noDash
  | noKey
  | noCommaOrBracket
  | noCommaOrBrace
  /-- A node that is not there. -/
  | unknownAnchor (name : String)
  deriving DecidableEq

namespace Problem

/-- How deep collections may be nested. -/
def maxDepth : Nat := 10000

def text : Problem → String
  | leadingOctet => "invalid leading UTF-8 octet"
  | incompleteOctets => "incomplete UTF-8 octet sequence"
  | trailingOctet => "invalid trailing UTF-8 octet"
  | octetCount => "invalid length of a UTF-8 sequence"
  | notACharacter => "invalid Unicode character"
  | incompleteUnit => "incomplete UTF-16 character"
  | strayLowSurrogate => "unexpected low surrogate area"
  | incompletePair => "incomplete UTF-16 surrogate pair"
  | noLowSurrogate => "expected low surrogate area"
  | controlCharacter => "control characters are not allowed"
  | cannotStartToken => "found character that cannot start any token"
  | noDirectiveName => "could not find expected directive name"
  | directiveNameEnd => "found unexpected non-alphabetical character"
  | unknownDirective => "found unknown directive name"
  | noVersion => "did not find expected version number"
  | longVersion => "found extremely long version number"
  | noVersionPoint => "did not find expected digit or '.' character"
  | noTagMark => "did not find expected '!'"
  | noBlank => "did not find expected whitespace"
  | noBlankOrBreak => "did not find expected whitespace or line break"
  | noTagUri => "did not find expected tag URI"
  | noUriOctet => "did not find URI escaped octet"
  | uriLeadingOctet => "found an incorrect leading UTF-8 octet"
  | uriTrailingOctet => "found an incorrect trailing UTF-8 octet"
  | noTagClose => "did not find the expected '>'"
  | noCommentOrBreak => "did not find expected comment or line break"
  | noAnchorName => "did not find expected alphabetic or numeric character"
  | documentInQuotes => "found unexpected document indicator"
  | openQuotes => "found unexpected end of stream"
  | unknownEscape => "found unknown escape character"
  | noHexDigit => "did not find expected hexdecimal number"
  | escapeRange => "found invalid Unicode character escape code"
  | tabInPlain => "found a tab character that violates indentation"
  | tabInBlock => "found a tab character where an indentation space is expected"
  | zeroIndent => "found an indentation indicator equal to 0"
  | noColon => "could not find expected ':'"
  | entryNotAllowed => "block sequence entries are not allowed in this context"
  | keyNotAllowed => "mapping keys are not allowed in this context"
  | valueNotAllowed => "mapping values are not allowed in this context"
  | tooDeep => "exceeded max depth of " ++ toString maxDepth
  | noDocumentStart => "did not find expected <document start>"
  | versionTwice => "found duplicate %YAML directive"
  | otherVersion => "found incompatible YAML document"
  | tagTwice => "found duplicate %TAG directive"
  | unknownHandle => "found undefined tag handle"
  | noContent => "did not find expected node content"
  | noDash => "did not find expected '-' indicator"
  | noKey => "did not find expected key"
  | noCommaOrBracket => "did not find expected ',' or ']'"
  | noCommaOrBrace => "did not find expected ',' or '\x7d'"
  | unknownAnchor name => "unknown anchor '" ++ name ++ "' referenced"

end Problem

/-- A place in a text; lines and columns count from zero. -/
structure Mark where
  line : Nat
  column : Nat
  deriving DecidableEq

/-- A problem and the line that is named with it; line 0 is not named. -/
structure FormError where
  line : Nat
  problem : Problem
  deriving DecidableEq

namespace FormError

def message (e : FormError) : String :=
  (if e.line = 0 then "" else "line " ++ toString e.line ++ ": ") ++ e.problem.text

/-- A problem without a place. -/
def anywhere (problem : Problem) : FormError := ⟨0, problem⟩

/-- The line of what was begun, unless that is the first; else the line that was reached. -/
def telling (start reached : Mark) : Nat := if start.line = 0 then reached.line else start.line

/-- A problem inside a token that began at `start`. -/
def inToken (start reached : Mark) (problem : Problem) : FormError :=
  let line := telling start reached
  ⟨if line = 0 then 0 else line + 1, problem⟩

/-- A problem in how tokens follow each other.  The line named is the one before. -/
def inStructure (start reached : Mark) (problem : Problem) : FormError :=
  ⟨telling start reached, problem⟩

end FormError

end Monkey.Yaml

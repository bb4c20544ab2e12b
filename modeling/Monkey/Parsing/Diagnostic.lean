import Monkey.Token

/-!
# What parsing reports

Parsing goes on after an error and collects all of them.  When asked to, it also records which rules
it entered and left, as a list of events that is written out with one tab for every rule still open.
-/

namespace Monkey

inductive ParseError where
  /-- Another token was needed at this place. -/
  | expected (want got : Token.Kind)
  /-- No expression begins with this token. -/
  | noExpression (got : Token.Kind)
  /-- The number does not fit in a signed 64-bit word. -/
  | integerRange (digits : String)
  /-- A parameter has to be an identifier. -/
  | parameter (got : Token.Kind)
  deriving DecidableEq

/-- The wording of a parse error. -/
def ParseError.message : ParseError → String
  | expected want got =>
    "expected next token to be " ++ want.name ++ ", got " ++ got.name ++ " instead"
  | noExpression got => "no prefix parse function for " ++ got.name ++ " found"
  | integerRange digits => "could not parse \"" ++ digits ++ "\" as integer"
  | parameter got =>
    "expected parameter to be " ++ Token.Kind.ident.name ++ ", got " ++ got.name ++ " instead"

/-- The rules whose use is recorded. -/
inductive Rule where
  | statement
  | expression
  | integer
  | unary
  | binary
  deriving DecidableEq

/-- The name of a rule in the record. -/
def Rule.label : Rule → String
  | statement => "parseExpressionStatement"
  | expression => "parseExpression"
  | integer => "parseIntegerLiteral"
  | unary => "parsePrefixExpression"
  | binary => "parseInfixExpression"

inductive TraceEvent where
  | enter (rule : Rule)
  | leave (rule : Rule)
  deriving DecidableEq

namespace TraceEvent

/-- One line of the record: as many tabs as there are rules open around it, then the event. -/
def line (depth : Nat) (word : String) (rule : Rule) : String :=
  "".pushn '\t' depth ++ word ++ " " ++ rule.label ++ "\n"

/-- The lines of a record that begins with `depth` rules open. -/
def lines : Nat → List TraceEvent → List String
  | _, [] => []
  | depth, enter r :: es => line depth "BEGIN" r :: lines (depth + 1) es
  | depth, leave r :: es => line (depth - 1) "END" r :: lines (depth - 1) es

/-- The text of a whole record. -/
def render (es : List TraceEvent) : String := String.join (lines 0 es)

end TraceEvent

end Monkey

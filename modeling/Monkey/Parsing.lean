import Monkey.Parsing.Grammar
import Monkey.Token.Scan

/-!
# Parsing a text

The program that a text stands for, with all errors met on the way.  Statements that could be read
are kept even if others could not.
-/

namespace Monkey

structure Parse where
  program : Program
  errors : List ParseError
  trace : List TraceEvent

/-- Parses a list of tokens. -/
def Parse.ofTokens (tracing : Bool) (ts : List Token) : Parse :=
  let r := Grammar.statements tracing ts
  ⟨⟨r.value⟩, r.errors, r.trace⟩

/-- Parses a text. -/
def parse (tracing : Bool) (source : String) : Parse :=
  Parse.ofTokens tracing (Token.scan source.toList)

/-- The wording of a list of parse errors as one message. -/
def ParseError.summary (errors : List ParseError) : String :=
  match errors with
  | [e] => "parse error: " ++ e.message
  | _ => "parse errors: " ++ "; ".intercalate (errors.map ParseError.message)

end Monkey

import Monkey.Evaluation
import Monkey.Log
import Monkey.Parsing

/-!
# The interpreter

Parsing and evaluation of whole sources in one scope, with log records.  A source that does not
parse without errors is not evaluated.
-/

namespace Monkey

structure Interpreter where
  /-- The scope in which sources are evaluated. -/
  scope : Nat
  /-- Whether parsing records the rules it uses. -/
  tracing : Bool
  /-- How deeply function calls may nest. -/
  depth : Nat

/-- The interpreter for the first scope; calls nest without a limit that could be met in practice.
-/
def Interpreter.standard : Interpreter := ⟨0, false, UInt64.size / 4⟩

/-- What evaluating a source comes to. -/
inductive Answer where
  | value (v : Option Value)
  | parseErrors (errors : List ParseError)
  | runtimeError (message : String)
  /-- The source could not be read. -/
  | unread (reason : String)
  | missing
  | exhausted

namespace Answer

/-- An error value as the final result is a runtime error. -/
def ofOutcome : Outcome → Answer
  | .value (some (.error message)) => runtimeError message
  | .value v => value v
  | .missing => missing
  | .exhausted => exhausted

end Answer

def Outcome.kind? : Outcome → Option Value.Kind
  | value v => v.map Value.kind
  | _ => none

/-- A result with the records made on the way. -/
structure Logged (α : Type) where
  result : α
  events : List Log.Event
  trace : List TraceEvent

namespace Interpreter

/-- The program of a source, unless there is an error. -/
def parse (i : Interpreter) (source : String) : Logged (Except (List ParseError) Program) :=
  let p := Monkey.parse i.tracing source
  if p.errors.isEmpty then
    ⟨.ok p.program, [.parsed p.program.statements.length], p.trace⟩
  else
    ⟨.error p.errors, [.parseFailed p.errors.length], p.trace⟩

/-- Evaluates a program. -/
def run (i : Interpreter) (p : Program) (s : Scopes) : Logged Outcome × Scopes :=
  let (outcome, s) := Eval.outcome (p.eval i.depth i.scope) s
  (⟨outcome, [.evaluated outcome.kind?], []⟩, s)

/-- Parses and evaluates a source. -/
def eval (i : Interpreter) (source : String) (s : Scopes) : Logged Answer × Scopes :=
  let parsed := i.parse source
  match parsed.result with
  | .error errors => (⟨.parseErrors errors, parsed.events, parsed.trace⟩, s)
  | .ok program =>
    let (ran, s) := i.run program s
    (⟨.ofOutcome ran.result, parsed.events ++ ran.events, parsed.trace⟩, s)

/-- Evaluates a source that is still to be read, or reports why it could not be read. -/
def evalRead (i : Interpreter) (source : Except String String) (s : Scopes) :
    Logged Answer × Scopes :=
  match source with
  | .ok source => i.eval source s
  | .error reason => (⟨.unread ("read source: " ++ reason), [.sourceUnread reason], []⟩, s)

end Interpreter

end Monkey

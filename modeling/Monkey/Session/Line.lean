import Monkey.Config
import Monkey.Session.Reply
import Monkey.Text.Lines

/-!
# Line sessions

A session that reads its input line by line.  The prompt is shown before every line and before the
end of the input; a line that is too long ends the session.
-/

namespace Monkey

inductive SessionError where
  | lineTooLong
  | invalidPrompt
  deriving DecidableEq

def SessionError.message : SessionError → String
  | lineTooLong => "repl: read input: bufio.Scanner: token too long"
  | invalidPrompt => "repl: read input: invalid prompt"

/-- A session from its beginning to its end. -/
structure Session where
  output : String
  error? : Option SessionError
  events : List Log.Event
  trace : List TraceEvent
  scopes : Scopes

/-- The interpreter of a session with some settings. -/
def Config.interpreter (c : Config) : Interpreter :=
  { Interpreter.standard with tracing := c.traceParser }

namespace Session

/-- The most bytes a line may have. -/
def lineLimit : Nat := 65535

/-- A session on lines that have been read already, in scopes that earlier ones may have left. -/
def resume (i : Interpreter) (c : Config) (s : Scopes) (input : Text.LineReading) : Session :=
  let t := Transcript.ofLines i input.lines s
  { output := t.render c.prompt c.colored ++ (if t.left then "" else c.prompt)
    error? := if !t.left && input.overlong then some .lineTooLong else none
    events := [.sessionStarted .line none] ++ t.events ++ [.sessionFinished .line]
    trace := t.trace
    scopes := t.scopes }

/-- A session on lines that have been read already. -/
def ofReading (c : Config) (input : Text.LineReading) : Session :=
  resume c.interpreter c Scopes.fresh input

/-- A session on an input. -/
def ofInput (c : Config) (input : String) : Session := ofReading c (.of lineLimit input)

end Session

end Monkey

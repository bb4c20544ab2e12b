import Monkey.Interpreter
import Monkey.Text.Category

/-!
# Replies of a session

What a session makes of one line.  A line is tried without the white space around it for being
empty or a word that ends the session; otherwise all of it is parsed and, if there is no error,
evaluated.
-/

namespace Monkey

inductive Reply where
  /-- The session ends. -/
  | leave
  | blank
  /-- The line does not parse. -/
  | refused (errors : List ParseError)
  | result (outcome : Outcome)

namespace Reply

def leaves : Reply → Bool
  | leave => true
  | _ => false

/-- The words that end a session. -/
def leavingWords : List String := ["exit", "quit"]

def red (s : String) : String := "\x1b[31m" ++ s ++ "\x1b[0m"

/-- Errors are red if there is colour. -/
def paint (colored : Bool) (s : String) : String := if colored then red s else s

/-- A value on a line of its own. -/
def renderValue (colored : Bool) : Value → String
  | .error message => paint colored (Value.error message).inspect ++ "\n"
  | v => v.inspect ++ "\n"

/-- What is shown: errors each with an empty line after it, or the value if there is one. -/
def render (colored : Bool) : Reply → String
  | refused errors => String.join (errors.map fun e => paint colored e.message ++ "\n\n")
  | result (.value (some v)) => renderValue colored v
  | leave | blank | result _ => ""

end Reply

/-- What a line comes to. -/
def Interpreter.reply (i : Interpreter) (line : String) (s : Scopes) : Logged Reply × Scopes :=
  let word := Text.trim line
  if word ∈ Reply.leavingWords then (⟨.leave, [], []⟩, s)
  else if word = "" then (⟨.blank, [], []⟩, s)
  else
    let parsed := i.parse line
    match parsed.result with
    | .error errors => (⟨.refused errors, parsed.events, parsed.trace⟩, s)
    | .ok program =>
      let (ran, s) := i.run program s
      (⟨.result ran.result, parsed.events ++ ran.events, parsed.trace⟩, s)

/-- The replies to lines one after the other, up to the first that ends the session. -/
structure Transcript where
  replies : List Reply
  events : List Log.Event
  trace : List TraceEvent
  scopes : Scopes

namespace Transcript

def ofLines (i : Interpreter) : List String → Scopes → Transcript
  | [], s => ⟨[], [], [], s⟩
  | line :: lines, s =>
    let (r, s) := i.reply line s
    if r.result.leaves then ⟨[r.result], r.events, r.trace, s⟩
    else
      let t := ofLines i lines s
      ⟨r.result :: t.replies, r.events ++ t.events, r.trace ++ t.trace, t.scopes⟩

/-- Whether a line ended the session. -/
def left (t : Transcript) : Bool := t.replies.any Reply.leaves

/-- The replies, each after a prompt. -/
def render (prompt : String) (colored : Bool) (t : Transcript) : String :=
  String.join (t.replies.map fun r => prompt ++ r.render colored)

end Transcript

end Monkey

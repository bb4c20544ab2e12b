import Monkey.Value

/-!
# Log records

What the interpreter and its sessions report about themselves, each record with its level and
fields.
-/

namespace Monkey.Log

inductive Level where
  | debug
  | info
  | warn
  | error
  deriving DecidableEq

namespace Level

def rank : Level → Nat
  | debug => 0
  | info => 1
  | warn => 2
  | error => 3

def name : Level → String
  | debug => "debug"
  | info => "info"
  | warn => "warn"
  | error => "error"

def all : List Level := [debug, info, warn, error]

def ofName? (s : String) : Option Level := all.find? (·.name = s)

end Level

inductive Mode where
  | line
  | interactive
  deriving DecidableEq

def Mode.name : Mode → String
  | line => "line"
  | interactive => "interactive"

/-- What was being done with the history file when it failed. -/
inductive HistoryStep where
  | opening
  | reading
  | creating
  | writing
  deriving DecidableEq

def HistoryStep.verb : HistoryStep → String
  | opening => "open"
  | reading => "read"
  | creating => "create"
  | writing => "write"

inductive Event where
  | parsed (statements : Nat)
  | parseFailed (errors : Nat)
  /-- A program was evaluated, to a value of this kind or to none. -/
  | evaluated (kind : Option Value.Kind)
  | sourceUnread (error : String)
  | sessionStarted (mode : Mode) (history : Option String)
  | sessionFinished (mode : Mode)
  | historyFailed (step : HistoryStep) (error path : String)
  deriving DecidableEq

inductive Field where
  | number (n : Nat)
  | text (s : String)
  deriving DecidableEq

namespace Event

def level : Event → Level
  | parsed _ | parseFailed _ | evaluated _ => .debug
  | sourceUnread _ => .error
  | sessionStarted _ _ | sessionFinished _ => .info
  | historyFailed _ _ _ => .warn

def message : Event → String
  | parsed _ => "parsed program"
  | parseFailed _ => "parse failed"
  | evaluated _ => "evaluated program"
  | sourceUnread _ => "failed to read source"
  | sessionStarted _ _ => "repl session started"
  | sessionFinished _ => "repl session finished"
  | historyFailed step _ _ => "failed to " ++ step.verb ++ " history"

def fields : Event → List (String × Field)
  | parsed n => [("statements", .number n)]
  | parseFailed n => [("errors", .number n)]
  | evaluated kind => kind.toList.map fun k => ("type", .text k.name)
  | sourceUnread e => [("error", .text e)]
  | sessionStarted mode history =>
    ("mode", .text mode.name) :: history.toList.map fun h => ("history", .text h)
  | sessionFinished mode => [("mode", .text mode.name)]
  | historyFailed _ e path => [("error", .text e), ("path", .text path)]

end Event

/-- The records at or above a level. -/
def atLeast (least : Level) (events : List Event) : List Event :=
  events.filter fun e => least.rank ≤ e.level.rank

end Monkey.Log

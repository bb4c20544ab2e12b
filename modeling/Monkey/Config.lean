import Monkey.Log
import Monkey.Path
import Monkey.Text.Quoted

/-!
# Settings

The settings of a session and their default values.  Two of them must be one of a few words; the
history file lies in the home directory unless its path is absolute.
-/

namespace Monkey

structure Config where
  prompt : String
  historyFile : String
  color : String
  logLevel : String
  traceParser : Bool
  deriving DecidableEq

/-- A setting that is not one of the words it may be. -/
inductive ConfigProblem where
  | color (word : String)
  | logLevel (word : String)
  deriving DecidableEq

def ConfigProblem.message : ConfigProblem → String
  | color w => "unknown color " ++ Text.quote w ++ " (want auto, always or never)"
  | logLevel w => "unknown log_level " ++ Text.quote w ++ " (want debug, info, warn or error)"

namespace Config

def standard : Config := ⟨">> ", ".monkey_history", "auto", "warn", false⟩

/-- The first setting that is not one of its words. -/
def problem? (c : Config) : Option ConfigProblem :=
  if c.color ∉ ["auto", "always", "never"] then some (.color c.color)
  else if (Log.Level.ofName? c.logLevel).isNone then some (.logLevel c.logLevel)
  else none

/-- Where the history is kept; empty if it is not kept or the home directory is unknown. -/
def historyPath (c : Config) (home : Option String) : String :=
  if c.historyFile = "" then ""
  else if Path.isAbsolute c.historyFile then c.historyFile
  else
    match home with
    | none | some "" => ""
    | some home => Path.join home c.historyFile

/-- Whether errors are shown in colour, when the output is not a terminal. -/
def colored (c : Config) : Bool := c.color = "always"

/-- The records that are kept. -/
def keep (c : Config) (events : List Log.Event) : List Log.Event :=
  match Log.Level.ofName? c.logLevel with
  | some least => Log.atLeast least events
  | none => []

end Config

end Monkey

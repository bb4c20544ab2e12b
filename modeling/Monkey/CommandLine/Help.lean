import Monkey.CommandLine.Flag

/-!
# Help

The commands and flags there are, and the texts that explain them.
-/

namespace Monkey.CommandLine

def configFlag : Flag :=
  ⟨["config", "c"], true, "Path to a YAML configuration file [$MONKEY_CONFIG]"⟩

def logLevelFlag : Flag := ⟨["log-level"], true, "Log level (debug, info, warn, error)"⟩

def traceFlag : Flag := ⟨["trace"], false, "Write parser trace to stderr (default: false)"⟩

def helpFlag : Flag := ⟨["help", "h"], false, "show help"⟩

/-- The flags that stand before a command. -/
def globalFlags : List Flag := [configFlag, logLevelFlag, traceFlag, helpFlag]

/-- The flags that stand after a command. -/
def commandFlags : List Flag := [helpFlag]

inductive Command where
  | repl
  | run
  | parse
  deriving DecidableEq

namespace Command

def all : List Command := [repl, run, parse]

def name : Command → String
  | repl => "repl"
  | run => "run"
  | parse => "parse"

def usage : Command → String
  | repl => "Start an interactive session"
  | run => "Evaluate a source file and print its value"
  | parse => "Parse a source file and print the program"

/-- The arguments a command asks for. -/
def operands : Command → String
  | repl => ""
  | run | parse => " FILE"

def ofName? (name : String) : Option Command := all.find? (·.name = name)

end Command

/-- A flag by all its names. -/
def Flag.label (f : Flag) : String :=
  ", ".intercalate (f.names.map fun n =>
    (if n.length = 1 then "-" else "--") ++ n ++ (if f.valued then " value" else ""))

namespace Help

/-- Lines of two columns. -/
def table (rows : List (String × String)) : String :=
  let width := rows.foldl (fun w (label, _) => max w label.length) 0
  String.join (rows.map fun (label, text) =>
    "   " ++ label ++ String.ofList (List.replicate (width - label.length + 2) ' ') ++ text ++ "\n")

def flagTable (flags : List Flag) : String := table (flags.map fun f => (f.label, f.usage))

/-- The help on everything. -/
def program : String :=
  "NAME:\n   monkey - Monkey programming language interpreter\n\n" ++
  "USAGE:\n   monkey [global options] command [command options]\n\n" ++
  "COMMANDS:\n" ++ table (Command.all.map fun c => (c.name, c.usage)) ++ "\n" ++
  "GLOBAL OPTIONS:\n" ++ flagTable globalFlags

/-- What a text of help is about. -/
structure Topic where
  title : String
  usage : String
  /-- The arguments it asks for. -/
  operands : String

def Topic.ofCommand (c : Command) : Topic := ⟨"monkey " ++ c.name, c.usage, c.operands⟩

/-- The names of the command for help that every command has. -/
def helpNames : List String := ["help", "h"]

/-- The command for help inside another topic. -/
def Topic.help (t : Topic) : Topic :=
  ⟨t.title ++ " help", "Shows a list of commands or help for one command", " [command]"⟩

/-- The help on one topic. -/
def topic (t : Topic) : String :=
  "NAME:\n   " ++ t.title ++ " - " ++ t.usage ++ "\n\n" ++
  "USAGE:\n   " ++ t.title ++ " [command options]" ++ t.operands ++ "\n\n" ++
  "OPTIONS:\n" ++ flagTable commandFlags

/-- The help on one topic with its command for help. -/
def overview (t : Topic) : String :=
  "NAME:\n   " ++ t.title ++ " - " ++ t.usage ++ "\n\n" ++
  "USAGE:\n   " ++ t.title ++ " command [command options]" ++ t.operands ++ "\n\n" ++
  "COMMANDS:\n" ++ table [(", ".intercalate helpNames, t.help.usage)] ++ "\n" ++
  "OPTIONS:\n" ++ flagTable commandFlags

/-- What is shown when flags cannot be understood. -/
def misuse (e : FlagError) (help : String) : String :=
  "Incorrect Usage: " ++ e.message ++ "\n\n" ++ help

end Help

end Monkey.CommandLine

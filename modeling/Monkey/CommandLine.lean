import Monkey.CommandLine.Help
import Monkey.Config.Decode
import Monkey.Program.Render
import Monkey.Session.Line

/-!
# The command line

Flags are read first; help comes before everything else.  Then the settings are made from a file
and the flags, and the command is carried out.  What is not the name of a command starts a
session.
-/

namespace Monkey.CommandLine

/-- Why a command line came to nothing. -/
inductive Failure where
  | flags (error : FlagError)
  | noTopic (name : String)
  | config (error : Config.LoadError)
  | setting (problem : ConfigProblem)
  | operands (command : Command) (count : Nat)
  | unread (path : String) (error : FileError)
  | session (error : SessionError)
  /-- The errors have been shown already. -/
  | diagnosed

def Failure.message : Failure → String
  | flags e => e.message
  | noTopic name => "No help topic for '" ++ name ++ "'"
  | config e => e.message
  | setting p => p.message
  | operands c count =>
    c.name ++ ": expected exactly one FILE argument, got " ++ toString count
  | unread path e => "read " ++ path ++ ": " ++ e.message
  | session e => e.message
  | diagnosed => "monkey: failed"

/-- Whether the errors have been shown already. -/
def Failure.isDiagnosed : Failure → Bool
  | diagnosed => true
  | _ => false

/-- What carrying out a command line comes to. -/
structure Report where
  output : String := ""
  diagnostics : String := ""
  /-- The records that are kept. -/
  events : List Log.Event := []
  /-- The rules that parsing used in a session. -/
  sessionTrace : List TraceEvent := []
  failure? : Option Failure := none

namespace Report

def failed (f : Failure) : Report := { failure? := some f }

def lines (ls : List String) : String := String.join (ls.map (· ++ "\n"))

/-- The report on a session. -/
def ofSession (c : Config) (s : Session) : Report :=
  { output := s.output
    events := c.keep s.events
    sessionTrace := s.trace
    failure? := s.error?.map .session }

/-- A report with errors that are shown. -/
def diagnosed (c : Config) (events : List Log.Event) (trace : List TraceEvent)
    (messages : List String) : Report :=
  { diagnostics := TraceEvent.render trace ++ lines messages
    events := c.keep events
    failure? := some .diagnosed }

/-- A report with output. -/
def printed (c : Config) (events : List Log.Event) (trace : List TraceEvent)
    (texts : List String) : Report :=
  { output := lines texts
    diagnostics := TraceEvent.render trace
    events := c.keep events }

end Report

/-- Evaluates a source and shows its value. -/
def runSource (c : Config) (source : String) : Report :=
  let r := (c.interpreter.eval source Scopes.fresh).1
  match r.result with
  | .value v => .printed c r.events r.trace (v.toList.map Value.inspect)
  | .parseErrors errors => .diagnosed c r.events r.trace (errors.map ParseError.message)
  | .runtimeError message => .diagnosed c r.events r.trace [(Value.error message).inspect]
  | .unread _ | .missing | .exhausted => .diagnosed c r.events r.trace []

/-- Parses a source and shows the program. -/
def parseSource (c : Config) (source : String) : Report :=
  let r := c.interpreter.parse source
  match r.result with
  | .ok program => .printed c r.events r.trace [program.render]
  | .error errors => .diagnosed c r.events r.trace (errors.map ParseError.message)

/-- What a command line needs from outside. -/
structure World (m : Type → Type) where
  read : String → m (Except FileError (List UInt8))
  session : Config → m Session
  /-- The path of a file with settings, unless a flag names one. -/
  configPath : String

variable {m : Type → Type} [Monad m]

/-- Settings that flags override. -/
def override (g : Given) (c : Config) : Except Failure Config :=
  let c := match g.value? logLevelFlag with
    | some level => { c with logLevel := level }
    | none => c
  let c := if g.isOn traceFlag then { c with traceParser := true } else c
  match c.problem? with
  | some p => .error (.setting p)
  | none => .ok c

/-- The settings for a command line. -/
def settings (w : World m) (g : Given) : m (Except Failure Config) := do
  match ← Config.load w.read ((g.value? configFlag).getD w.configPath) with
  | .error e => return .error (.config e)
  | .ok c => return override g c

/-- A command on the one file it asks for. -/
def onFile (w : World m) (command : Command) (args : List String) (act : String → Report) :
    m Report := do
  match args with
  | [path] =>
    match ← w.read path with
    | .ok bytes => return act (Utf8.decode bytes)
    | .error e => return .failed (.unread path e)
  | args => return .failed (.operands command args.length)

/-- A report on flags that cannot be understood. -/
def Report.misused (e : FlagError) (help : String) : Report :=
  { output := Help.misuse e help, failure? := some (.flags e) }

/-- Carries out the command for help.  `around` is the topic it is used in and `help` the command
itself, which has a command for help too. -/
def performHelp (around help : Help.Topic) (args : List String) : Report :=
  match h : Given.ofArgs commandFlags args with
  | .error e => .misused e (Help.overview help)
  | .ok g =>
    match hg : g.arguments with
    | [] | "" :: _ => { output := Help.topic around }
    | name :: rest =>
      if name ∉ Help.helpNames then .failed (.noTopic name)
      else if g.isOn helpFlag then { output := Help.overview help }
      else
        have : rest.length < args.length := by
          have := Given.length_arguments_of_ofArgs h
          simp only [hg, List.length_cons] at this
          omega
        performHelp help help rest
termination_by args.length

/-- Carries out a command, given what stands after its name. -/
def perform (w : World m) (c : Config) (command : Command) (args : List String) : m Report :=
  let topic := Help.Topic.ofCommand command
  match Given.ofArgs commandFlags args with
  | .error e => pure (.misused e (Help.overview topic))
  | .ok g =>
    match g.isOn helpFlag, g.arguments with
    | true, [] | true, "" :: _ => pure { output := Help.topic topic }
    | true, name :: _ =>
      if name ∈ Help.helpNames then pure { output := Help.topic topic.help }
      else pure (.failed (.noTopic name))
    | false, args =>
      if args.head?.any (· ∈ Help.helpNames) then pure (performHelp topic topic.help args.tail)
      else
        match command with
        | .repl => Report.ofSession c <$> w.session c
        | .run => onFile w command args (runSource c)
        | .parse => onFile w command args (parseSource c)

/-- The help on a topic; without one, on everything. -/
def helpOn : List String → Report
  | [] | "" :: _ => { output := Help.program }
  | name :: _ =>
    match Command.ofName? name with
    | some c => { output := Help.topic (.ofCommand c) }
    | none => .failed (.noTopic name)

/-- Carries out a command line. -/
def execute (w : World m) (args : List String) : m Report := do
  match Given.ofArgs globalFlags args with
  | .error e => return .misused e Help.program
  | .ok g =>
    if g.isOn helpFlag then return helpOn g.arguments
    match ← settings w g with
    | .error f => return .failed f
    | .ok c =>
      match g.arguments with
      | name :: rest =>
        match Command.ofName? name with
        | some command => perform w c command rest
        | none => Report.ofSession c <$> w.session c
      | [] => Report.ofSession c <$> w.session c

end Monkey.CommandLine

import Monkey.CommandLine
import Monkey.Session.Interactive

/-!
# The program

Standard input and output, files and the environment for the command line.  A session is
interactive if standard input is a terminal.
-/

namespace Monkey.Main

/-- What went wrong with a file; a directory in its place is noticed in the given action. -/
def fileError (onDirectory : FileError.Action) (path : String) : IO.Error → FileError
  | .noFileOrDirectory .. => ⟨.opening, path, .missing⟩
  | .inappropriateType _ code _ =>
    if code = 20 then ⟨.opening, path, .notDirectory⟩ else ⟨onDirectory, path, .isDirectory⟩
  | .invalidArgument .. => ⟨.opening, path, .badName⟩
  | e => ⟨.opening, path, .other (toString e)⟩

def readFile (path : String) : IO (Except FileError (List UInt8)) := do
  try
    return .ok (← IO.FS.readBinFile path).toList
  catch e => return .error (fileError .reading path e)

def writeFile (path : String) (bytes : List UInt8) : IO (Except FileError Unit) := do
  try
    IO.FS.writeBinFile path ⟨bytes.toArray⟩
    return .ok ()
  catch e => return .error (fileError .opening path e)

def say (s : String) : IO Unit := do
  let out ← IO.getStdout
  out.putStr s
  out.flush

/-- Reads all of standard input. -/
partial def readAll (input : IO.FS.Stream) (bytes : ByteArray) : IO ByteArray := do
  let more ← input.read 65536
  if more.isEmpty then return bytes
  readAll input (bytes ++ more)

/-- The replies to lines as they are typed. -/
partial def converse (c : Config) (t : Transcript) (h : History) : IO (Transcript × History) := do
  say c.prompt
  let line ← (← IO.getStdin).getLine
  if line.isEmpty then
    say "\n"
    return (t, h)
  let bytes := Utf8.encode line
  let bytes := ((Text.bufferedLines bytes).map Prod.fst).headD []
  let next := Transcript.ofLines c.interpreter [Utf8.decode bytes] t.scopes
  say (String.join (next.replies.map (Reply.render c.colored)))
  let t := ⟨t.replies ++ next.replies, t.events ++ next.events, t.trace ++ next.trace, next.scopes⟩
  let h := Interactive.remember h bytes
  if next.left then return (t, h) else converse c t h

/-- A session on a terminal; what is said has been shown when it ends. -/
def talk (c : Config) (path : String) (h : History) : IO (Session × History) := do
  let started := Log.Event.sessionStarted .interactive (some path)
  let finished := Log.Event.sessionFinished .interactive
  say Interactive.greeting
  if Interactive.promptAllowed c.prompt then
    let (t, h) ← converse c ⟨[], [], [], Scopes.fresh⟩ h
    return (⟨"", none, [started] ++ t.events ++ [finished], t.trace, t.scopes⟩, h)
  return (⟨"", some .invalidPrompt, [started, finished], [], Scopes.fresh⟩, h)

def session (c : Config) : IO Session := do
  let input ← IO.getStdin
  if ← input.isTty then
    let path := c.historyPath (← IO.getEnv "HOME")
    Interactive.run ⟨readFile, writeFile⟩ path (talk c path)
  else
    return Session.ofInput c (Utf8.decode (← readAll input .empty).toList)

def world : IO (CommandLine.World IO) := do
  return ⟨readFile, session, (← IO.getEnv "MONKEY_CONFIG").getD ""⟩

/-- A record as a line of text. -/
def eventLine (e : Log.Event) : String :=
  let fields := e.fields.map fun (name, f) =>
    match f with
    | .number n => " " ++ name ++ "=" ++ toString n
    | .text s => " " ++ name ++ "=" ++ Text.quote s
  e.level.name ++ " " ++ e.message ++ String.join fields ++ "\n"

end Monkey.Main

def main (args : List String) : IO UInt32 := do
  let r ← Monkey.CommandLine.execute (← Monkey.Main.world) args
  Monkey.Main.say r.output
  IO.eprint (String.join (r.events.map Monkey.Main.eventLine))
  IO.eprint (Monkey.TraceEvent.render r.sessionTrace ++ r.diagnostics)
  match r.failure? with
  | none => return 0
  | some f =>
    unless f.isDiagnosed do IO.eprintln f.message
    return 1

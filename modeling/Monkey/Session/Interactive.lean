import Monkey.File
import Monkey.Session.History
import Monkey.Session.Line

/-!
# Interactive sessions

A session with a greeting and a history.  The history is read from a file before the session and
written back after it; a history that cannot be read or written is only logged.
-/

namespace Monkey.Interactive

def greeting : String := "Welcome to Monkey! Type exit or quit to leave.\n"

/-- A prompt must not hold controls and the like. -/
def promptAllowed (prompt : String) : Bool := !prompt.toList.any Text.isOther

/-- The history in a file, given what reading the file came to.  A missing file is an empty
history. -/
def loadHistory (path : String) (content : Except FileError (List UInt8)) :
    History × List Log.Event :=
  match content with
  | .error e =>
    if e.isMissing then ([], [])
    else
      let step := if e.isOpen then Log.HistoryStep.opening else .reading
      ([], [.historyFailed step e.message path])
  | .ok bytes =>
    match History.ofBytes bytes with
    | (h, none) => (h, [])
    | (h, some e) => (h, [.historyFailed .reading e.message path])

/-- What is logged of writing the history. -/
def saveEvents (path : String) : Except FileError Unit → List Log.Event
  | .ok _ => []
  | .error e =>
    let step := if e.isOpen then Log.HistoryStep.creating else .writing
    [.historyFailed step e.message path]

/-- Adds a line to the history unless it is blank. -/
def remember (h : History) (line : List UInt8) : History :=
  if Text.trim (Utf8.decode line) = "" then h else h.add line

/-- A session on an input, and the history after it. -/
def session (c : Config) (path : String) (h : History) (input : List UInt8) : Session × History :=
  let lines := (Text.bufferedLines input).map Prod.fst
  let started := Log.Event.sessionStarted .interactive (some path)
  let finished := Log.Event.sessionFinished .interactive
  if promptAllowed c.prompt then
    let t := Transcript.ofLines c.interpreter (lines.map Utf8.decode) Scopes.fresh
    let ending := if t.left then "" else c.prompt ++ "\n"
    let output := greeting ++ t.render c.prompt c.colored ++ ending
    (⟨output, none, [started] ++ t.events ++ [finished], t.trace, t.scopes⟩,
      (lines.take t.replies.length).foldl remember h)
  else (⟨greeting, some .invalidPrompt, [started, finished], [], Scopes.fresh⟩, h)

/-- Ways to read and write files. -/
structure FileAccess (m : Type → Type) where
  read : String → m (Except FileError (List UInt8))
  write : String → List UInt8 → m (Except FileError Unit)

/-- A session that keeps its history at a path; no history is kept if the path is empty. -/
def run {m : Type → Type} [Monad m] (files : FileAccess m) (path : String)
    (talk : History → m (Session × History)) : m Session := do
  if path = "" then return (← talk []).1
  let (h, loading) := loadHistory path (← files.read path)
  let (s, h) ← talk h
  let saving := saveEvents path (← files.write path h.toBytes)
  return { s with events := loading ++ s.events ++ saving }

end Monkey.Interactive

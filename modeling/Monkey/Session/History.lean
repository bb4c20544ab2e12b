import Monkey.Log
import Monkey.Text.Lines

/-!
# History

The lines that were entered, oldest first.  A line that repeats the last one is not added, and
only so many are kept.  Entries are bytes: a line that comes in pieces may be cut inside a
character.
-/

namespace Monkey

abbrev History := List (List UInt8)

namespace History

/-- The most entries that are kept. -/
def limit : Nat := 1000

/-- Puts an entry at the end and lets go of the oldest if there are too many. -/
def append (h : History) (entry : List UInt8) : History :=
  let h := h ++ [entry]
  h.drop (h.length - limit)

/-- Adds an entry unless it repeats the last one. -/
def add (h : History) (entry : List UInt8) : History :=
  if h.getLast? = some entry then h else h.append entry

/-- What is wrong with a line of a history file. -/
inductive LineError where
  | tooLong (line : Nat)
  | invalid (line : Nat)
  deriving DecidableEq

def LineError.message : LineError → String
  | tooLong line => "line " ++ toString line ++ " is too long"
  | invalid line => "invalid string at line " ++ toString line

/-- Whether bytes are the encoding of a text. -/
def isText (bytes : List UInt8) : Bool := Utf8.encode (Utf8.decode bytes) = bytes

/-- The entries on the lines of a file, up to the first line that cannot be an entry. -/
def ofLines (h : History) (number : Nat) :
    List (List UInt8 × Bool) → History × Option LineError
  | [] => (h, none)
  | (bytes, unfinished) :: lines =>
    if unfinished then (h, some (.tooLong number))
    else if isText bytes then (h.append bytes).ofLines (number + 1) lines
    else (h, some (.invalid number))

def ofBytes (bytes : List UInt8) : History × Option LineError :=
  ofLines [] 1 (Text.bufferedLines bytes)

/-- The content of a file with one entry on each line. -/
def toBytes (h : History) : List UInt8 := h.flatMap (· ++ [10])

end History

end Monkey

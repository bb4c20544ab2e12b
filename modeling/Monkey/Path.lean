/-!
# Paths

Paths are joined and cleaned by their text alone: `.` and empty parts go, and `..` takes back the
part before it.
-/

namespace Monkey.Path

def isAbsolute (path : String) : Bool := path.startsWith "/"

/-- Adds a part to the parts before it, the last of which stands first. -/
def push (absolute : Bool) (parts : List String) (part : String) : List String :=
  if part = "" ∨ part = "." then parts
  else if part = ".." then
    match parts with
    | [] => if absolute then [] else [".."]
    | ".." :: _ => ".." :: parts
    | _ :: parts => parts
  else part :: parts

/-- The shortest path of the same meaning. -/
def clean (path : String) : String :=
  let absolute := isAbsolute path
  let parts := ((path.splitOn "/").foldl (push absolute) []).reverse
  let body := "/".intercalate parts
  if absolute then "/" ++ body else if parts.isEmpty then "." else body

/-- A path inside a directory; an empty directory counts for nothing. -/
def join (directory path : String) : String :=
  if directory = "" ∧ path = "" then ""
  else if directory = "" then clean path
  else if path = "" then clean directory
  else clean (directory ++ "/" ++ path)

/-- The directory a path lies in. -/
def parent (path : String) : String := clean (path ++ "/..")

end Monkey.Path

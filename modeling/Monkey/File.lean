import Monkey.Path
import Monkey.Table

/-!
# Reading and writing files

Why a file could not be opened, read or created, and a tree of files that is held in memory.
-/

namespace Monkey

inductive FileError.Action where
  | opening
  | reading
  | writing
  deriving DecidableEq

inductive FileError.Reason where
  | missing
  | isDirectory
  | notDirectory
  | nameTooLong
  | badName
  | other (text : String)
  deriving DecidableEq

structure FileError where
  action : FileError.Action
  path : String
  reason : FileError.Reason
  deriving DecidableEq

namespace FileError

def Action.verb : Action → String
  | opening => "open"
  | reading => "read"
  | writing => "write"

def Reason.text : Reason → String
  | missing => "no such file or directory"
  | isDirectory => "is a directory"
  | notDirectory => "not a directory"
  | nameTooLong => "file name too long"
  | badName => "invalid argument"
  | other text => text

def message (e : FileError) : String := e.action.verb ++ " " ++ e.path ++ ": " ++ e.reason.text

/-- Whether opening failed, and not reading. -/
def isOpen (e : FileError) : Bool := e.action = .opening

/-- Whether there was nothing to open. -/
def isMissing (e : FileError) : Bool := e.isOpen && e.reason = .missing

end FileError

/-- Directories and the contents of files, by their clean paths. -/
structure FileTree where
  directories : List String
  files : Table String (List UInt8)

namespace FileTree

/-- The tree that holds the working directory only. -/
def empty : FileTree := ⟨["."], []⟩

def addDirectory (t : FileTree) (path : String) : FileTree :=
  { t with directories := Path.clean path :: t.directories }

def addFile (t : FileTree) (path : String) (content : List UInt8) : FileTree :=
  { t with files := t.files.insert (Path.clean path) content }

/-- Whether there is a directory at a clean path.  The root is one, and so is what the working
directory lies in. -/
def isDirectory (t : FileTree) (path : String) : Bool :=
  path ∈ t.directories || path = "/" || (path.splitOn "/").all (· = "..")

/-- What is at the end of a path, by its clean path. -/
inductive Place where
  | directory
  | file (path : String) (content : List UInt8)
  /-- Nothing, in a directory that is there. -/
  | vacant (path : String)

/-- The greatest number of bytes in a name. -/
def maxName : Nat := 255

/-- The number of bytes that no path has. -/
def pathLimit : Nat := 4096

/-- Follows the parts of a path from a directory on.  Only directories have something inside. -/
def walk (t : FileTree) (here : String) : List String → Except FileError.Reason Place
  | [] => .ok .directory
  | part :: rest =>
    if part = "" ∨ part = "." then walk t here rest
    else if part.utf8ByteSize > maxName then .error .nameTooLong
    else
      let next := Path.join here part
      if t.isDirectory next then walk t next rest
      else
        match t.files.get? next, rest with
        | some content, [] => .ok (.file next content)
        | none, [] => .ok (.vacant next)
        | some _, _ => .error .notDirectory
        | none, _ => .error .missing

/-- What is at the end of a path. -/
def find (t : FileTree) (path : String) : Except FileError.Reason Place :=
  if path = "" then .error .missing
  else if path.contains '\x00' then .error .badName
  else if path.utf8ByteSize ≥ pathLimit then .error .nameTooLong
  else walk t (if Path.isAbsolute path then "/" else ".") (path.splitOn "/")

/-- The content of a file.  A directory can be opened, but it cannot be read. -/
def read (t : FileTree) (path : String) : Except FileError (List UInt8) :=
  match t.find path with
  | .error reason => .error ⟨.opening, path, reason⟩
  | .ok .directory => .error ⟨.reading, path, .isDirectory⟩
  | .ok (.file _ content) => .ok content
  | .ok (.vacant _) => .error ⟨.opening, path, .missing⟩

/-- Creates or replaces a file in a directory of the tree. -/
def write (t : FileTree) (path : String) (content : List UInt8) : Except FileError FileTree :=
  match t.find path with
  | .error reason => .error ⟨.opening, path, reason⟩
  | .ok .directory => .error ⟨.opening, path, .isDirectory⟩
  | .ok (.file place _) | .ok (.vacant place) => .ok (t.addFile place content)

end FileTree

end Monkey

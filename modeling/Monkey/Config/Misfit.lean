import Monkey.Text.Quoted
import Monkey.Text.Utf8
import Monkey.Yaml.Tag

/-!
# Values that are not settings

A value that does not fit where it was meant to go is noted, and reading goes on.  A document that
contradicts itself is rejected as a whole.
-/

namespace Monkey.Config

/-- Where a value was meant to go. -/
inductive Target where
  | settings
  | text
  | color
  | flag
  deriving DecidableEq

/-- The name of a target in messages. -/
def Target.name : Target → String
  | settings => "config.Config"
  | text => "string"
  | color => "config.Color"
  | flag => "bool"

/-- A value that does not fit.  A sequence or a mapping has no text. -/
inductive Misfit where
  | unknownKey (line : Nat) (key : String)
  | duplicateKey (line : Nat) (key : String) (first : Nat)
  | setTwice (line : Nat) (key : String)
  | value (line : Nat) (tag : Yaml.Tag) (text : String) (target : Target)
  deriving DecidableEq

/-- A text of more than ten bytes is cut to seven. -/
def excerpt (s : String) : String :=
  if s.utf8ByteSize > 10 then Utf8.decode ((Utf8.encode s).take 7) ++ "..." else s

namespace Misfit

def line : Misfit → Nat
  | unknownKey line _ | duplicateKey line _ _ | setTwice line _ | value line _ _ _ => line

/-- What is said about a misfit, its line apart.  With the tag of a collection a text stands as it
is. -/
def description : Misfit → String
  | unknownKey _ key => "field " ++ key ++ " not found in type " ++ Target.settings.name
  | duplicateKey _ key first =>
    "mapping key " ++ Text.quote key ++ " already defined at line " ++ toString first
  | setTwice _ key => "field " ++ key ++ " already set in type " ++ Target.settings.name
  | value _ tag text target =>
    let shown := if tag = .seq ∨ tag = .map then text else " `" ++ excerpt text ++ "`"
    "cannot unmarshal " ++ tag.name ++ shown ++ " into " ++ target.name

def message (m : Misfit) : String := "line " ++ toString m.line ++ ": " ++ m.description

end Misfit

/-- Why a document is rejected as a whole. -/
inductive Rejection where
  /-- A scalar is not what its tag says. -/
  | mistagged (found declared : Yaml.Tag) (text : String)
  | badBase64
  | badMerge
  /-- A node is merged into itself. -/
  | cyclic (name : String)
  | tooManyAliases
  deriving DecidableEq

def Rejection.message : Rejection → String
  | mistagged found declared text =>
    "cannot decode " ++ found.name ++ " `" ++ text ++ "` as a " ++ declared.name
  | badBase64 => "!!binary value contains invalid base64 data"
  | badMerge => "map merge requires map or sequence of maps as the value"
  | cyclic name => "anchor '" ++ name ++ "' value contains itself"
  | tooManyAliases => "document contains excessive aliasing"

end Monkey.Config

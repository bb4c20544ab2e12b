import Monkey.Yaml.Source

/-!
# Tokens of YAML

Indentation becomes brackets: a block collection is opened and closed by tokens that have no
characters.
-/

namespace Monkey.Yaml

/-- How a scalar is written. -/
inductive Style where
  | plain
  | quoted
  | block
  deriving DecidableEq

inductive Bracket where
  | flowSeq
  | flowMap
  | blockSeq
  | blockMap
  deriving DecidableEq

/-- A tag as it is written: a handle, perhaps empty, and what follows it. -/
structure TagName where
  handle : String
  suffix : String
  deriving DecidableEq

inductive Token.Kind where
  | streamEnd
  | version (major minor : Nat)
  /-- A handle and what it stands for. -/
  | tagHandle (handle : String) (stem : String)
  | documentStart
  | documentEnd
  | opening (b : Bracket)
  | flowSeqEnd
  | flowMapEnd
  | blockEnd
  | entry
  | comma
  | key
  | value
  | reference (name : String)
  | anchor (name : String)
  | tag (name : TagName)
  | scalar (style : Style) (text : String)
  deriving DecidableEq

/-- A token and the place it begins at. -/
structure Token where
  kind : Token.Kind
  mark : Mark
  deriving DecidableEq

end Monkey.Yaml

import Monkey.Table
import Monkey.Yaml.Tag

/-!
# Nodes of a YAML document

Scalars, sequences, mappings, and references to nodes that are written elsewhere.  A node knows the
line it begins on, counted from one.  Nodes that are referred to are numbered, so that a node can be
referred to from inside itself; references are numbered too, so that they can be told apart.
-/

namespace Monkey.Yaml

inductive Node where
  | scalar (line : Nat) (tag : Tag) (text : String)
  | seq (line : Nat) (tag : Tag) (items : List Node)
  | map (line : Nat) (tag : Tag) (entries : List (Node × Node))
  /-- The node with a number, the name it is referred to by, and the number of the reference. -/
  | reference (line : Nat) (name : String) (number : Nat) (serial : Nat)

namespace Node

def line : Node → Nat
  | scalar line .. | seq line .. | map line .. | reference line .. => line

/-- A scalar that is not written. -/
def empty (line : Nat) : Node := .scalar line .null ""

end Node

/-- Nodes by their numbers. -/
abbrev Anchored := Table Nat Node

structure Document where
  root : Node
  anchored : Anchored
  /-- How many references there are. -/
  references : Nat

end Monkey.Yaml

import Monkey.Digest
import Monkey.Program.Render
import Monkey.Table
import Monkey.Text.Utf8

/-!
# Values

The values a program computes with.  A function remembers the number of the scope it was made in.
An error and a wrapped return value are values too: evaluation never leaves one in an expression,
but they may be put in a scope from outside, where they are values like any other.

A hash stores its pairs under a key made of the kind of value and a 64-bit digest.  Texts with equal
digests are one key.
-/

namespace Monkey

inductive Value.Kind where
  | null
  | error
  | integer
  | boolean
  | string
  | returnValue
  | function
  | builtin
  | array
  | hash
  deriving DecidableEq

/-- The name of a kind of value, as messages give it. -/
def Value.Kind.name : Value.Kind → String
  | null => "NULL"
  | error => "ERROR"
  | integer => "INTEGER"
  | boolean => "BOOLEAN"
  | string => "STRING"
  | returnValue => "RETURN_VALUE"
  | function => "FUNCTION"
  | builtin => "BUILTIN"
  | array => "ARRAY"
  | hash => "HASH"

/-- What a hash stores a pair under. -/
structure HashKey where
  kind : Value.Kind
  digest : UInt64
  deriving DecidableEq

/-- The functions that are there from the start. -/
inductive Builtin where
  | first
  | last
  | len
  | push
  | rest
  deriving DecidableEq

namespace Builtin

def name : Builtin → String
  | first => "first"
  | last => "last"
  | len => "len"
  | push => "push"
  | rest => "rest"

/-- All of them, in dictionary order of their names. -/
def all : List Builtin := [first, last, len, push, rest]

def names : List String := all.map name

def ofName? (s : String) : Option Builtin := all.find? (·.name = s)

end Builtin

inductive Value where
  | null
  | int (value : Int64)
  | bool (value : Bool)
  | str (value : String)
  | array (elements : List Value)
  /-- Pairs of a key as it was given and its value. -/
  | hash (pairs : List (HashKey × (Value × Value)))
  | function (params : List String) (body : Block) (scope : Nat)
  | builtin (which : Builtin)
  | error (message : String)
  | returned (value : Value)

instance : Inhabited Value := ⟨.null⟩

namespace Value

def kind : Value → Kind
  | null => .null
  | int _ => .integer
  | bool _ => .boolean
  | str _ => .string
  | array _ => .array
  | hash _ => .hash
  | function _ _ _ => .function
  | builtin _ => .builtin
  | error _ => .error
  | returned _ => .returnValue

/-- Only `null` and `false` count as false. -/
def truthy : Value → Bool
  | null => false
  | bool b => b
  | _ => true

/-- Integers, booleans and texts can be keys of a hash. -/
def hashKey? : Value → Option HashKey
  | int n => some ⟨.integer, n.toUInt64⟩
  | bool b => some ⟨.boolean, if b then 1 else 0⟩
  | str s => some ⟨.string, Digest.xxh64 (Utf8.encode s)⟩
  | _ => none

mutual

/-- The text by which a value is shown. -/
def inspect : Value → String
  | null => "null"
  | int n => toString n.toInt
  | bool b => if b then "true" else "false"
  | str s => s
  | array es => "[" ++ ", ".intercalate (inspectAll es) ++ "]"
  | hash ps => "\x7b" ++ ", ".intercalate (inspectPairs ps) ++ "\x7d"
  | function ps body _ => "fn(" ++ ", ".intercalate ps ++ ") \x7b\n" ++ body.render ++ "\n\x7d"
  | builtin _ => "builtin function"
  | error message => "ERROR: " ++ message
  | returned v => v.inspect

def inspectAll : List Value → List String
  | [] => []
  | v :: vs => v.inspect :: inspectAll vs

def inspectPairs : List (HashKey × (Value × Value)) → List String
  | [] => []
  | (_, (k, v)) :: ps => (k.inspect ++ ":" ++ v.inspect) :: inspectPairs ps

end

/-- The message of an error or of a return value that is on its way out. -/
def errorText? : Value → Option String
  | error message => some message
  | returned v => some ("return " ++ v.inspect)
  | _ => none

end Value

end Monkey

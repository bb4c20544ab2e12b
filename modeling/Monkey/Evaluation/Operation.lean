import Monkey.Evaluation.Fault

/-!
# Operators, indexing and built-in functions

These need no scope.  Integers are signed 64-bit words: arithmetic wraps around, and division goes
toward zero.
-/

namespace Monkey

/-- `!` takes any value; `-` only an integer. -/
def UnaryOp.apply (op : UnaryOp) (v : Value) : Except Fault Value :=
  match op with
  | .not => .ok (.bool !v.truthy)
  | .neg =>
    match v with
    | .int n => .ok (.int (-n))
    | _ => .error (.unknownUnary op v.kind)
  | .other _ => .error (.unknownUnary op v.kind)

namespace BinaryOp

def onInts (op : BinaryOp) (a b : Int64) : Except Fault Value :=
  match op with
  | add => .ok (.int (a + b))
  | sub => .ok (.int (a - b))
  | mul => .ok (.int (a * b))
  | div => if b = 0 then .error .divisionByZero else .ok (.int (a / b))
  | lt => .ok (.bool (a < b))
  | gt => .ok (.bool (b < a))
  | eq => .ok (.bool (a = b))
  | ne => .ok (.bool (a ≠ b))
  | other _ => .error (.unknownBinary .integer op .integer)

def onBools (op : BinaryOp) (a b : Bool) : Except Fault Value :=
  match op with
  | eq => .ok (.bool (a == b))
  | ne => .ok (.bool (a != b))
  | _ => .error (.unknownBinary .boolean op .boolean)

def onStrings (op : BinaryOp) (a b : String) : Except Fault Value :=
  match op with
  | add => .ok (.str (a ++ b))
  | _ => .error (.unknownBinary .string op .string)

/-- Operands of different kinds never fit; of equal kinds only integers, booleans and texts do. -/
def apply (op : BinaryOp) (left right : Value) : Except Fault Value :=
  match left, right with
  | .int a, .int b => op.onInts a b
  | .bool a, .bool b => op.onBools a b
  | .str a, .str b => op.onStrings a b
  | _, _ =>
    if left.kind = right.kind then .error (.unknownBinary left.kind op right.kind)
    else .error (.typeMismatch left.kind op right.kind)

end BinaryOp

namespace Value

/-- The element at a place; there is none before the first and after the last. -/
def elementAt (elements : List Value) (i : Int64) : Value :=
  if i.toInt < 0 then null else elements[i.toInt.toNat]?.getD null

/-- What stands at an index: an element of an array, or the value under a key of a hash. -/
def atIndex (v index : Value) : Except Fault Value :=
  match v, index with
  | array es, int i => .ok (elementAt es i)
  | hash ps, index =>
    match index.hashKey? with
    | none => .error (.notHashable index.kind)
    | some key => .ok ((Table.get? ps key).elim null Prod.snd)
  | v, _ => .error (.notIndexable v.kind)

end Value

namespace Builtin

/-- The one argument of a built-in function of arrays. -/
def arrayArgument (b : Builtin) (args : List Value) : Except Fault (List Value) :=
  match args with
  | [.array es] => .ok es
  | [v] => .error (.notArray b v.kind)
  | _ => .error (.argumentCount args.length 1)

def lenOf (args : List Value) : Except Fault Value :=
  match args with
  | [.array es] => .ok (.int (Int64.ofNat es.length))
  | [.str s] => .ok (.int (Int64.ofNat s.length))
  | [v] => .error (.noLength v.kind)
  | _ => .error (.argumentCount args.length 1)

def pushOf (args : List Value) : Except Fault Value :=
  match args with
  | [.array es, v] => .ok (.array (es ++ [v]))
  | [v, _] => .error (.notArray push v.kind)
  | _ => .error (.argumentCount args.length 2)

/-- The number of arguments is checked first, then what they are. -/
def apply (b : Builtin) (args : List Value) : Except Fault Value :=
  match b with
  | len => lenOf args
  | push => pushOf args
  | first => do return (← arrayArgument b args).head?.getD .null
  | last => do return (← arrayArgument b args).getLast?.getD .null
  | rest => do
    match ← arrayArgument b args with
    | [] => return .null
    | _ :: es => return .array es

end Builtin

end Monkey

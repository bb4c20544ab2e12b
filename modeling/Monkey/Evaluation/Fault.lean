import Monkey.Scope

/-!
# How an evaluation stops

A runtime error and a `return` both leave everything that is being evaluated, up to the function
call or the program around it.  Two further ways to stop are no part of the language: reaching an
expression that was left out, and going deeper into function calls than allowed.
-/

namespace Monkey

/-- What can be wrong at run time. -/
inductive Fault where
  | typeMismatch (left : Value.Kind) (op : BinaryOp) (right : Value.Kind)
  | unknownBinary (left : Value.Kind) (op : BinaryOp) (right : Value.Kind)
  | unknownUnary (op : UnaryOp) (right : Value.Kind)
  | divisionByZero
  | unbound (name : String)
  | notCallable (kind : Value.Kind)
  | notIndexable (kind : Value.Kind)
  | notHashable (kind : Value.Kind)
  | argumentCount (got want : Nat)
  | noLength (kind : Value.Kind)
  | notArray (builtin : Builtin) (kind : Value.Kind)
  deriving DecidableEq

/-- The wording of a runtime error. -/
def Fault.message : Fault → String
  | typeMismatch l op r => "type mismatch: " ++ l.name ++ " " ++ op.spelling ++ " " ++ r.name
  | unknownBinary l op r => "unknown operator: " ++ l.name ++ " " ++ op.spelling ++ " " ++ r.name
  | unknownUnary op r => "unknown operator: " ++ op.spelling ++ r.name
  | divisionByZero => "division by zero"
  | unbound name => "identifier not found: " ++ name
  | notCallable k => "not a function: " ++ k.name
  | notIndexable k => "index operator not supported: " ++ k.name
  | notHashable k => "unusable as hash key: " ++ k.name
  | argumentCount got want =>
    "wrong number of arguments. got=" ++ toString got ++ ", want=" ++ toString want
  | noLength k => "argument to \"len\" not supported, got " ++ k.name
  | notArray b k => "argument to \"" ++ b.name ++ "\" must be ARRAY, got " ++ k.name

inductive Halt where
  | fault (f : Fault)
  /-- A `return` on its way to the function it leaves. -/
  | returning (value : Value)
  /-- An expression was left out where its value was needed. -/
  | missing
  /-- Function calls are nested more deeply than allowed. -/
  | exhausted

/-- Evaluation reads and changes the scopes, and may stop early; the scopes stay as they were
left. -/
abbrev Eval := EStateM Halt Scopes

namespace Eval

def ofExcept {α : Type} : Except Fault α → Eval α
  | .ok a => pure a
  | .error f => throw (.fault f)

/-- Ends a `return` here and takes its value. -/
def catchReturn {α : Type} (accept : Value → α) (x : Eval α) : Eval α := fun s =>
  match x s with
  | .error (.returning v) s => .ok (accept v) s
  | r => r

end Eval

end Monkey

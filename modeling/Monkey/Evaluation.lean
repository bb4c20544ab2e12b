import Monkey.Evaluation.Operation

/-!
# Evaluation

Expressions are evaluated from left to right along their structure.  What a function call does is
a parameter of that walk, and `applyWithin depth` supplies it for calls nested at most `depth`
deep.  So the limit concerns calls alone: the walk itself always ends.
-/

namespace Monkey

/-- The value of a name: the nearest binding, else the built-in function of that name. -/
def readName (scope : Nat) (name : String) : Eval Value := do
  match (← get).get? scope name with
  | some v => return v
  | none =>
    match Builtin.ofName? name with
    | some b => return .builtin b
    | none => throw (.fault (.unbound name))

mutual

/-- The value of an expression in a scope, where `call` applies a function to arguments. -/
def Expr.eval (call : Value → List Value → Eval Value) (scope : Nat) : Expr → Eval Value
  | .absent => throw .missing
  | .ident _ name => readName scope name
  | .int _ n => return .int n
  | .str _ s => return .str s
  | .bool _ b => return .bool b
  | .unary _ op e => do
    let v ← e.eval call scope
    .ofExcept (op.apply v)
  | .binary _ l op r => do
    let a ← l.eval call scope
    let b ← r.eval call scope
    .ofExcept (op.apply a b)
  | .cond _ c yes none => do
    let v ← c.eval call scope
    if v.truthy then yes.eval call scope else return .null
  | .cond _ c yes (some no) => do
    let v ← c.eval call scope
    if v.truthy then yes.eval call scope else no.eval call scope
  | .func _ params body => return .function params body scope
  | .call _ f args => do
    let f ← f.eval call scope
    let args ← evalExprs call scope args
    call f args
  | .array _ es => do
    let vs ← evalExprs call scope es
    return .array vs
  | .index _ l i => do
    let v ← l.eval call scope
    let i ← i.eval call scope
    .ofExcept (v.atIndex i)
  | .hash _ ps => do
    let ps ← evalPairs call scope [] ps
    return .hash ps

def evalExprs (call : Value → List Value → Eval Value) (scope : Nat) :
    List Expr → Eval (List Value)
  | [] => return []
  | e :: es => do
    let v ← e.eval call scope
    let vs ← evalExprs call scope es
    return v :: vs

/-- Adds pairs to a table.  A key is checked before its value is evaluated. -/
def evalPairs (call : Value → List Value → Eval Value) (scope : Nat)
    (table : Table HashKey (Value × Value)) :
    List (Expr × Expr) → Eval (Table HashKey (Value × Value))
  | [] => return table
  | (k, v) :: ps => do
    let key ← k.eval call scope
    match key.hashKey? with
    | none => throw (.fault (.notHashable key.kind))
    | some digest => do
      let value ← v.eval call scope
      evalPairs call scope (table.insert digest (key, value)) ps

/-- The value of a statement; a `let` has none. -/
def Stmt.eval (call : Value → List Value → Eval Value) (scope : Nat) : Stmt → Eval (Option Value)
  | .bind _ name e => do
    let v ← e.eval call scope
    modify fun s => s.define scope name v
    return none
  | .ret _ .absent => throw (.returning .null)
  | .ret _ e => do
    let v ← e.eval call scope
    throw (.returning v)
  | .expr _ e => do
    let v ← e.eval call scope
    return some v
  | .block b => do
    let v ← b.eval call scope
    return some v

/-- Runs the statements of a block in order, with the value so far.  A statement without a value
makes it `null`.  A `return` goes on to whatever is around the block. -/
def evalBlockStmts (call : Value → List Value → Eval Value) (scope : Nat) (value : Value) :
    List Stmt → Eval Value
  | [] => return value
  | s :: ss => do
    match ← s.eval call scope with
    | some v => evalBlockStmts call scope v ss
    | none => evalBlockStmts call scope .null ss

/-- A block without statements is worth `null`. -/
def Block.eval (call : Value → List Value → Eval Value) (scope : Nat) : Block → Eval Value
  | .mk _ ss => evalBlockStmts call scope .null ss

end

/-- Runs the statements of a program in order, with the value so far, which a statement without a
value takes away.  A `return` ends the program where it stands. -/
def evalProgramStmts (call : Value → List Value → Eval Value) (scope : Nat)
    (value : Option Value) : List Stmt → Eval (Option Value)
  | [] => return value
  | st :: ss => fun s =>
    match st.eval call scope s with
    | .ok v s => evalProgramStmts call scope v ss s
    | .error (.returning v) s => .ok (some v) s
    | .error h s => .error h s

/-- Opens a scope for a call and binds parameters to arguments.  Arguments without a parameter are
dropped, and parameters without an argument stay unbound. -/
def enterCall (outer : Nat) (params : List String) (args : List Value) : Eval Nat := do
  let s ← get
  let scope := s.size
  set ((params.zip args).foldl (fun s (name, v) => s.define scope name v) (s.add (some outer)))
  return scope

/-- Applies a function to arguments; calls of defined functions nest at most `depth` deep. -/
def applyWithin (depth : Nat) (f : Value) (args : List Value) : Eval Value :=
  match f, depth with
  | .builtin b, _ => .ofExcept (b.apply args)
  | .function _ _ _, 0 => throw .exhausted
  | .function params body outer, depth + 1 => do
    let scope ← enterCall outer params args
    Eval.catchReturn id (body.eval (applyWithin depth) scope)
  | f, _ => throw (.fault (.notCallable f.kind))
termination_by structural depth

/-- The value of a program in a scope: that of its last statement, or of the `return` that ends
it. -/
def Program.eval (depth scope : Nat) (p : Program) : Eval (Option Value) :=
  evalProgramStmts (applyWithin depth) scope none p.statements

/-- What an evaluation comes to, seen from outside.  A runtime error is an error value. -/
inductive Outcome where
  | value (v : Option Value)
  | missing
  | exhausted

/-- The outcome of an evaluation and the scopes it leaves. -/
def Eval.outcome (x : Eval (Option Value)) (s : Scopes) : Outcome × Scopes :=
  match x s with
  | .ok v s => (.value v, s)
  | .error (.returning v) s => (.value (some v), s)
  | .error (.fault f) s => (.value (some (.error f.message)), s)
  | .error .missing s => (.missing, s)
  | .error .exhausted s => (.exhausted, s)

end Monkey

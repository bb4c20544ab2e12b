import Monkey.Proofs.Evaluation.Clean
import Monkey.Proofs.Parsing.WellFormed

/-!
# Evaluation with partial operations

Some steps are not possible for every value: to take the number out of a value, to take the element
at a place, to divide, to go on with the object that an evaluation came to.  Here each of them is an
operation of its own that panics where it is not possible, and evaluation is written with these
operations: it asks for kinds, lengths and divisors first and then goes ahead.

Run this way, a program does exactly what its evaluation says, so none of these operations is ever
reached where it is not possible.  What is left is the panic on an expression that was left out, and
a parsed program has none.
-/

namespace Monkey

/-- The ways in which the evaluation itself breaks down. -/
inductive Panic where
  /-- There is no rule for the node. -/
  | unexpectedNode
  /-- Something was asked of an object that is not there. -/
  | absentObject
  /-- A value was taken for one of another kind. -/
  | wrongKind
  | outOfRange
  | zeroDivisor

/-- How a run stops early. -/
inductive Stop where
  | fault (f : Fault)
  | returning (value : Value)
  | exhausted
  | panic (p : Panic)

abbrev Attempt := Except Stop

abbrev Run := EStateM Stop Scopes

/-! ## Partial operations -/

namespace Attempt

variable {α : Type}

/-- Goes on with the object an evaluation came to. -/
def demand : Option Value → Attempt Value
  | some v => .ok v
  | none => .error (.panic .absentObject)

/-- Takes out of a value what it holds if it is of the right kind. -/
def assert (get? : Value → Option α) (v : Value) : Attempt α :=
  match get? v with
  | some a => .ok a
  | none => .error (.panic .wrongKind)

def element (xs : List α) (i : Int) : Attempt α :=
  match if i < 0 then none else xs[i.toNat]? with
  | some a => .ok a
  | none => .error (.panic .outOfRange)

/-- The list without its first `k` elements. -/
def slice (xs : List α) (k : Nat) : Attempt (List α) :=
  if k ≤ xs.length then .ok (xs.drop k) else .error (.panic .outOfRange)

/-- The list with another element at a place. -/
def store (xs : List α) (i : Nat) (a : α) : Attempt (List α) :=
  if i < xs.length then .ok (xs.set i a) else .error (.panic .outOfRange)

def quotient (a b : Int64) : Attempt Int64 :=
  if b = 0 then .error (.panic .zeroDivisor) else .ok (a / b)

/-- An operation in which nothing is partial. -/
def ofTotal : Except Fault α → Attempt α
  | .ok a => .ok a
  | .error f => .error (.fault f)

end Attempt

namespace Value

def int? : Value → Option Int64
  | int n => some n
  | _ => none

def bool? : Value → Option Bool
  | bool b => some b
  | _ => none

def str? : Value → Option String
  | str s => some s
  | _ => none

def array? : Value → Option (List Value)
  | array es => some es
  | _ => none

def hash? : Value → Option (Table HashKey (Value × Value))
  | hash ps => some ps
  | _ => none

end Value

open Attempt

namespace BinaryOp

def attemptInts (op : BinaryOp) (l r : Value) : Attempt Value := do
  let a ← assert Value.int? l
  let b ← assert Value.int? r
  match op with
  | div => if b = 0 then throw (.fault .divisionByZero) else return .int (← quotient a b)
  | _ => ofTotal (op.onInts a b)

def attemptBools (op : BinaryOp) (l r : Value) : Attempt Value := do
  let a ← assert Value.bool? l
  let b ← assert Value.bool? r
  ofTotal (op.onBools a b)

def attemptStrings (op : BinaryOp) (l r : Value) : Attempt Value :=
  match op with
  | add => do
    let a ← assert Value.str? l
    let b ← assert Value.str? r
    return .str (a ++ b)
  | _ => throw (.fault (.unknownBinary l.kind op r.kind))

/-- The kinds of the operands decide which values are taken out of them. -/
def attempt (op : BinaryOp) (l r : Value) : Attempt Value :=
  if l.kind = .integer ∧ r.kind = .integer then op.attemptInts l r
  else if l.kind = .boolean ∧ r.kind = .boolean then op.attemptBools l r
  else if l.kind = .string ∧ r.kind = .string then op.attemptStrings l r
  else if l.kind ≠ r.kind then throw (.fault (.typeMismatch l.kind op r.kind))
  else throw (.fault (.unknownBinary l.kind op r.kind))

end BinaryOp

namespace Value

/-- Outside the bounds there is no element to take. -/
def attemptElement (v index : Value) : Attempt Value := do
  let es ← assert array? v
  let i ← assert int? index
  if i.toInt < 0 ∨ (es.length : Int) - 1 < i.toInt then return null else element es i.toInt

def attemptEntry (v index : Value) : Attempt Value := do
  let ps ← assert hash? v
  match index.hashKey? with
  | none => throw (.fault (.notHashable index.kind))
  | some key => return (Table.get? ps key).elim null Prod.snd

def attemptIndex (v index : Value) : Attempt Value :=
  if v.kind = .array ∧ index.kind = .integer then v.attemptElement index
  else if v.kind = .hash then v.attemptEntry index
  else throw (.fault (.notIndexable v.kind))

end Value

namespace Builtin

def attemptArray (b : Builtin) (args : List Value) : Attempt (List Value) :=
  if args.length ≠ 1 then throw (.fault (.argumentCount args.length 1))
  else do
    let v ← element args 0
    match v.array? with
    | some es => return es
    | none => throw (.fault (.notArray b v.kind))

def attempt (b : Builtin) (args : List Value) : Attempt Value :=
  match b with
  | len =>
    if args.length ≠ 1 then throw (.fault (.argumentCount args.length 1))
    else do
      let v ← element args 0
      match v with
      | .array es => return .int (Int64.ofNat es.length)
      | .str s => return .int (Int64.ofNat s.length)
      | v => throw (.fault (.noLength v.kind))
  | first => do
    let es ← attemptArray b args
    if 0 < es.length then element es 0 else return .null
  | last => do
    let es ← attemptArray b args
    if 0 < es.length then element es (es.length - 1) else return .null
  | rest => do
    let es ← attemptArray b args
    if es.length = 0 then return .null else return .array (← slice es 1)
  | push =>
    if args.length ≠ 2 then throw (.fault (.argumentCount args.length 2))
    else do
      let v ← element args 0
      match v.array? with
      -- a copy that is one longer, whose last place is then filled
      | some es => return .array (← store (es ++ [.null]) es.length (← element args 1))
      | none => throw (.fault (.notArray b v.kind))

end Builtin

/-! ## Runs -/

def Halt.stop : Halt → Stop
  | .fault f => .fault f
  | .returning v => .returning v
  | .missing => .panic .unexpectedNode
  | .exhausted => .exhausted

namespace Run

variable {α : Type}

def ofAttempt : Attempt α → Run α
  | .ok a => pure a
  | .error e => throw e

/-- The run that does what an evaluation does. -/
def ofEval (x : Eval α) : Run α := fun s =>
  match x s with
  | .ok a s => .ok a s
  | .error h s => .error h.stop s

/-- Ends a `return` here and takes its value. -/
def catchReturn (x : Run (Option Value)) : Run (Option Value) := fun s =>
  match x s with
  | .error (.returning v) s => .ok (some v) s
  | r => r

end Run

mutual

/-- The object that an expression comes to, where `call` applies a function to arguments. -/
def Expr.run (call : Value → List Value → Run (Option Value)) (scope : Nat) :
    Expr → Run (Option Value)
  | .absent => throw (.panic .unexpectedNode)
  | .ident _ x => some <$> Run.ofEval (readName scope x)
  | .int _ n => return some (.int n)
  | .str _ s => return some (.str s)
  | .bool _ b => return some (.bool b)
  | .unary _ op e => do
    let v ← .ofAttempt (demand (← e.run call scope))
    some <$> .ofAttempt (ofTotal (op.apply v))
  | .binary _ l op r => do
    let a ← .ofAttempt (demand (← l.run call scope))
    let b ← .ofAttempt (demand (← r.run call scope))
    some <$> .ofAttempt (op.attempt a b)
  | .cond _ c yes none => do
    let v ← .ofAttempt (demand (← c.run call scope))
    if v.truthy then yes.run call scope else return some .null
  | .cond _ c yes (some no) => do
    let v ← .ofAttempt (demand (← c.run call scope))
    if v.truthy then yes.run call scope else no.run call scope
  | .func _ params body => return some (.function params body scope)
  | .call _ f args => do
    let f ← .ofAttempt (demand (← f.run call scope))
    let args ← runExprs call scope args
    call f args
  | .array _ es => do
    let vs ← runExprs call scope es
    return some (.array vs)
  | .index _ l i => do
    let v ← .ofAttempt (demand (← l.run call scope))
    let i ← .ofAttempt (demand (← i.run call scope))
    some <$> .ofAttempt (v.attemptIndex i)
  | .hash _ ps => do
    let ps ← runPairs call scope [] ps
    return some (.hash ps)

def runExprs (call : Value → List Value → Run (Option Value)) (scope : Nat) :
    List Expr → Run (List Value)
  | [] => return []
  | e :: es => do
    let v ← .ofAttempt (demand (← e.run call scope))
    let vs ← runExprs call scope es
    return v :: vs

def runPairs (call : Value → List Value → Run (Option Value)) (scope : Nat)
    (table : Table HashKey (Value × Value)) :
    List (Expr × Expr) → Run (Table HashKey (Value × Value))
  | [] => return table
  | (k, v) :: ps => do
    let key ← .ofAttempt (demand (← k.run call scope))
    match key.hashKey? with
    | none => throw (.fault (.notHashable key.kind))
    | some digest => do
      let value ← .ofAttempt (demand (← v.run call scope))
      runPairs call scope (table.insert digest (key, value)) ps

/-- The object of a statement; a `let` has none. -/
def Stmt.run (call : Value → List Value → Run (Option Value)) (scope : Nat) :
    Stmt → Run (Option Value)
  | .bind _ x e => do
    let v ← .ofAttempt (demand (← e.run call scope))
    modify fun s => s.define scope x v
    return none
  | .ret _ .absent => throw (.returning .null)
  | .ret _ e => do
    let v ← .ofAttempt (demand (← e.run call scope))
    throw (.returning v)
  | .expr _ e => e.run call scope
  | .block b => b.run call scope

def runStmts (call : Value → List Value → Run (Option Value)) (scope : Nat) (last : Option Value) :
    List Stmt → Run (Option Value)
  | [] => return last
  | s :: ss => do
    let v ← s.run call scope
    runStmts call scope v ss

/-- A block whose last statement has no object comes to `null`. -/
def Block.run (call : Value → List Value → Run (Option Value)) (scope : Nat) :
    Block → Run (Option Value)
  | .mk _ ss => do
    let v ← runStmts call scope none ss
    return some (v.getD .null)

end

/-- Binds parameters to the arguments from the `i`-th on, as long as there are some. -/
def bindParams (scope : Nat) (args : List Value) : Nat → List String → Run Unit
  | _, [] => return
  | i, x :: xs =>
    if args.length ≤ i then return
    else do
      let v ← .ofAttempt (element args i)
      modify fun s => s.define scope x v
      bindParams scope args (i + 1) xs

def runCall (depth : Nat) (f : Value) (args : List Value) : Run (Option Value) :=
  match f, depth with
  | .builtin b, _ => some <$> .ofAttempt (b.attempt args)
  | .function _ _ _, 0 => throw .exhausted
  | .function params body outer, depth + 1 => do
    let s ← get
    set (s.add (some outer))
    bindParams s.size args 0 params
    Run.catchReturn (body.run (runCall depth) s.size)
  | f, _ => throw (.fault (.notCallable f.kind))
termination_by structural depth

/-- Runs a program in a scope. -/
def Program.run (depth scope : Nat) (p : Program) : Run (Option Value) :=
  Run.catchReturn (runStmts (runCall depth) scope none p.statements)

/-! ## No partial operation is reached where it is not possible -/

namespace Value

theorem kind_eq_integer {v : Value} : v.kind = .integer ↔ ∃ n, v = int n := by
  cases v <;> simp [kind]

theorem kind_eq_boolean {v : Value} : v.kind = .boolean ↔ ∃ b, v = bool b := by
  cases v <;> simp [kind]

theorem kind_eq_string {v : Value} : v.kind = .string ↔ ∃ s, v = str s := by
  cases v <;> simp [kind]

theorem kind_eq_array {v : Value} : v.kind = .array ↔ ∃ es, v = array es := by
  cases v <;> simp [kind]

theorem kind_eq_hash {v : Value} : v.kind = .hash ↔ ∃ ps, v = hash ps := by
  cases v <;> simp [kind]

end Value

theorem Attempt.element_of_lt {α : Type} {xs : List α} {i : Nat} (h : i < xs.length) :
    element xs i = .ok xs[i] := by
  have hi : ¬(i : Int) < 0 := by omega
  simp only [element, if_neg hi, Int.toNat_natCast, List.getElem?_eq_getElem h]

namespace BinaryOp

theorem attemptInts_eq (op : BinaryOp) (a b : Int64) :
    op.attemptInts (.int a) (.int b) = ofTotal (op.onInts a b) := by
  cases op with
  | div =>
    show (if b = 0 then (throw (Stop.fault .divisionByZero) : Attempt Value) else do
      return Value.int (← quotient a b)) = ofTotal (if b = 0 then _ else _)
    by_cases hb : b = 0
    · rw [if_pos hb, if_pos hb]
      rfl
    · rw [if_neg hb, if_neg hb, quotient, if_neg hb]
      rfl
  | _ => rfl

theorem attempt_eq (op : BinaryOp) (l r : Value) : op.attempt l r = ofTotal (op.apply l r) := by
  unfold attempt
  -- in each of the first three branches the kinds say what can be taken out of the operands
  split
  · rename_i h
    obtain ⟨a, rfl⟩ := Value.kind_eq_integer.mp h.1
    obtain ⟨b, rfl⟩ := Value.kind_eq_integer.mp h.2
    exact attemptInts_eq op a b
  split
  · rename_i h
    obtain ⟨a, rfl⟩ := Value.kind_eq_boolean.mp h.1
    obtain ⟨b, rfl⟩ := Value.kind_eq_boolean.mp h.2
    rfl
  split
  · rename_i h
    obtain ⟨a, rfl⟩ := Value.kind_eq_string.mp h.1
    obtain ⟨b, rfl⟩ := Value.kind_eq_string.mp h.2
    cases op <;> rfl
  · rename_i hint hbool hstr
    -- no operation is left, and which fault it is depends on the kinds only
    have happly : op.apply l r = if l.kind = r.kind then .error (.unknownBinary l.kind op r.kind)
        else .error (.typeMismatch l.kind op r.kind) := by
      unfold apply
      split
      · exact absurd ⟨rfl, rfl⟩ hint
      · exact absurd ⟨rfl, rfl⟩ hbool
      · exact absurd ⟨rfl, rfl⟩ hstr
      · rfl
    rw [happly]
    by_cases hk : l.kind = r.kind
    · rw [if_neg (not_not_intro hk), if_pos hk]
      rfl
    · rw [if_pos hk, if_neg hk]
      rfl

end BinaryOp

namespace Value

theorem attemptElement_eq (es : List Value) (i : Int64) :
    (array es).attemptElement (int i) = .ok (elementAt es i) := by
  show (if i.toInt < 0 ∨ (es.length : Int) - 1 < i.toInt then (pure null : Attempt Value)
    else element es i.toInt) = .ok (if i.toInt < 0 then null else es[i.toInt.toNat]?.getD null)
  by_cases hneg : i.toInt < 0
  · rw [if_pos (.inl hneg), if_pos hneg]
    rfl
  · by_cases hlast : (es.length : Int) - 1 < i.toInt
    · have hnone : es[i.toInt.toNat]? = none := List.getElem?_eq_none (by omega)
      rw [if_pos (.inr hlast), if_neg hneg, hnone]
      rfl
    -- between the bounds that were asked for there is an element
    · have hlt : i.toInt.toNat < es.length := by omega
      have hi : ((i.toInt.toNat : Nat) : Int) = i.toInt := Int.toNat_of_nonneg (by omega)
      have helement := element_of_lt hlt
      rw [hi] at helement
      rw [if_neg (not_or.mpr ⟨hneg, hlast⟩), if_neg hneg, List.getElem?_eq_getElem hlt, helement]
      rfl

theorem attemptIndex_eq (v i : Value) : v.attemptIndex i = ofTotal (v.atIndex i) := by
  unfold attemptIndex
  split
  · rename_i h
    obtain ⟨es, rfl⟩ := kind_eq_array.mp h.1
    obtain ⟨n, rfl⟩ := kind_eq_integer.mp h.2
    exact attemptElement_eq es n
  split
  · rename_i h
    obtain ⟨ps, rfl⟩ := kind_eq_hash.mp h
    show (match i.hashKey? with
      | none => (throw (Stop.fault (.notHashable i.kind)) : Attempt Value)
      | some key => return (Table.get? ps key).elim null Prod.snd) = ofTotal (match i.hashKey? with
        | none => _
        | some key => _)
    cases i.hashKey? <;> rfl
  · rename_i harray hhash
    unfold atIndex
    split
    · exact absurd ⟨rfl, rfl⟩ harray
    · exact absurd rfl hhash
    · rfl

end Value

namespace Builtin

theorem attemptArray_eq (b : Builtin) (args : List Value) :
    b.attemptArray args = ofTotal (b.arrayArgument args) := by
  unfold attemptArray
  match args with
  | [] => rfl
  | [v] => cases v <;> rfl
  | v :: w :: vs =>
    rw [if_pos (by simp)]
    cases v <;> rfl

theorem attempt_eq (b : Builtin) (args : List Value) :
    b.attempt args = ofTotal (b.apply args) := by
  -- what the functions of one array do, once they have it
  have harray {f : List Value → Attempt Value} {g : List Value → Except Fault Value}
      (hfg : ∀ es, f es = ofTotal (g es)) :
      (b.attemptArray args >>= f) = ofTotal (b.arrayArgument args >>= g) := by
    rw [attemptArray_eq]
    cases b.arrayArgument args with
    | error e => rfl
    | ok es => exact hfg es
  cases b with
  | len =>
    match args with
    | [] => rfl
    | [v] => cases v <;> rfl
    | v :: w :: vs =>
      rw [attempt, if_pos (by simp)]
      cases v <;> rfl
  | first =>
    refine harray fun es => ?_
    cases es <;> rfl
  | last =>
    refine harray fun es => ?_
    cases es with
    | nil => rfl
    | cons v es =>
      have hpos : 0 < (v :: es).length := Nat.succ_pos _
      have hlt : es.length < (v :: es).length := Nat.lt_succ_self _
      have hlast : (((v :: es).length : Nat) : Int) - 1 = (es.length : Nat) := by simp
      show (if 0 < (v :: es).length then element (v :: es) ((v :: es).length - 1)
        else (pure .null : Attempt Value)) = .ok ((v :: es).getLast?.getD .null)
      rw [if_pos hpos, hlast, element_of_lt hlt, List.getLast?_eq_getElem?,
        List.length_cons, Nat.add_sub_cancel, List.getElem?_eq_getElem hlt]
      rfl
  | rest =>
    refine harray fun es => ?_
    cases es <;> rfl
  | push =>
    match args with
    | [] => rfl
    | [v] => cases v <;> rfl
    | [v, w] =>
      cases v with
      | array es =>
        -- the new list has room for one element more
        have hlt : es.length < (es ++ [Value.null]).length := by simp
        have hset : (es ++ [Value.null]).set es.length w = es ++ [w] := by simp
        show (do return .array (← store (es ++ [Value.null]) es.length w) : Attempt Value) =
          .ok (.array (es ++ [w]))
        rw [store, if_pos hlt, hset]
        rfl
      | _ => rfl
    | v :: w :: x :: vs =>
      rw [attempt, if_pos (by simp)]
      cases v <;> rfl

end Builtin

namespace Run

variable {α β : Type}

theorem ofEval_pure (a : α) : ofEval (pure a) = pure a := rfl

theorem ofEval_bind (x : Eval α) (f : α → Eval β) :
    ofEval (x >>= f) = ofEval x >>= fun a => ofEval (f a) := by
  funext s
  show ofEval (EStateM.bind x f) s = EStateM.bind (ofEval x) (fun a => ofEval (f a)) s
  simp only [ofEval, EStateM.bind]
  cases x s <;> rfl

theorem ofEval_ofExcept (r : Except Fault α) :
    ofEval (Eval.ofExcept r) = ofAttempt (ofTotal r) := by
  cases r <;> rfl

/-- The object of an expression is there. -/
theorem bind_demand (x : Run Value) (f : Value → Run β) :
    ((some <$> x) >>= fun o => ofAttempt (demand o) >>= f) = x >>= f := by
  rw [bind_map_left]
  rfl

theorem catchReturn_ofEval (x : Eval (Option Value)) :
    catchReturn (ofEval x) = ofEval (x.catchReturn some) := by
  funext s
  simp only [catchReturn, ofEval, Eval.catchReturn]
  cases x s with
  | ok v s' => rfl
  | error h s' => cases h <;> rfl

theorem catchReturn_map_ofEval (x : Eval Value) :
    catchReturn (some <$> ofEval x) = some <$> ofEval (x.catchReturn id) := by
  funext s
  show catchReturn (EStateM.map some (ofEval x)) s =
    EStateM.map some (ofEval (x.catchReturn id)) s
  simp only [catchReturn, ofEval, EStateM.map, Eval.catchReturn]
  cases x s with
  | ok v s' => rfl
  | error h s' => cases h <;> rfl

end Run

section

variable {call : Value → List Value → Eval Value}
  {rcall : Value → List Value → Run (Option Value)}

open Run

theorem Stmt.run_ret {t : Token} {scope : Nat} {e : Expr} (he : e ≠ .absent) :
    (Stmt.ret t e).run rcall scope = (do
      let v ← ofAttempt (demand (← e.run rcall scope))
      throw (.returning v)) := by
  cases e with
  | absent => exact absurd rfl he
  | _ => rfl

mutual

/-- An expression comes to the object that its evaluation gives. -/
theorem Expr.run_eq {scope : Nat}
    (hcall : ∀ f args, rcall f args = some <$> ofEval (call f args)) :
    (e : Expr) → e.run rcall scope = some <$> ofEval (e.eval call scope)
  | .absent => rfl
  | .ident _ _ => by rw [Expr.run, Expr.eval]
  | .int _ _ | .str _ _ | .bool _ _ | .func _ _ _ => rfl
  | .unary _ op e => by
    rw [Expr.run, Expr.eval, e.run_eq hcall, bind_demand, ofEval_bind, map_bind]
    simp only [ofEval_ofExcept]
  | .binary _ l op r => by
    rw [Expr.run, Expr.eval, l.run_eq hcall, bind_demand, ofEval_bind, map_bind]
    simp only [r.run_eq hcall, bind_demand, ofEval_bind, map_bind, ofEval_ofExcept,
      BinaryOp.attempt_eq]
  | .cond _ c yes none => by
    rw [Expr.run, Expr.eval, c.run_eq hcall, bind_demand, ofEval_bind, map_bind]
    congr 1
    funext v
    split
    · exact yes.run_eq hcall
    · rfl
  | .cond _ c yes (some no) => by
    rw [Expr.run, Expr.eval, c.run_eq hcall, bind_demand, ofEval_bind, map_bind]
    congr 1
    funext v
    split
    · exact yes.run_eq hcall
    · exact no.run_eq hcall
  | .call _ f args => by
    rw [Expr.run, Expr.eval, f.run_eq hcall, bind_demand, ofEval_bind, map_bind]
    simp only [runExprs_eq hcall args, hcall, ofEval_bind, map_bind]
  | .array _ es => by
    rw [Expr.run, Expr.eval, runExprs_eq hcall es, ofEval_bind, map_bind]
    rfl
  | .index _ l i => by
    rw [Expr.run, Expr.eval, l.run_eq hcall, bind_demand, ofEval_bind, map_bind]
    simp only [i.run_eq hcall, bind_demand, ofEval_bind, map_bind, ofEval_ofExcept,
      Value.attemptIndex_eq]
  | .hash _ ps => by
    rw [Expr.run, Expr.eval, runPairs_eq hcall [] ps, ofEval_bind, map_bind]
    rfl

theorem runExprs_eq {scope : Nat}
    (hcall : ∀ f args, rcall f args = some <$> ofEval (call f args)) :
    (es : List Expr) → runExprs rcall scope es = ofEval (evalExprs call scope es)
  | [] => rfl
  | e :: es => by
    rw [runExprs, evalExprs, e.run_eq hcall, bind_demand, ofEval_bind]
    simp only [runExprs_eq hcall es, ofEval_bind, ofEval_pure]

theorem runPairs_eq {scope : Nat}
    (hcall : ∀ f args, rcall f args = some <$> ofEval (call f args))
    (table : Table HashKey (Value × Value)) :
    (ps : List (Expr × Expr)) →
      runPairs rcall scope table ps = ofEval (evalPairs call scope table ps)
  | [] => rfl
  | (k, v) :: ps => by
    rw [runPairs, evalPairs, k.run_eq hcall, bind_demand, ofEval_bind]
    congr 1
    funext key
    cases key.hashKey? with
    | none => rfl
    | some digest =>
      show _ = ofEval (_ >>= _)
      rw [ofEval_bind]
      simp only [v.run_eq hcall, bind_demand, runPairs_eq hcall _ ps]

theorem Stmt.run_eq {scope : Nat}
    (hcall : ∀ f args, rcall f args = some <$> ofEval (call f args)) :
    (s : Stmt) → s.run rcall scope = ofEval (s.eval call scope)
  | .bind _ x e => by
    rw [Stmt.run, Stmt.eval, e.run_eq hcall, bind_demand, ofEval_bind]
    rfl
  | .ret t e => by
    have he : e.run rcall scope = some <$> ofEval (e.eval call scope) := e.run_eq hcall
    by_cases habsent : e = .absent
    · rw [habsent]
      rfl
    · rw [Stmt.run_ret habsent, Stmt.eval_ret habsent, he, bind_demand, ofEval_bind]
      rfl
  | .expr _ e => by
    rw [Stmt.run, Stmt.eval, e.run_eq hcall, ofEval_bind]
    rfl
  | .block b => by
    rw [Stmt.run, Stmt.eval, b.run_eq hcall, ofEval_bind]
    rfl

theorem runStmts_eq {scope : Nat}
    (hcall : ∀ f args, rcall f args = some <$> ofEval (call f args)) (last : Option Value) :
    (ss : List Stmt) → runStmts rcall scope last ss = ofEval (evalStmts call scope last ss)
  | [] => rfl
  | s :: ss => by
    rw [runStmts, evalStmts, s.run_eq hcall, ofEval_bind]
    simp only [runStmts_eq hcall _ ss]

theorem Block.run_eq {scope : Nat}
    (hcall : ∀ f args, rcall f args = some <$> ofEval (call f args)) :
    (b : Block) → b.run rcall scope = some <$> ofEval (b.eval call scope)
  | .mk _ ss => by
    rw [Block.run, Block.eval_mk, runStmts_eq hcall none ss, ofEval_bind, map_bind]
    rfl

end

end

/-- As many parameters are bound as there are arguments for. -/
theorem bindParams_eq (scope : Nat) (args : List Value) (xs : List String) (i : Nat) (s : Scopes) :
    bindParams scope args i xs s =
      .ok () ((xs.zip (args.drop i)).foldl (fun s (x, v) => s.define scope x v) s) := by
  -- `i` arguments are used up when the parameters `xs` are left
  induction xs generalizing i s with
  | nil => rfl
  | cons x xs ih =>
    rw [bindParams]
    by_cases hi : args.length ≤ i
    · rw [if_pos hi, List.drop_eq_nil_of_le hi]
      rfl
    · have hlt : i < args.length := by omega
      rw [if_neg hi, element_of_lt hlt, List.drop_eq_getElem_cons hlt]
      exact ih (i + 1) (s.define scope x args[i])

theorem runCall_builtin (depth : Nat) (b : Builtin) (args : List Value) :
    runCall depth (.builtin b) args =
      some <$> Run.ofEval (applyWithin depth (.builtin b) args) := by
  rw [runCall, applyWithin, Builtin.attempt_eq, Run.ofEval_ofExcept]

/-- A call comes to the object that its evaluation gives, by induction on how deep calls may
nest. -/
theorem runCall_eq (depth : Nat) (f : Value) (args : List Value) :
    runCall depth f args = some <$> Run.ofEval (applyWithin depth f args) := by
  induction depth generalizing f args with
  | zero =>
    cases f with
    | builtin b => exact runCall_builtin _ b args
    | _ => rfl
  | succ depth ih =>
    cases f with
    | builtin b => exact runCall_builtin _ b args
    | function params body outer =>
      rw [runCall, applyWithin, Run.ofEval_bind, map_bind]
      funext s
      have hbody : Run.catchReturn (body.run (runCall depth) s.size) = some <$>
          Run.ofEval (Eval.catchReturn id (body.eval (applyWithin depth) s.size)) := by
        rw [body.run_eq ih, Run.catchReturn_map_ofEval]
      -- both sides add a scope and bind the parameters in it before the body is run
      show (bindParams s.size args 0 params >>= fun _ => _) (s.add (some outer)) = _
      rw [hbody]
      show EStateM.bind _ _ _ = _
      simp only [EStateM.bind, bindParams_eq, List.drop_zero]
      rfl
    | _ => rfl

/-- A program does what its evaluation says: no partial operation is ever reached where it is not
possible. -/
theorem Program.run_eq (depth scope : Nat) (p : Program) :
    p.run depth scope = Run.ofEval (p.eval depth scope) := by
  rw [Program.run, Program.eval_eq, runStmts_eq (runCall_eq depth), Run.catchReturn_ofEval]

/-! ## Parsed programs -/

/-- A `return` outside of all functions ends the program with its value. -/
theorem Program.eval_ne_returning (p : Program) (depth scope : Nat) (s s' : Scopes) (v : Value) :
    p.eval depth scope s ≠ .error (.returning v) s' := by
  rw [Program.eval_eq, Eval.catchReturn]
  cases evalStmts (applyWithin depth) scope none p.statements s with
  | ok a s₁ =>
    intro h
    cases h
  | error h s₁ =>
    intro hcaught
    cases h <;> cases hcaught

/-- The program read from a text is complete, whether or not the text had errors.  Run in the
scopes at the start, with calls nesting as deep as they may, it never panics: it ends in an ordinary
value, in no value or in a runtime error, unless a call is nested too deep. -/
theorem parse_run_safe (tracing : Bool) (source : String) :
    (parse tracing source).program.WellFormed ∧ (parse tracing source).program.Complete ∧
      ∀ depth, (parse tracing source).program.run depth 0 =
          Run.ofEval ((parse tracing source).program.eval depth 0) ∧
        ((∃ v s, (parse tracing source).program.run depth 0 Scopes.fresh = .ok v s ∧
            ∀ w ∈ v, w.Ordinary s.size) ∨
          (∃ f s, (parse tracing source).program.run depth 0 Scopes.fresh = .error (.fault f) s) ∨
          ∃ s, (parse tracing source).program.run depth 0 Scopes.fresh = .error .exhausted s) := by
  have hwf := parse_wellFormed tracing source
  generalize (parse tracing source).program = p at hwf
  have hp : p.Complete := hwf.complete
  refine ⟨hwf, hp, fun depth => ⟨p.run_eq depth 0, ?_⟩⟩
  rw [p.run_eq depth 0]
  have hsafe : (p.eval depth 0).Safe 1 fun v m => ∀ w ∈ v, w.Ordinary m :=
    Program.eval_safe Nat.zero_lt_one hp
  have hend := hsafe Scopes.fresh Scopes.clean_fresh (Nat.le_refl 1)
  simp only [Run.ofEval]
  cases heval : p.eval depth 0 Scopes.fresh with
  | ok v s =>
    rw [heval] at hend
    exact .inl ⟨v, s, rfl, hend.2.2⟩
  | error h s =>
    rw [heval] at hend
    cases h with
    | fault f => exact .inr (.inl ⟨f, s, rfl⟩)
    | returning v => exact absurd heval (p.eval_ne_returning depth 0 _ s v)
    | missing => exact hend.2.2.elim
    | exhausted => exact .inr (.inr ⟨s, rfl⟩)

end Monkey

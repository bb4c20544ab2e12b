import Monkey.Evaluation

/-!
# Running statements

A block and a program run their statements in order, each by a loop of its own.  The loop of a block
has a value at every moment and lets a `return` pass; the loop of a program may have none and takes
the value of a `return`.  `evalStmts` is what they have in common: it runs the statements, keeps
what the last one came to and lets a `return` pass.  Each of the two loops is this run with
something done at its end.
-/

namespace Monkey

namespace Eval

variable {α β : Type} {x : Eval α} {f : α → Eval β} {s s₁ s' : Scopes} {h : Halt}

theorem bind_of_ok {v : α} (hx : x s = .ok v s₁) : (x >>= f) s = f v s₁ := by
  show EStateM.bind x f s = _
  rw [EStateM.bind, hx]

theorem bind_of_error (hx : x s = .error h s') : (x >>= f) s = .error h s' := by
  show EStateM.bind x f s = _
  rw [EStateM.bind, hx]

end Eval

/-- Runs statements in order and keeps the value of the last one. -/
def evalStmts (call : Value → List Value → Eval Value) (scope : Nat) (last : Option Value) :
    List Stmt → Eval (Option Value)
  | [] => return last
  | s :: ss => do
    let v ← s.eval call scope
    evalStmts call scope v ss

variable {call : Value → List Value → Eval Value} {scope : Nat}

/-- By induction on the statements: wherever the loop of a block is, its value is that of the last
statement, with `null` for none. -/
theorem evalBlockStmts_eq (last : Option Value) (ss : List Stmt) :
    evalBlockStmts call scope (last.getD .null) ss = (do
      let v ← evalStmts call scope last ss
      return v.getD .null) := by
  induction ss generalizing last with
  | nil =>
    rw [evalBlockStmts, evalStmts, pure_bind]
  | cons s ss ih =>
    rw [evalBlockStmts, evalStmts, bind_assoc]
    congr 1
    funext v
    cases v with
    | none => exact ih none
    | some v => exact ih (some v)

/-- The value of a block is that of its last statement, with `null` for none. -/
theorem Block.eval_mk (t : Token) (ss : List Stmt) :
    (Block.mk t ss).eval call scope = (do
      let v ← evalStmts call scope none ss
      return v.getD .null) := by
  rw [Block.eval]
  exact evalBlockStmts_eq none ss

/-- By induction on the statements: it makes no difference whether a `return` is caught at the
statement that raises it or at the end. -/
theorem evalProgramStmts_eq (last : Option Value) (ss : List Stmt) :
    evalProgramStmts call scope last ss = Eval.catchReturn some (evalStmts call scope last ss) := by
  induction ss generalizing last with
  | nil => rfl
  | cons st ss ih =>
    funext s
    rw [evalProgramStmts, evalStmts, Eval.catchReturn]
    cases hst : st.eval call scope s with
    | ok v s' =>
      rw [Eval.bind_of_ok hst]
      simp only [hst]
      exact congrFun (ih v) s'
    | error h s' =>
      rw [Eval.bind_of_error hst]
      simp only [hst]
      cases h <;> rfl

/-- The value of a program is that of its last statement, or that of the `return` that ended it. -/
theorem Program.eval_eq (depth : Nat) (p : Program) :
    p.eval depth scope =
      Eval.catchReturn some (evalStmts (applyWithin depth) scope none p.statements) :=
  evalProgramStmts_eq none p.statements

end Monkey

import Monkey.Evaluation

/-!
# Any piece of a program

A whole program, a statement or an expression, each of which can be shown and evaluated by itself.
-/

namespace Monkey

inductive Node where
  | program (p : Program)
  | stmt (s : Stmt)
  | expr (e : Expr)

namespace Node

def render : Node → String
  | program p => p.render
  | stmt s => s.render
  | expr e => e.render

/-- The text of the token a piece begins with. -/
def literal : Node → String
  | program p => p.literal
  | stmt s => s.literal
  | expr e => e.literal

def eval (depth scope : Nat) : Node → Eval (Option Value)
  | program p => p.eval depth scope
  | stmt s => s.eval (applyWithin depth) scope
  | expr e => do
    let v ← e.eval (applyWithin depth) scope
    return some v

end Node

end Monkey

import Monkey.Program

/-!
# The text of a program

Operators and indexing are written with parentheses around them, so the text of an expression
without `if` and `fn` reads back as the same expression.  Blocks are written without their braces.
-/

namespace Monkey

mutual

def Expr.render : Expr → String
  | .absent => ""
  | .ident _ name => name
  | .int t _ => t.literal
  | .str _ s => "\"" ++ s ++ "\""
  | .bool t _ => t.literal
  | .unary _ op e => "(" ++ op.spelling ++ e.render ++ ")"
  | .binary _ l op r => "(" ++ l.render ++ " " ++ op.spelling ++ " " ++ r.render ++ ")"
  | .cond _ c yes none => "if" ++ c.render ++ " " ++ yes.render
  | .cond _ c yes (some no) => "if" ++ c.render ++ " " ++ yes.render ++ "else " ++ no.render
  | .func t ps body => t.literal ++ "(" ++ ", ".intercalate ps ++ ") " ++ body.render
  | .call _ f args => f.render ++ "(" ++ ", ".intercalate (renderExprs args) ++ ")"
  | .array _ es => "[" ++ ", ".intercalate (renderExprs es) ++ "]"
  | .index _ l i => "(" ++ l.render ++ "[" ++ i.render ++ "])"
  | .hash _ ps => "\x7b" ++ ", ".intercalate (renderPairs ps) ++ "\x7d"

def renderExprs : List Expr → List String
  | [] => []
  | e :: es => e.render :: renderExprs es

def renderPairs : List (Expr × Expr) → List String
  | [] => []
  | (k, v) :: ps => (k.render ++ ":" ++ v.render) :: renderPairs ps

def Stmt.render : Stmt → String
  | .bind t name e => t.literal ++ " " ++ name ++ " = " ++ e.render ++ ";"
  | .ret t .absent => t.literal ++ ";"
  | .ret t e => t.literal ++ " " ++ e.render ++ ";"
  | .expr _ e => e.render
  | .block b => b.render

def Block.render : Block → String
  | .mk _ ss => String.join (renderStmts ss)

def renderStmts : List Stmt → List String
  | [] => []
  | s :: ss => s.render :: renderStmts ss

end

/-- The statements of a program are written one after the other, with nothing between them. -/
def Program.render (p : Program) : String := String.join (renderStmts p.statements)

end Monkey

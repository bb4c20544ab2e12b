import Monkey.Token

/-!
# Programs

The tree of a program.  Every node carries the token it was made from; parameters and the names
bound by `let` are identifiers and need no token beside their text.

A tree put together by hand may leave an expression out.  `Expr.absent` marks such a place.  A
parsed program contains it in one position only, as the value of a `return` that gives none.
-/

namespace Monkey

/-- The operators written before their operand.  `other` is any spelling that has no meaning. -/
inductive UnaryOp where
  | not
  | neg
  | other (spelling : String)
  deriving DecidableEq

/-- The operators written between their operands.  `other` is any spelling that has no meaning. -/
inductive BinaryOp where
  | add
  | sub
  | mul
  | div
  | lt
  | gt
  | eq
  | ne
  | other (spelling : String)
  deriving DecidableEq

namespace UnaryOp

def spelling : UnaryOp → String
  | not => "!"
  | neg => "-"
  | other s => s

def ofSpelling (s : String) : UnaryOp :=
  if s = "!" then not else if s = "-" then neg else other s

end UnaryOp

namespace BinaryOp

def spelling : BinaryOp → String
  | add => "+"
  | sub => "-"
  | mul => "*"
  | div => "/"
  | lt => "<"
  | gt => ">"
  | eq => "=="
  | ne => "!="
  | other s => s

/-- The operators that have a meaning. -/
def all : List BinaryOp := [add, sub, mul, div, lt, gt, eq, ne]

def ofSpelling (s : String) : BinaryOp :=
  (all.find? (·.spelling = s)).getD (other s)

end BinaryOp

mutual

inductive Expr where
  /-- An expression that was left out. -/
  | absent
  | ident (token : Token) (name : String)
  | int (token : Token) (value : Int64)
  | str (token : Token) (value : String)
  | bool (token : Token) (value : Bool)
  | unary (token : Token) (op : UnaryOp) (operand : Expr)
  | binary (token : Token) (left : Expr) (op : BinaryOp) (right : Expr)
  | cond (token : Token) (condition : Expr) (consequence : Block) (alternative : Option Block)
  | func (token : Token) (params : List String) (body : Block)
  | call (token : Token) (callee : Expr) (args : List Expr)
  | array (token : Token) (elements : List Expr)
  | index (token : Token) (left : Expr) (index : Expr)
  | hash (token : Token) (pairs : List (Expr × Expr))

inductive Stmt where
  | bind (token : Token) (name : String) (value : Expr)
  /-- Leaves the function with a value; with `absent` when none is given. -/
  | ret (token : Token) (value : Expr)
  | expr (token : Token) (value : Expr)
  | block (body : Block)

/-- Statements between braces; the token is the opening brace. -/
inductive Block where
  | mk (token : Token) (statements : List Stmt)

end

instance : Inhabited Expr := ⟨.absent⟩

instance : Inhabited Block := ⟨.mk .endOfText []⟩

instance : Inhabited Stmt := ⟨.block default⟩

/-- A program is a list of statements. -/
structure Program where
  statements : List Stmt
  deriving Inhabited

/-- The text of the token an expression was made from. -/
def Expr.literal : Expr → String
  | absent => ""
  | ident t _ | int t _ | str t _ | bool t _ | unary t _ _ | binary t _ _ _ | cond t _ _ _
  | func t _ _ | call t _ _ | array t _ | index t _ _ | hash t _ => t.literal

def Block.literal : Block → String
  | mk t _ => t.literal

def Block.statements : Block → List Stmt
  | mk _ ss => ss

def Stmt.literal : Stmt → String
  | bind t _ _ | ret t _ | expr t _ => t.literal
  | block b => b.literal

/-- A program begins with the token of its first statement. -/
def Program.literal (p : Program) : String :=
  (p.statements.head?.map Stmt.literal).getD ""

end Monkey

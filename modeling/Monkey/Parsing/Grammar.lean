import Monkey.Parsing.Parsed
import Monkey.Program.Level

/-!
# The grammar

Each rule is a function from the tokens at hand.  An expression is an operand followed by operators
that bind tighter than the level asked for; the operators are taken from left to right.  A rule that
meets an error reports it and gives no value, and the rules around it go on where it stopped, so one
text may report several errors.

The rules call each other on ever fewer tokens, or on the same tokens one rule further down, and so
need no other bound.
-/

namespace Monkey.Grammar

open Parsed

/-- One parameter of a function. -/
def parameter (ts : List Token) : Parsed (Option String) (ts.length - 1) :=
  match ts with
  | [] => failed (.parameter .eof) [] (Nat.zero_le _)
  | t :: rest =>
    if t.kind = .ident then done (some t.literal) rest (Nat.le_refl _)
    else failed (.parameter t.kind) rest (Nat.le_refl _)

variable (tracing : Bool)

mutual

/-- An expression made of operators that bind tighter than `level`. -/
def expression (level : Level) (ts : List Token) : Parsed (Option Expr) (ts.length - 1) :=
  traced tracing .expression <|
    match ts with
    | [] => failed (.noExpression .eof) [] (Nat.zero_le _)
    | t :: rest =>
      if t.kind.startsExpr then
        (operand t rest).andThen fun first us hu =>
          (operators level first us).widen hu
      else failed (.noExpression t.kind) rest (Nat.le_refl _)
termination_by (ts.length, 1)

/-- What an expression begins with; `t` is its first token. -/
def operand (t : Token) (rest : List Token) : Parsed (Option Expr) rest.length :=
  match t.kind with
  | .ident => done (some (.ident t t.literal)) rest (Nat.le_refl _)
  | .int =>
    traced tracing .integer <|
      match decimal? t.literal with
      | some n => done (some (.int t n)) rest (Nat.le_refl _)
      | none => failed (.integerRange t.literal) rest (Nat.le_refl _)
  | .string => done (some (.str t t.literal)) rest (Nat.le_refl _)
  | .trueWord => done (some (.bool t true)) rest (Nat.le_refl _)
  | .falseWord => done (some (.bool t false)) rest (Nat.le_refl _)
  | .bang => unary t .not rest
  | .minus => unary t .neg rest
  | .lparen =>
    (expression .lowest rest).andThen fun inner us hu =>
      expecting .rparen us (by omega) fun _ vs hv => done inner vs (by omega)
  | .ifWord => conditional t rest
  | .fnWord => function t rest
  | .lbracket =>
    (separated .rbracket (fun ts h => expression .lowest ts) rest (Nat.le_refl _)).map
      fun elements => elements.map (.array t)
  | .lbrace => (hashPairs rest).map fun pairs => pairs.map (.hash t)
  | _ => failed (.noExpression t.kind) rest (Nat.le_refl _)
termination_by (rest.length + 1, 0)

/-- The operand of an operator written before it. -/
def unary (t : Token) (op : UnaryOp) (rest : List Token) : Parsed (Option Expr) rest.length :=
  traced tracing .unary <|
    ((expression .unary rest).map fun e => e.map (.unary t op)).widen (by omega)
termination_by (rest.length, 2)

/-- The operators that follow an operand, as long as they bind tighter than `level`. -/
def operators (level : Level) (left : Option Expr) (ts : List Token) :
    Parsed (Option Expr) ts.length :=
  match ts with
  | [] => done left [] (Nat.le_refl _)
  | t :: rest =>
    if level.rank < t.kind.level.rank then
      (operator left t rest).andThen fun whole us hu =>
        (operators level whole us).widen (by simp; omega)
    else done left (t :: rest) (Nat.le_refl _)
termination_by (ts.length, 1)

/-- One operator `t` after its left operand. -/
def operator (left : Option Expr) (t : Token) (rest : List Token) :
    Parsed (Option Expr) rest.length :=
  match t.kind with
  | .lparen =>
    (separated .rparen (fun ts h => expression .lowest ts) rest (Nat.le_refl _)).map
      fun args => do return .call t (← left) (← args)
  | .lbracket =>
    (expression .lowest rest).andThen fun i us hu =>
      expecting .rbracket us (by omega) fun _ vs hv =>
        done (do return .index t (← left) (← i)) vs (by omega)
  | kind =>
    traced tracing .binary <|
      ((expression kind.level rest).map fun right => do
        return .binary t (← left) (← kind.binaryOp?) (← right)).widen (by omega)
termination_by (rest.length + 1, 0)

/-- A condition in parentheses, a block, and perhaps `else` with another block. -/
def conditional (t : Token) (rest : List Token) : Parsed (Option Expr) rest.length :=
  expecting .lparen rest (Nat.le_refl _) fun _ us hu =>
    (expression .lowest us).andThen fun c vs hv =>
      match c with
      | none => done none vs (by omega)
      | some c =>
        expecting .rparen vs (by omega) fun _ ws hw =>
          expecting .lbrace ws (by omega) fun brace xs hx =>
            (block xs).andThen fun yes ys hy =>
              if nextKind ys = .elseWord then
                have ht : ys.tail.length ≤ ys.length := by simp
                expecting .lbrace ys.tail (by omega) fun brace' zs hz =>
                  ((block zs).map fun no =>
                    some (.cond t c (.mk brace yes) (some (.mk brace' no)))).widen (by omega)
              else done (some (.cond t c (.mk brace yes) none)) ys (by omega)
termination_by (rest.length, 2)

/-- Parameters in parentheses and a block. -/
def function (t : Token) (rest : List Token) : Parsed (Option Expr) rest.length :=
  expecting .lparen rest (Nat.le_refl _) fun _ us hu =>
    (separated .rparen (fun ts _ => parameter ts) us (Nat.le_refl _)).andThen fun ps vs hv =>
      match ps with
      | none => done none vs (by omega)
      | some ps =>
        expecting .lbrace vs (by omega) fun brace ws hw =>
          ((block ws).map fun body => some (.func t ps (.mk brace body))).widen (by omega)
termination_by (rest.length, 2)

/-- Keys and values up to and including the closing brace; a comma may follow the last pair. -/
def hashPairs (ts : List Token) : Parsed (Option (List (Expr × Expr))) ts.length :=
  if nextKind ts = .rbrace then done (some []) ts.tail (by simp)
  else
    (expression .lowest ts).andThen fun key us hu =>
      expecting .colon us (by omega) fun _ vs hv =>
        (expression .lowest vs).andThen fun value ws hw =>
          match key, value with
          | some k, some v =>
            if nextKind ws = .rbrace then done (some [(k, v)]) ws.tail (by simp; omega)
            else
              expecting .comma ws (by omega) fun _ xs hx =>
                ((hashPairs xs).map fun ps => ps.map ((k, v) :: ·)).widen (by omega)
          | _, _ => done none ws (by omega)
termination_by (ts.length, 2)

/-- Statements up to and including a closing brace, or up to the end of the text. -/
def block (ts : List Token) : Parsed (List Stmt) ts.length :=
  match ts with
  | [] => done [] [] (Nat.le_refl _)
  | t :: rest =>
    if t.kind = .rbrace then done [] rest (by simp)
    else
      (statement t rest).andThen fun s us hu =>
        ((block us).map (s.toList ++ ·)).widen (by simp; omega)
termination_by (ts.length, 4)

/-- One statement; `t` is its first token. -/
def statement (t : Token) (rest : List Token) : Parsed (Option Stmt) rest.length :=
  match t.kind with
  | .letWord =>
    expecting .ident rest (Nat.le_refl _) fun name us hu =>
      expecting .assign us (by omega) fun _ vs hv =>
        (expression .lowest vs).andThen fun e ws hw =>
          match e with
          | none => done none ws (by omega)
          | some e =>
            done (some (.bind t name.literal e)) (skipSemicolon ws)
              (by have := length_skipSemicolon_le ws; omega)
  | .returnWord =>
    if nextKind rest = .semicolon then done (some (.ret t .absent)) rest.tail (by simp)
    else if nextKind rest = .rbrace ∨ nextKind rest = .eof then
      done (some (.ret t .absent)) rest (Nat.le_refl _)
    else
      (expression .lowest rest).andThen fun e us hu =>
        match e with
        | none => done none us (by omega)
        | some e =>
          done (some (.ret t e)) (skipSemicolon us)
            (by have := length_skipSemicolon_le us; omega)
  | _ =>
    traced tracing .statement <|
      (expression .lowest (t :: rest)).andThen fun e us hu =>
        match e with
        | none => done none us hu
        | some e =>
          done (some (.expr t e)) (skipSemicolon us)
            (Nat.le_trans (length_skipSemicolon_le us) hu)
termination_by (rest.length + 1, 3)

end

/-- Statements up to the end of the text. -/
def statements (ts : List Token) : Parsed (List Stmt) ts.length :=
  match ts with
  | [] => done [] [] (Nat.le_refl _)
  | t :: rest =>
    (statement tracing t rest).andThen fun s us hu =>
      ((statements us).map (s.toList ++ ·)).widen (by simp; omega)
termination_by ts.length

end Monkey.Grammar

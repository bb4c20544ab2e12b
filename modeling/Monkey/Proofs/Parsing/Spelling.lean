import Monkey.Proofs.Program.WellFormed

/-!
# The spellings of a program

`Spells m e ts` says that the tokens `ts` spell the expression `e` in a place that takes whatever
binds at least as tightly as `m` without parentheses.  The places are numbered like the strata of
the grammar: 1 takes every expression, an operator of stratum `n` has a left operand of `n` and a
right one of `n + 1`, an operator before its operand takes 5, and what is called or indexed takes 6.
Parentheses may stand around any expression, as often as one likes.

Every statement ends with a semicolon, and a comma may follow the last pair of a hash.
-/

namespace Monkey

/-- Names with commas between them. -/
inductive SpellsNames : List String → List Token → Prop where
  | nil : SpellsNames [] []
  | one {x : Token} : x.kind = .ident → SpellsNames [x.literal] [x]
  | more {x c : Token} {y : String} {xs : List String} {ts : List Token} :
      x.kind = .ident → c.kind = .comma → SpellsNames (y :: xs) ts →
      SpellsNames (x.literal :: y :: xs) (x :: c :: ts)

mutual

inductive Spells : Nat → Expr → List Token → Prop where
  | parens {m : Nat} {o c : Token} {e : Expr} {ts : List Token} :
      o.kind = .lparen → c.kind = .rparen → Spells 1 e ts → Spells m e (o :: (ts ++ [c]))
  | ident {m : Nat} {t : Token} : t.kind = .ident → Spells m (.ident t t.literal) [t]
  | int {m : Nat} {t : Token} :
      t.kind = .int → numeral t.literal < 2 ^ 63 →
      Spells m (.int t (Int64.ofNat (numeral t.literal))) [t]
  | str {m : Nat} {t : Token} : t.kind = .string → Spells m (.str t t.literal) [t]
  | true {m : Nat} {t : Token} : t.kind = .trueWord → Spells m (.bool t true) [t]
  | false {m : Nat} {t : Token} : t.kind = .falseWord → Spells m (.bool t false) [t]
  | not {m : Nat} {t : Token} {e : Expr} {ts : List Token} :
      m ≤ 5 → t.kind = .bang → Spells 5 e ts → Spells m (.unary t .not e) (t :: ts)
  | neg {m : Nat} {t : Token} {e : Expr} {ts : List Token} :
      m ≤ 5 → t.kind = .minus → Spells 5 e ts → Spells m (.unary t .neg e) (t :: ts)
  | binary {m n : Nat} {t : Token} {op : BinaryOp} {l r : Expr} {ls rs : List Token} :
      m ≤ n → (t.kind, op) ∈ operatorsAt n → Spells n l ls → Spells (n + 1) r rs →
      Spells m (.binary t l op r) (ls ++ t :: rs)
  | call {m : Nat} {t c : Token} {f : Expr} {args : List Expr} {fs ts : List Token} :
      Spells 6 f fs → t.kind = .lparen → SpellsList args ts → c.kind = .rparen →
      Spells m (.call t f args) (fs ++ t :: (ts ++ [c]))
  | index {m : Nat} {t c : Token} {l i : Expr} {ls is : List Token} :
      Spells 6 l ls → t.kind = .lbracket → Spells 1 i is → c.kind = .rbracket →
      Spells m (.index t l i) (ls ++ t :: (is ++ [c]))
  | cond {m : Nat} {t o p : Token} {c : Expr} {yes : Block} {cs ys : List Token} :
      t.kind = .ifWord → o.kind = .lparen → Spells 1 c cs → p.kind = .rparen →
      SpellsBlock yes ys → Spells m (.cond t c yes none) (t :: o :: (cs ++ p :: ys))
  | condElse {m : Nat} {t o p e : Token} {c : Expr} {yes no : Block} {cs ys ns : List Token} :
      t.kind = .ifWord → o.kind = .lparen → Spells 1 c cs → p.kind = .rparen →
      SpellsBlock yes ys → e.kind = .elseWord → SpellsBlock no ns →
      Spells m (.cond t c yes (some no)) (t :: o :: (cs ++ p :: (ys ++ e :: ns)))
  | func {m : Nat} {t o c : Token} {xs : List String} {body : Block} {ts bs : List Token} :
      t.kind = .fnWord → o.kind = .lparen → SpellsNames xs ts → c.kind = .rparen →
      SpellsBlock body bs → Spells m (.func t xs body) (t :: o :: (ts ++ c :: bs))
  | array {m : Nat} {t c : Token} {es : List Expr} {ts : List Token} :
      t.kind = .lbracket → SpellsList es ts → c.kind = .rbracket →
      Spells m (.array t es) (t :: (ts ++ [c]))
  | hash {m : Nat} {t c : Token} {ps : List (Expr × Expr)} {ts : List Token} :
      t.kind = .lbrace → SpellsPairs ps ts → c.kind = .rbrace →
      Spells m (.hash t ps) (t :: (ts ++ [c]))

/-- Expressions with commas between them. -/
inductive SpellsList : List Expr → List Token → Prop where
  | nil : SpellsList [] []
  | one {e : Expr} {ts : List Token} : Spells 1 e ts → SpellsList [e] ts
  | more {e e' : Expr} {es : List Expr} {c : Token} {ts us : List Token} :
      Spells 1 e ts → c.kind = .comma → SpellsList (e' :: es) us →
      SpellsList (e :: e' :: es) (ts ++ c :: us)

/-- Keys and values with commas between them, and perhaps a comma at the end. -/
inductive SpellsPairs : List (Expr × Expr) → List Token → Prop where
  | nil : SpellsPairs [] []
  | one {k v : Expr} {d : Token} {ks vs : List Token} :
      Spells 1 k ks → d.kind = .colon → Spells 1 v vs → SpellsPairs [(k, v)] (ks ++ d :: vs)
  | more {k v : Expr} {ps : List (Expr × Expr)} {d c : Token} {ks vs ts : List Token} :
      Spells 1 k ks → d.kind = .colon → Spells 1 v vs → c.kind = .comma → SpellsPairs ps ts →
      SpellsPairs ((k, v) :: ps) (ks ++ d :: (vs ++ c :: ts))

/-- Statements between braces. -/
inductive SpellsBlock : Block → List Token → Prop where
  | mk {b c : Token} {ss : List Stmt} {ts : List Token} :
      b.kind = .lbrace → SpellsStmts ss ts → c.kind = .rbrace →
      SpellsBlock (.mk b ss) (b :: (ts ++ [c]))

/-- A statement with its semicolon. -/
inductive SpellsStmt : Stmt → List Token → Prop where
  | bind {t x a c : Token} {e : Expr} {ts : List Token} :
      t.kind = .letWord → x.kind = .ident → a.kind = .assign → Spells 1 e ts →
      c.kind = .semicolon → SpellsStmt (.bind t x.literal e) (t :: x :: a :: (ts ++ [c]))
  | ret {t c : Token} {e : Expr} {ts : List Token} :
      t.kind = .returnWord → Spells 1 e ts → c.kind = .semicolon →
      SpellsStmt (.ret t e) (t :: (ts ++ [c]))
  | retNothing {t c : Token} :
      t.kind = .returnWord → c.kind = .semicolon → SpellsStmt (.ret t .absent) [t, c]
  | expr {t c : Token} {e : Expr} {ts : List Token} :
      Spells 1 e ts → c.kind = .semicolon → SpellsStmt (.expr t e) (ts ++ [c])

inductive SpellsStmts : List Stmt → List Token → Prop where
  | nil : SpellsStmts [] []
  | cons {s : Stmt} {ss : List Stmt} {ts us : List Token} :
      SpellsStmt s ts → SpellsStmts ss us → SpellsStmts (s :: ss) (ts ++ us)

end

/-- The tokens spell the program. -/
def Program.Spelled (p : Program) (ts : List Token) : Prop := SpellsStmts p.statements ts

/-! ## The token of an expression statement

It is the first token of the spelling, so it can be any parenthesis, and two trees that differ in it
alone count as one. -/

mutual

/-- The tree with the same token on every expression statement. -/
def Expr.unmarked : Expr → Expr
  | .absent => .absent
  | .ident t x => .ident t x
  | .int t n => .int t n
  | .str t s => .str t s
  | .bool t b => .bool t b
  | .unary t op e => .unary t op e.unmarked
  | .binary t l op r => .binary t l.unmarked op r.unmarked
  | .cond t c yes none => .cond t c.unmarked yes.unmarked none
  | .cond t c yes (some no) => .cond t c.unmarked yes.unmarked (some no.unmarked)
  | .func t xs body => .func t xs body.unmarked
  | .call t f args => .call t f.unmarked (unmarkedExprs args)
  | .array t es => .array t (unmarkedExprs es)
  | .index t l i => .index t l.unmarked i.unmarked
  | .hash t ps => .hash t (unmarkedPairs ps)

def unmarkedExprs : List Expr → List Expr
  | [] => []
  | e :: es => e.unmarked :: unmarkedExprs es

def unmarkedPairs : List (Expr × Expr) → List (Expr × Expr)
  | [] => []
  | (k, v) :: ps => (k.unmarked, v.unmarked) :: unmarkedPairs ps

def Stmt.unmarked : Stmt → Stmt
  | .bind t x e => .bind t x e.unmarked
  | .ret t e => .ret t e.unmarked
  | .expr _ e => .expr .endOfText e.unmarked
  | .block b => .block b.unmarked

def unmarkedStmts : List Stmt → List Stmt
  | [] => []
  | s :: ss => s.unmarked :: unmarkedStmts ss

def Block.unmarked : Block → Block
  | .mk t ss => .mk t (unmarkedStmts ss)

end

def Program.unmarked (p : Program) : Program := ⟨unmarkedStmts p.statements⟩

end Monkey

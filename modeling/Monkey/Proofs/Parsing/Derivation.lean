import Mathlib.Data.Nat.Digits.Defs
import Monkey.Parsing

/-!
# The grammar as a relation

Each relation below takes tokens from the front of a list: `Derives… ts x rest` says that `ts` is a
derivation of `x` followed by `rest`.  A rule names every token it takes, so a derivation leaves
nothing out and adds nothing.

Expressions come in strata.  Strata 1 to 4 are the operators between two operands, from the loosest;
their operators group to the left.  Stratum 5 has the operators written before their operand, and
stratum 6 the calls and indexings written after theirs.

What follows matters in two places only: a `return` without a value, and a block that is not closed.
-/

namespace Monkey

/-- The operators of a stratum. -/
def operatorsAt : Nat → List (Token.Kind × BinaryOp)
  | 1 => [(.equal, .eq), (.notEqual, .ne)]
  | 2 => [(.lessThan, .lt), (.greaterThan, .gt)]
  | 3 => [(.plus, .add), (.minus, .sub)]
  | 4 => [(.asterisk, .mul), (.slash, .div)]
  | _ => []

/-- The number that a row of decimal digits stands for. -/
def numeral (digits : String) : Nat :=
  Nat.ofDigits 10 (digits.toList.reverse.map fun c => c.toNat - '0'.toNat)

/-- The semicolon after a statement, or nothing. -/
inductive DerivesEnd : List Token → List Token → Prop where
  | semicolon {c : Token} {rest : List Token} : c.kind = .semicolon → DerivesEnd (c :: rest) rest
  | none {rest : List Token} : DerivesEnd rest rest

/-- One or more identifiers with commas between them, up to the closing parenthesis. -/
inductive DerivesNames : List Token → List String → List Token → Prop where
  | last {x c : Token} {rest : List Token} :
      x.kind = .ident → c.kind = .rparen → DerivesNames (x :: c :: rest) [x.literal] rest
  | more {x c : Token} {us rest : List Token} {xs : List String} :
      x.kind = .ident → c.kind = .comma → DerivesNames us xs rest →
      DerivesNames (x :: c :: us) (x.literal :: xs) rest

/-- The parameters of a function, up to the closing parenthesis. -/
inductive DerivesParams : List Token → List String → List Token → Prop where
  | none {c : Token} {rest : List Token} : c.kind = .rparen → DerivesParams (c :: rest) [] rest
  | some {ts rest : List Token} {xs : List String} :
      DerivesNames ts xs rest → DerivesParams ts xs rest

mutual

/-- An expression of a stratum. -/
inductive DerivesExpr : Nat → List Token → Expr → List Token → Prop where
  | tighter {n : Nat} {ts rest : List Token} {e : Expr} :
      DerivesExpr (n + 1) ts e rest → DerivesExpr n ts e rest
  | binary {n : Nat} {ts us rest : List Token} {t : Token} {op : BinaryOp} {a b : Expr} :
      DerivesExpr n ts a (t :: us) → (t.kind, op) ∈ operatorsAt n → DerivesExpr (n + 1) us b rest →
      DerivesExpr n ts (.binary t a op b) rest
  | not {t : Token} {us rest : List Token} {e : Expr} :
      t.kind = .bang → DerivesExpr 5 us e rest → DerivesExpr 5 (t :: us) (.unary t .not e) rest
  | neg {t : Token} {us rest : List Token} {e : Expr} :
      t.kind = .minus → DerivesExpr 5 us e rest → DerivesExpr 5 (t :: us) (.unary t .neg e) rest
  | call {ts us rest : List Token} {t : Token} {f : Expr} {args : List Expr} :
      DerivesExpr 6 ts f (t :: us) → t.kind = .lparen → DerivesList .rparen us args rest →
      DerivesExpr 6 ts (.call t f args) rest
  | index {ts us rest : List Token} {t c : Token} {l i : Expr} :
      DerivesExpr 6 ts l (t :: us) → t.kind = .lbracket → DerivesExpr 1 us i (c :: rest) →
      c.kind = .rbracket → DerivesExpr 6 ts (.index t l i) rest
  | primary {ts rest : List Token} {e : Expr} : DerivesPrimary ts e rest → DerivesExpr 6 ts e rest

/-- An expression that begins and ends with tokens of its own. -/
inductive DerivesPrimary : List Token → Expr → List Token → Prop where
  | ident {t : Token} {rest : List Token} :
      t.kind = .ident → DerivesPrimary (t :: rest) (.ident t t.literal) rest
  | int {t : Token} {rest : List Token} :
      t.kind = .int → numeral t.literal < 2 ^ 63 →
      DerivesPrimary (t :: rest) (.int t (Int64.ofNat (numeral t.literal))) rest
  | str {t : Token} {rest : List Token} :
      t.kind = .string → DerivesPrimary (t :: rest) (.str t t.literal) rest
  | true {t : Token} {rest : List Token} :
      t.kind = .trueWord → DerivesPrimary (t :: rest) (.bool t true) rest
  | false {t : Token} {rest : List Token} :
      t.kind = .falseWord → DerivesPrimary (t :: rest) (.bool t false) rest
  | group {t c : Token} {us rest : List Token} {e : Expr} :
      t.kind = .lparen → DerivesExpr 1 us e (c :: rest) → c.kind = .rparen →
      DerivesPrimary (t :: us) e rest
  | cond {t o p : Token} {us vs rest : List Token} {c : Expr} {yes : Block} :
      t.kind = .ifWord → o.kind = .lparen → DerivesExpr 1 us c (p :: vs) → p.kind = .rparen →
      DerivesBlock vs yes rest → DerivesPrimary (t :: o :: us) (.cond t c yes none) rest
  | condElse {t o p e : Token} {us vs ws rest : List Token} {c : Expr} {yes no : Block} :
      t.kind = .ifWord → o.kind = .lparen → DerivesExpr 1 us c (p :: vs) → p.kind = .rparen →
      DerivesBlock vs yes (e :: ws) → e.kind = .elseWord → DerivesBlock ws no rest →
      DerivesPrimary (t :: o :: us) (.cond t c yes (some no)) rest
  | func {t o : Token} {us vs rest : List Token} {params : List String} {body : Block} :
      t.kind = .fnWord → o.kind = .lparen → DerivesParams us params vs → DerivesBlock vs body rest →
      DerivesPrimary (t :: o :: us) (.func t params body) rest
  | array {t : Token} {us rest : List Token} {es : List Expr} :
      t.kind = .lbracket → DerivesList .rbracket us es rest →
      DerivesPrimary (t :: us) (.array t es) rest
  | hash {t : Token} {us rest : List Token} {ps : List (Expr × Expr)} :
      t.kind = .lbrace → DerivesPairs us ps rest → DerivesPrimary (t :: us) (.hash t ps) rest

/-- One or more expressions with commas between them, up to a closing token. -/
inductive DerivesItems : Token.Kind → List Token → List Expr → List Token → Prop where
  | last {close : Token.Kind} {ts rest : List Token} {c : Token} {e : Expr} :
      DerivesExpr 1 ts e (c :: rest) → c.kind = close → DerivesItems close ts [e] rest
  | more {close : Token.Kind} {ts us rest : List Token} {c : Token} {e : Expr} {es : List Expr} :
      DerivesExpr 1 ts e (c :: us) → c.kind = .comma → DerivesItems close us es rest →
      DerivesItems close ts (e :: es) rest

/-- Expressions with commas between them, perhaps none, up to a closing token. -/
inductive DerivesList : Token.Kind → List Token → List Expr → List Token → Prop where
  | none {close : Token.Kind} {c : Token} {rest : List Token} :
      c.kind = close → DerivesList close (c :: rest) [] rest
  | some {close : Token.Kind} {ts rest : List Token} {es : List Expr} :
      DerivesItems close ts es rest → DerivesList close ts es rest

/-- Keys and values up to the closing brace.  After a pair stands a comma or the closing brace, so a
comma may follow the last pair. -/
inductive DerivesPairs : List Token → List (Expr × Expr) → List Token → Prop where
  | none {c : Token} {rest : List Token} : c.kind = .rbrace → DerivesPairs (c :: rest) [] rest
  | last {ts us rest : List Token} {d c : Token} {k v : Expr} :
      DerivesExpr 1 ts k (d :: us) → d.kind = .colon → DerivesExpr 1 us v (c :: rest) →
      c.kind = .rbrace → DerivesPairs ts [(k, v)] rest
  | more {ts us vs rest : List Token} {d c : Token} {k v : Expr} {ps : List (Expr × Expr)} :
      DerivesExpr 1 ts k (d :: us) → d.kind = .colon → DerivesExpr 1 us v (c :: vs) →
      c.kind = .comma → DerivesPairs vs ps rest → DerivesPairs ts ((k, v) :: ps) rest

/-- Statements between braces.  The closing brace may be missing where the text ends. -/
inductive DerivesBlock : List Token → Block → List Token → Prop where
  | closed {b c : Token} {ts rest : List Token} {ss : List Stmt} :
      b.kind = .lbrace → DerivesStmts ts ss (c :: rest) → c.kind = .rbrace →
      DerivesBlock (b :: ts) (.mk b ss) rest
  | unclosed {b : Token} {ts : List Token} {ss : List Stmt} :
      b.kind = .lbrace → DerivesStmts ts ss [] → DerivesBlock (b :: ts) (.mk b ss) []

/-- One statement. -/
inductive DerivesStmt : List Token → Stmt → List Token → Prop where
  | bind {t x a : Token} {us vs rest : List Token} {e : Expr} :
      t.kind = .letWord → x.kind = .ident → a.kind = .assign → DerivesExpr 1 us e vs →
      DerivesEnd vs rest → DerivesStmt (t :: x :: a :: us) (.bind t x.literal e) rest
  | ret {t : Token} {us vs rest : List Token} {e : Expr} :
      t.kind = .returnWord → DerivesExpr 1 us e vs → DerivesEnd vs rest →
      DerivesStmt (t :: us) (.ret t e) rest
  | retNothing {t c : Token} {rest : List Token} :
      t.kind = .returnWord → c.kind = .semicolon →
      DerivesStmt (t :: c :: rest) (.ret t .absent) rest
  | retLast {t : Token} {rest : List Token} :
      t.kind = .returnWord → nextKind rest = .rbrace ∨ nextKind rest = .eof →
      DerivesStmt (t :: rest) (.ret t .absent) rest
  | expr {t : Token} {us vs rest : List Token} {e : Expr} :
      DerivesExpr 1 (t :: us) e vs → DerivesEnd vs rest → DerivesStmt (t :: us) (.expr t e) rest

/-- Statements one after the other. -/
inductive DerivesStmts : List Token → List Stmt → List Token → Prop where
  | nil {ts : List Token} : DerivesStmts ts [] ts
  | cons {ts us rest : List Token} {s : Stmt} {ss : List Stmt} :
      DerivesStmt ts s us → DerivesStmts us ss rest → DerivesStmts ts (s :: ss) rest

end

/-- All the tokens are a derivation of the program. -/
def Program.Derives (p : Program) (ts : List Token) : Prop := DerivesStmts ts p.statements []

end Monkey

import Mathlib
import Monkey.Parsing

/-!
# A parser with a cursor

The grammar once more, as a parser that holds a current token, looks at the next one, and moves
forward by one token at a time.  At the end of the text it can still be told to move and then stays
where it is.  Its routines and loops call each other as they need, and nothing in their definitions
says that they return.  So what a routine does is defined for any routines that it may call, and
calls are then unrolled to any depth.  A run that returns at one depth is the same at every greater
one (`below_within`), so a depth stands for nothing that the parser itself counts.

On the way it records how many tokens were left: when an expression begins inside another one, when
a routine returns, and when a loop comes back to its head.
-/

namespace Monkey

/-- What is recorded of a run.  The numbers are numbers of tokens, from the current one to the end
of the text. -/
inductive Reader.Event where
  /-- An expression begins, perhaps inside another one. -/
  | nested (outer : Option Nat) (inner : Nat)
  /-- A routine returns. -/
  | returned (before after : Nat)
  /-- A loop comes back to its head. -/
  | round (before after : Nat)
  deriving DecidableEq

structure Reader where
  /-- The current token and all tokens after it; none are left at the end of the text. -/
  left : List Token
  ne_eof : ∀ t ∈ left, t.kind ≠ .eof
  errors : List ParseError
  trace : List TraceEvent
  /-- How many tokens were left where the innermost expression began. -/
  enclosing : Option Nat
  /-- The latest event comes first. -/
  log : List Reader.Event

abbrev Read (α : Type) := StateT Reader Option α

namespace Reader

/-- The parser at the beginning of a list of tokens, of which it sees those before the first that
ends a text. -/
def ofTokens (ts : List Token) : Reader where
  left := ts.takeWhile (·.kind ≠ .eof)
  ne_eof t ht := by simpa using List.all_eq_true.mp List.all_takeWhile t ht
  errors := []
  trace := []
  enclosing := none
  log := []

/-! ## 1. Moves -/

/-- The next token becomes the current one. -/
def next (s : Reader) : Reader :=
  { s with
    left := s.left.tail
    ne_eof := fun t ht => s.ne_eof t (List.mem_of_mem_tail ht) }

def record (e : Event) (s : Reader) : Reader := { s with log := e :: s.log }

/-- An expression begins at the current token. -/
def inside (s : Reader) : Reader :=
  { s.record (.nested s.enclosing s.left.length) with enclosing := some s.left.length }

def advance : Read Unit := modify next

def current : Read Token := return (← get).left.headD .endOfText

def peek : Read Token.Kind := return nextKind (← get).left.tail

def count : Read Nat := return (← get).left.length

def report (e : ParseError) : Read Unit := modify fun s => { s with errors := s.errors ++ [e] }

def note (tracing : Bool) (e : TraceEvent) : Read Unit :=
  modify fun s => if tracing then { s with trace := s.trace ++ [e] } else s

/-- Moves forward if the next token is of the kind that is needed, and reports an error
otherwise. -/
def expectPeek (want : Token.Kind) : Read Bool := do
  let got ← peek
  if got = want then
    advance
    return true
  else
    report (.expected want got)
    return false

/-- Moves over the comma after a pair, which may be left out before the closing brace. -/
def pairEnd : Read Bool := do
  if (← peek) = .rbrace then return true else expectPeek .comma

def skipSemicolon : Read Unit := do
  if (← peek) = .semicolon then advance

/-! ## 2. What is recorded -/

section

variable {α : Type}

def expecting (want : Token.Kind) (go : Token → Read (Option α)) :
    Read (Option α) := do
  if ← expectPeek want then
    let t ← current
    go t
  else return none

def called (body : Read α) : Read α := do
  let before ← count
  let a ← body
  -- only a routine that returns gets here
  modify fun s => s.record (.returned before s.left.length)
  return a

def traced (tracing : Bool) (rule : Rule) (body : Read α) : Read α := do
  note tracing (.enter rule)
  let a ← body
  note tracing (.leave rule)
  return a

/-- An expression, around whatever expressions begin in it. -/
def nesting (body : Read α) : Read α := do
  let outer := (← get).enclosing
  modify inside
  let a ← body
  modify fun s => { s with enclosing := outer }
  return a

/-- A loop that was at its head when `before` tokens were left comes back there. -/
def comeBack (before : Nat) : Read Unit :=
  modify fun s => s.record (.round before s.left.length)

end

/-! ## 3. The routines -/

/-- What the elements of a list are. -/
inductive Element where
  | expression
  | parameter

@[reducible] def Element.Result : Element → Type
  | expression => Expr
  | parameter => String

/-- The routines that are called.  A loop is a routine that calls itself at its end. -/
structure Routines where
  expression : Level → Read (Option Expr)
  operand : Token → Read (Option Expr)
  operators : Level → Option Expr → Read (Option Expr)
  operator : Option Expr → Token → Read (Option Expr)
  hashPairs : Read (Option (List (Expr × Expr)))
  list : Token.Kind → (e : Element) → Read (Option (List e.Result))
  listRest : Token.Kind → (e : Element) → Read (Option (List e.Result))
  block : Read (List Stmt)
  blockStatements : Read (List Stmt)
  statement : Read (Option Stmt)
  statements : Read (List Stmt)

def parameter : Read (Option String) := do
  let t ← current
  if t.kind = .ident then return some t.literal
  else
    report (.parameter t.kind)
    return none

section

variable (tracing : Bool) (call : Routines)

def expression (level : Level) : Read (Option Expr) :=
  called <| traced tracing .expression <| nesting do
    -- the expression begins with the current token
    let t ← current
    if t.kind.startsExpr then
      let first ← call.operand t
      call.operators level first
    else
      report (.noExpression t.kind)
      return none

def unary (t : Token) (op : UnaryOp) : Read (Option Expr) :=
  traced tracing .unary do
    advance
    let e ← call.expression .unary
    return e.map (.unary t op)

def grouped : Read (Option Expr) := do
  advance
  let e ← call.expression .lowest
  expecting .rparen fun _ => return e

def conditional (t : Token) : Read (Option Expr) :=
  expecting .lparen fun _ => do
    advance
    let c ← call.expression .lowest
    match c with
    | none => return none
    | some c =>
      expecting .rparen fun _ =>
        expecting .lbrace fun brace => do
          let yes ← call.block
          if (← peek) = .elseWord then
            advance
            expecting .lbrace fun brace' => do
              let no ← call.block
              return some (.cond t c (.mk brace yes) (some (.mk brace' no)))
          else return some (.cond t c (.mk brace yes) none)

def function (t : Token) : Read (Option Expr) :=
  expecting .lparen fun _ => do
    let params ← call.list .rparen .parameter
    match params with
    | none => return none
    | some params =>
      expecting .lbrace fun brace => do
        let body ← call.block
        return some (.func t params (.mk brace body))

/-- What an expression begins with; `t` is the current token. -/
def operand (t : Token) : Read (Option Expr) :=
  called <|
    match t.kind with
    | .ident => return some (.ident t t.literal)
    | .int =>
      traced tracing .integer <|
        match decimal? t.literal with
        | some n => return some (.int t n)
        | none => do
          report (.integerRange t.literal)
          return none
    | .string => return some (.str t t.literal)
    | .trueWord => return some (.bool t true)
    | .falseWord => return some (.bool t false)
    | .bang => unary tracing call t .not
    | .minus => unary tracing call t .neg
    | .lparen => grouped call
    | .ifWord => conditional call t
    | .fnWord => function call t
    | .lbracket => do
      let elements ← call.list .rbracket .expression
      return elements.map (.array t)
    | .lbrace => do
      let pairs ← call.hashPairs
      return pairs.map (.hash t)
    | _ => do
      report (.noExpression t.kind)
      return none

def operators (level : Level) (left : Option Expr) : Read (Option Expr) := do
  let kind ← peek
  if kind ≠ .semicolon ∧ level.rank < kind.level.rank then
    let before ← count
    advance
    let t ← current
    let whole ← call.operator left t
    -- the whole may be the left operand of another operator
    comeBack before
    call.operators level whole
  else return left

/-- One operator after its left operand; `t` is the current token. -/
def operator (left : Option Expr) (t : Token) : Read (Option Expr) :=
  called <|
    match t.kind with
    | .lparen => do
      let args ← call.list .rparen .expression
      return do return .call t (← left) (← args)
    | .lbracket => do
      advance
      let i ← call.expression .lowest
      expecting .rbracket fun _ => return do return .index t (← left) (← i)
    | kind =>
      traced tracing .binary do
        advance
        let right ← call.expression kind.level
        return do return .binary t (← left) (← kind.binaryOp?) (← right)

def hashPairs : Read (Option (List (Expr × Expr))) := do
  if (← peek) = .rbrace then
    advance
    return some []
  else
    let before ← count
    advance
    let key ← call.expression .lowest
    expecting .colon fun _ => do
      advance
      let value ← call.expression .lowest
      match key, value with
      | some k, some v =>
        if ← pairEnd then
          -- another pair, or the brace
          comeBack before
          let others ← call.hashPairs
          return others.map ((k, v) :: ·)
        else return none
      | _, _ => return none

def element (e : Element) : Read (Option e.Result) :=
  match e with
  | .expression => call.expression .lowest
  | .parameter => parameter

def list (close : Token.Kind) (e : Element) : Read (Option (List e.Result)) :=
  called do
    if (← peek) = close then
      advance
      return some []
    else
      advance
      let first ← element call e
      let others ← call.listRest close e
      return do return (← first) :: (← others)

def listRest (close : Token.Kind) (e : Element) : Read (Option (List e.Result)) := do
  if (← peek) = .comma then
    let before ← count
    -- to the comma, and to the element after it
    advance
    advance
    let first ← element call e
    comeBack before
    let others ← call.listRest close e
    return do return (← first) :: (← others)
  else expecting close fun _ => return some []

def block : Read (List Stmt) :=
  called do
    advance
    call.blockStatements

def blockStatements : Read (List Stmt) := do
  let t ← current
  if t.kind = .rbrace ∨ t.kind = .eof then return []
  else
    let before ← count
    let s ← call.statement
    -- past the last token of the statement
    advance
    comeBack before
    let others ← call.blockStatements
    return s.toList ++ others

def binding (t : Token) : Read (Option Stmt) :=
  expecting .ident fun name => expecting .assign fun _ => do
    advance
    let e ← call.expression .lowest
    match e with
    | none => return none
    | some e =>
      skipSemicolon
      return some (.bind t name.literal e)

def returning (t : Token) : Read (Option Stmt) := do
  let kind ← peek
  if kind = .semicolon then
    advance
    return some (.ret t .absent)
  else if kind = .rbrace ∨ kind = .eof then return some (.ret t .absent)
  else
    advance
    let e ← call.expression .lowest
    match e with
    | none => return none
    | some e =>
      skipSemicolon
      return some (.ret t e)

def statement : Read (Option Stmt) :=
  called do
    let t ← current
    match t.kind with
    | .letWord => binding call t
    | .returnWord => returning call t
    | _ =>
      traced tracing .statement do
        let e ← call.expression .lowest
        match e with
        | none => return none
        | some e =>
          skipSemicolon
          return some (.expr t e)

def statements : Read (List Stmt) := do
  let t ← current
  if t.kind = .eof then return []
  else
    let before ← count
    let s ← call.statement
    advance
    comeBack before
    let others ← call.statements
    return s.toList ++ others

end

namespace Routines

-- no routine returns
def silent : Routines where
  expression _ _ := none
  operand _ _ := none
  operators _ _ _ := none
  operator _ _ _ := none
  hashPairs _ := none
  list _ _ _ := none
  listRest _ _ _ := none
  block _ := none
  blockStatements _ := none
  statement _ := none
  statements _ := none

/-- The routines, with one call unrolled. -/
def unroll (tracing : Bool) (call : Routines) : Routines where
  expression := Reader.expression tracing call
  operand := Reader.operand tracing call
  operators := Reader.operators call
  operator := Reader.operator tracing call
  hashPairs := Reader.hashPairs call
  list := Reader.list call
  listRest := Reader.listRest call
  block := Reader.block call
  blockStatements := Reader.blockStatements call
  statement := Reader.statement tracing call
  statements := Reader.statements call

/-- The routines, as far as they return while no more than `depth` calls are open. -/
def within (tracing : Bool) : Nat → Routines
  | 0 => silent
  | depth + 1 => unroll tracing (within tracing depth)

end Routines

/-! ## 4. Deeper unrolling -/

section

variable {α β : Type} {x x' : Read α} {f f' : α → Read β}

/-- Where the first one returns, the second one returns the same. -/
def Below (x y : Read α) : Prop := ∀ s r, x s = some r → y s = some r

theorem Below.refl (x : Read α) : Below x x := fun _ _ h => h

theorem Below.bind (hx : Below x x') (hf : ∀ a, Below (f a) (f' a)) :
    Below (x >>= f) (x' >>= f') := by
  intro s r h
  change (x s).bind (fun y => f y.1 y.2) = some r at h
  show (x' s).bind (fun y => f' y.1 y.2) = some r
  rw [Option.bind_eq_some_iff] at h ⊢
  obtain ⟨y, hy, hr⟩ := h
  exact ⟨y, hx s y hy, hf y.1 y.2 r hr⟩

theorem Below.after (hf : ∀ a, Below (f a) (f' a)) : Below (x >>= f) (x >>= f') :=
  (Below.refl x).bind hf

theorem Below.map (hx : Below x x') (g : α → β) :
    Below (do return g (← x)) (do return g (← x')) := hx.bind fun _ => .refl _

theorem Below.called (hx : Below x x') : Below (called x) (called x') :=
  .after fun _ => hx.bind fun _ => .refl _

theorem Below.traced (tracing : Bool) (rule : Rule) (hx : Below x x') :
    Below (traced tracing rule x) (traced tracing rule x') :=
  .after fun _ => hx.bind fun _ => .refl _

theorem Below.nesting (hx : Below x x') : Below (nesting x) (nesting x') :=
  .after fun _ => .after fun _ => hx.bind fun _ => .refl _

theorem below_expecting {want : Token.Kind} {go go' : Token → Read (Option α)}
    (h : ∀ t, Below (go t) (go' t)) : Below (expecting want go) (expecting want go') := by
  apply Below.after
  intro found
  split
  · exact .after h
  · exact .refl _

end

/-- Where a routine of the first returns, that of the second returns the same. -/
structure Routines.Below (call call' : Routines) : Prop where
  expression : ∀ level, Reader.Below (call.expression level) (call'.expression level)
  operand : ∀ t, Reader.Below (call.operand t) (call'.operand t)
  operators : ∀ level left,
    Reader.Below (call.operators level left) (call'.operators level left)
  operator : ∀ left t, Reader.Below (call.operator left t) (call'.operator left t)
  hashPairs : Reader.Below call.hashPairs call'.hashPairs
  list : ∀ close e, Reader.Below (call.list close e) (call'.list close e)
  listRest : ∀ close e, Reader.Below (call.listRest close e) (call'.listRest close e)
  block : Reader.Below call.block call'.block
  blockStatements : Reader.Below call.blockStatements call'.blockStatements
  statement : Reader.Below call.statement call'.statement
  statements : Reader.Below call.statements call'.statements

section

variable {tracing : Bool} {call call' : Routines}

theorem below_expression (h : call.Below call') (level : Level) :
    Below (expression tracing call level) (expression tracing call' level) := by
  apply Below.called
  apply Below.traced
  apply Below.nesting
  apply Below.after
  intro t
  split
  · exact (h.operand t).bind (h.operators level)
  · exact .refl _

theorem below_conditional (h : call.Below call') (t : Token) :
    Below (conditional call t) (conditional call' t) := by
  apply below_expecting
  intro _
  apply Below.after
  intro _
  apply (h.expression .lowest).bind
  intro c
  cases c with
  | none => exact .refl _
  | some c =>
    apply below_expecting
    intro _
    apply below_expecting
    intro brace
    apply h.block.bind
    intro yes
    apply Below.after
    intro kind
    split
    · apply Below.after
      intro _
      apply below_expecting
      intro brace'
      exact h.block.map _
    · exact .refl _

theorem below_function (h : call.Below call') (t : Token) :
    Below (function call t) (function call' t) := by
  apply below_expecting
  intro _
  apply (h.list .rparen .parameter).bind
  intro params
  cases params with
  | none => exact .refl _
  | some params =>
    apply below_expecting
    intro brace
    exact h.block.map _

theorem below_operand (h : call.Below call') (t : Token) :
    Below (operand tracing call t) (operand tracing call' t) := by
  have hunary (op : UnaryOp) : Below (unary tracing call t op) (unary tracing call' t op) := by
    apply Below.traced
    apply Below.after
    intro _
    exact (h.expression .unary).map _
  apply Below.called
  cases t.kind with
  | bang => exact hunary .not
  | minus => exact hunary .neg
  | lparen =>
    apply Below.after
    intro _
    exact (h.expression .lowest).bind fun _ => .refl _
  | ifWord => exact below_conditional h t
  | fnWord => exact below_function h t
  | lbracket => exact (h.list .rbracket .expression).map _
  | lbrace => exact h.hashPairs.map _
  | _ => exact .refl _

theorem below_operators (h : call.Below call') (level : Level) (left : Option Expr) :
    Below (operators call level left) (operators call' level left) := by
  apply Below.after
  intro kind
  split
  · apply Below.after
    intro before
    apply Below.after
    intro _
    apply Below.after
    intro t
    apply (h.operator left t).bind
    intro whole
    exact .after fun _ => h.operators level whole
  · exact .refl _

theorem below_operator (h : call.Below call') (left : Option Expr) (t : Token) :
    Below (operator tracing call left t) (operator tracing call' left t) := by
  apply Below.called
  cases t.kind with
  | lparen => exact (h.list .rparen .expression).map _
  | lbracket =>
    apply Below.after
    intro _
    exact (h.expression .lowest).bind fun _ => .refl _
  | _ =>
    apply Below.traced
    apply Below.after
    intro _
    exact (h.expression _).map _

theorem below_hashPairs (h : call.Below call') : Below (hashPairs call) (hashPairs call') := by
  apply Below.after
  intro kind
  split
  · exact .refl _
  · apply Below.after
    intro before
    apply Below.after
    intro _
    apply (h.expression .lowest).bind
    intro key
    apply below_expecting
    intro _
    apply Below.after
    intro _
    apply (h.expression .lowest).bind
    intro value
    cases key with
    | none => exact .refl _
    | some k =>
      cases value with
      | none => exact .refl _
      | some v =>
        apply Below.after
        intro more
        split
        · exact .after fun _ => h.hashPairs.map _
        · exact .refl _

theorem below_element (h : call.Below call') (e : Element) :
    Below (element call e) (element call' e) := by
  cases e with
  | expression => exact h.expression .lowest
  | parameter => exact .refl _

theorem below_list (h : call.Below call') (close : Token.Kind) (e : Element) :
    Below (list call close e) (list call' close e) := by
  apply Below.called
  apply Below.after
  intro kind
  split
  · exact .refl _
  · apply Below.after
    intro _
    apply (below_element h e).bind
    intro first
    exact (h.listRest close e).map _

theorem below_listRest (h : call.Below call') (close : Token.Kind) (e : Element) :
    Below (listRest call close e) (listRest call' close e) := by
  apply Below.after
  intro kind
  split
  · apply Below.after
    intro before
    apply Below.after
    intro _
    apply Below.after
    intro _
    apply (below_element h e).bind
    intro first
    exact .after fun _ => (h.listRest close e).map _
  · exact .refl _

theorem below_blockStatements (h : call.Below call') :
    Below (blockStatements call) (blockStatements call') := by
  apply Below.after
  intro t
  split
  · exact .refl _
  · apply Below.after
    intro before
    apply h.statement.bind
    intro s
    exact .after fun _ => .after fun _ => h.blockStatements.map _

theorem below_statement (h : call.Below call') :
    Below (statement tracing call) (statement tracing call') := by
  apply Below.called
  apply Below.after
  intro t
  cases t.kind with
  | letWord =>
    apply below_expecting
    intro name
    apply below_expecting
    intro _
    apply Below.after
    intro _
    exact (h.expression .lowest).bind fun _ => .refl _
  | returnWord =>
    apply Below.after
    intro kind
    split
    · exact .refl _
    · split
      · exact .refl _
      · apply Below.after
        intro _
        exact (h.expression .lowest).bind fun _ => .refl _
  | _ =>
    apply Below.traced
    exact (h.expression .lowest).bind fun _ => .refl _

theorem below_statements (h : call.Below call') :
    Below (statements call) (statements call') := by
  apply Below.after
  intro t
  split
  · exact .refl _
  · apply Below.after
    intro before
    apply h.statement.bind
    intro s
    exact .after fun _ => .after fun _ => h.statements.map _

theorem Routines.Below.unroll (h : call.Below call') :
    (call.unroll tracing).Below (call'.unroll tracing) where
  expression := below_expression h
  operand := below_operand h
  operators := below_operators h
  operator := below_operator h
  hashPairs := below_hashPairs h
  list := below_list h
  listRest := below_listRest h
  block := Reader.Below.called (.after fun _ => h.blockStatements)
  blockStatements := below_blockStatements h
  statement := below_statement h
  statements := below_statements h

/-- A run that returns is the same at any greater depth. -/
theorem below_within (tracing : Bool) (n k : Nat) :
    (Routines.within tracing n).Below (Routines.within tracing (n + k)) := by
  induction n with
  | zero => constructor <;> (intros; intro _ _ h; cases h)
  | succ n ih =>
    rw [Nat.add_right_comm]
    exact ih.unroll

end

end Reader

end Monkey

import Mathlib
import Monkey.Proofs.Evaluation.Call
import Monkey.Proofs.Parsing.RoundTrip

/-!
# Reducing an array

A program that defines `reduce`, which goes through an array with a function, and with it `sum`, and
then adds up the array `xs`.  It is read as one would read it, and it comes to the sum.

`reduce` has no loop.  It binds a function `iter` in the scope of its own call, and `iter` calls
itself: it finds its name there because the scope was kept and not copied when `iter` was made.
Each call has a scope of its own, and the names that are bound around it, among them another `arr`,
stay as they are.  So what one iteration does is said once, of any scope from which `iter` and the
function to apply are seen, and the array is gone through by induction.
-/

namespace Monkey

namespace Reduction

/-! ## 1. The program -/

/-- The text of the program. -/
def source : String := String.join
  ["let reduce = fn(arr, initial, f) \x7b ",
    "let iter = fn(arr, result) \x7b ",
      "if (len(arr) == 0) \x7b result \x7d ",
      "else \x7b iter(rest(arr), f(result, first(arr))); \x7d ",
    "\x7d; ",
    "iter(arr, initial); ",
  "\x7d; ",
  "let sum = fn(arr) \x7b ",
    "reduce(arr, 0, fn(initial, el) \x7b initial + el \x7d) ",
  "\x7d; ",
  "sum(xs);"]

def name (x : String) : Expr := .ident ⟨.ident, x⟩ x

def zero : Expr := .int ⟨.int, "0"⟩ 0

def called (f : String) (args : List Expr) : Expr := .call ⟨.lparen, "("⟩ (name f) args

/-- A statement that begins with a name. -/
def run (x : String) (e : Expr) : Stmt := .expr ⟨.ident, x⟩ e

def body (ss : List Stmt) : Block := .mk ⟨.lbrace, "\x7b"⟩ ss

def func (params : List String) (b : Block) : Expr := .func ⟨.fnWord, "fn"⟩ params b

def iterBody : Block :=
  body [.expr ⟨.ifWord, "if"⟩ (.cond ⟨.ifWord, "if"⟩
    (.binary ⟨.equal, "=="⟩ (called "len" [name "arr"]) .eq zero)
    (body [run "result" (name "result")])
    (some (body [run "iter" (called "iter" [called "rest" [name "arr"],
      called "f" [name "result", called "first" [name "arr"]]])])))]

def reduceBody : Block :=
  body [.bind ⟨.letWord, "let"⟩ "iter" (func ["arr", "result"] iterBody),
    run "iter" (called "iter" [name "arr", name "initial"])]

def adderBody : Block :=
  body [run "initial" (.binary ⟨.plus, "+"⟩ (name "initial") .add (name "el"))]

def sumBody : Block :=
  body [run "reduce" (called "reduce" [name "arr", zero, func ["initial", "el"] adderBody])]

def program : Program :=
  ⟨[.bind ⟨.letWord, "let"⟩ "reduce" (func ["arr", "initial", "f"] reduceBody),
    .bind ⟨.letWord, "let"⟩ "sum" (func ["arr"] sumBody), run "sum" (called "sum" [name "xs"])]⟩

/-! ## 2. Reading it -/

section

open Parsed Grammar

variable {tracing : Bool} {m : Nat}

/-- Before a closing parenthesis, the tokens are read as these arguments. -/
structure ReadsArgs (tracing : Bool) (ts : List Token) (es : List Expr) : Prop where
  starts : ∀ rest, (nextKind (ts ++ rest)).startsExpr
  reads : ∀ (rest : List Token) (k : Nat) (hk : (ts ++ ⟨.rparen, ")"⟩ :: rest).length ≤ k),
    (items .rparen (fun ts _ => expression tracing .lowest ts) (ts ++ ⟨.rparen, ")"⟩ :: rest)
      hk).Reads (some es) rest

theorem ReadsArgs.one {t : Token} {us : List Token} {e : Expr} (ht : t.kind.startsExpr)
    (he : ReadAs tracing 1 (t :: us) e) : ReadsArgs tracing (t :: us) [e] where
  starts _ := ht
  reads rest _ _ := reads_items_last (he.reads_lowest rfl rest) rfl (by decide)

theorem ReadsArgs.more {t : Token} {us vs : List Token} {e : Expr} {es : List Expr}
    (ht : t.kind.startsExpr) (he : ReadAs tracing 1 (t :: us) e) (hes : ReadsArgs tracing vs es) :
    ReadsArgs tracing (t :: us ++ ⟨.comma, ","⟩ :: vs) (e :: es) where
  starts _ := ht
  reads rest k := by
    rw [List.append_assoc]
    intro hk
    have hvs : (vs ++ ⟨.rparen, ")"⟩ :: rest).length ≤ k := by
      rw [List.cons_append, List.length_cons, List.length_append, List.cons_append,
        List.length_cons] at hk
      omega
    exact reads_items_more (he.reads_lowest rfl _) rfl (hes.reads rest k hvs)

theorem readAs_called {f : String} {ts : List Token} {es : List Expr}
    (h : ReadsArgs tracing ts es) :
    ReadAs tracing m ([⟨.ident, f⟩] ++ ⟨.lparen, "("⟩ :: (ts ++ [⟨.rparen, ")"⟩]))
      (called f es) := by
  refine ReadAs.call (readAs_ident rfl) rfl fun rest => ?_
  have hnext : nextKind (ts ++ ⟨.rparen, ")"⟩ :: rest) ≠ .rparen := by
    intro hclose
    have hstarts := h.starts (⟨.rparen, ")"⟩ :: rest)
    rw [hclose] at hstarts
    contradiction
  exact reads_separated hnext (h.reads rest _ _)

/-- The tokens are read as the statements up to the end of the block. -/
def ReadsBlock (tracing : Bool) (ts : List Token) (ss : List Stmt) : Prop :=
  ∀ rest, (block tracing (ts ++ rest)).Reads ss rest

theorem readsBlock_close : ReadsBlock tracing [⟨.rbrace, "\x7d"⟩] [] := fun _ =>
  reads_block_close rfl

/-- The last expression of a block needs no semicolon. -/
theorem readsBlock_last {t : Token} {us : List Token} {e : Expr} (ht : t.kind.startsExpr)
    (he : ReadAs tracing 1 (t :: us) e) :
    ReadsBlock tracing (t :: us ++ [⟨.rbrace, "\x7d"⟩]) [.expr t e] := by
  intro rest
  have hne : t.kind ≠ .rbrace := by
    intro h
    rw [h] at ht
    contradiction
  rw [List.append_assoc]
  exact reads_block_cons hne (reads_statement_expr ht (he.reads_lowest rfl rest))
    (reads_block_close rfl)

theorem reads_let (x : String) {ts : List Token} {e : Expr} (he : ReadAs tracing 1 ts e)
    (rest : List Token) :
    (statement tracing ⟨.letWord, "let"⟩ (⟨.ident, x⟩ :: ⟨.assign, "="⟩ ::
      (ts ++ ⟨.semicolon, ";"⟩ :: rest))).Reads (some (.bind ⟨.letWord, "let"⟩ x e)) rest :=
  he.reads_bind rfl rfl rfl rfl rest

theorem reads_run {x : String} {us : List Token} {e : Expr}
    (he : ReadAs tracing 1 (⟨.ident, x⟩ :: us) e) (rest : List Token) :
    (statement tracing ⟨.ident, x⟩ (us ++ ⟨.semicolon, ";"⟩ :: rest)).Reads (some (run x e)) rest :=
  he.reads_expr rfl rfl rest

theorem ReadsBlock.expr {x : String} {us vs : List Token} {e : Expr} {ss : List Stmt}
    (he : ReadAs tracing 1 (⟨.ident, x⟩ :: us) e) (hss : ReadsBlock tracing vs ss) :
    ReadsBlock tracing (⟨.ident, x⟩ :: us ++ ⟨.semicolon, ";"⟩ :: vs) (run x e :: ss) := by
  intro rest
  rw [List.append_assoc]
  exact reads_block_cons (fun h => nomatch h) (reads_run he _) (hss rest)

theorem ReadsBlock.bind {x : String} {ts vs : List Token} {e : Expr} {ss : List Stmt}
    (he : ReadAs tracing 1 ts e) (hss : ReadsBlock tracing vs ss) :
    ReadsBlock tracing (⟨.letWord, "let"⟩ :: ⟨.ident, x⟩ :: ⟨.assign, "="⟩ ::
        (ts ++ ⟨.semicolon, ";"⟩ :: vs))
      (.bind ⟨.letWord, "let"⟩ x e :: ss) := by
  intro rest
  rw [List.cons_append, List.cons_append, List.cons_append, List.append_assoc]
  exact reads_block_cons (by decide) (reads_let x he _) (hss rest)

theorem readAs_function {params : List String} {ts : List Token} {ss : List Stmt}
    (h : ReadsBlock tracing ts ss) :
    ReadAs tracing m (⟨.fnWord, "fn"⟩ :: ⟨.lparen, "("⟩ ::
        (nameTokens params ++ ⟨.rparen, ")"⟩ :: ⟨.lbrace, "\x7b"⟩ :: ts))
      (func params (body ss)) :=
  readAs_func rfl rfl (spellsNames_nameTokens params) rfl rfl h

theorem readAs_branch {c : Expr} {ss ss' : List Stmt} {cs ts us : List Token}
    (hc : ReadAs tracing 1 cs c) (hyes : ReadsBlock tracing ts ss)
    (hno : ReadsBlock tracing us ss') :
    ReadAs tracing m (⟨.ifWord, "if"⟩ :: ⟨.lparen, "("⟩ :: (cs ++ ⟨.rparen, ")"⟩ ::
        (⟨.lbrace, "\x7b"⟩ :: ts ++ ⟨.elseWord, "else"⟩ :: ⟨.lbrace, "\x7b"⟩ :: us)))
      (.cond ⟨.ifWord, "if"⟩ c (body ss) (some (body ss'))) :=
  readAs_condElse rfl rfl hc rfl rfl hyes rfl rfl hno

theorem readAs_zero : ReadAs tracing m [⟨.int, "0"⟩] zero := by
  have hnumeral : numeral "0" = 0 := by decide +kernel
  have hzero : zero = .int ⟨.int, "0"⟩ (Int64.ofNat (numeral "0")) := by rw [hnumeral]; rfl
  rw [hzero]
  exact readAs_int rfl (by show numeral "0" < _; rw [hnumeral]; decide)

/-- The tokens are put together from the parts as the text is; that they are the tokens of the text
is computed at the end. -/
theorem reads_program (tracing : Bool) :
    (statements tracing (Token.scan source.toList)).Reads program.statements [] := by
  have hname {m : Nat} (x : String) : ReadAs tracing m [⟨.ident, x⟩] (name x) := readAs_ident rfl
  have hof (f : String) : ReadAs tracing 1 _ (called f [name "arr"]) :=
    readAs_called (.one rfl (hname _))
  -- the function that goes through the array
  have hcond : ReadAs tracing 1 _ (.binary ⟨.equal, "=="⟩ (called "len" [name "arr"]) .eq zero) :=
    (hof "len").binary (Nat.le_refl 1) (by decide) readAs_zero
  have hyes : ReadsBlock tracing _ [run "result" (name "result")] := readsBlock_last rfl (hname _)
  have hf : ReadAs tracing 1 _ (called "f" [name "result", called "first" [name "arr"]]) :=
    readAs_called (.more rfl (hname _) (.one rfl (hof "first")))
  have hno : ReadsBlock tracing _ [run "iter" (called "iter" [called "rest" [name "arr"],
      called "f" [name "result", called "first" [name "arr"]]])] :=
    .expr (readAs_called (.more rfl (hof "rest") (.one rfl hf))) readsBlock_close
  have hiter : ReadAs tracing 1 _ (func ["arr", "result"] iterBody) :=
    readAs_function (readsBlock_last rfl (readAs_branch hcond hyes hno))
  have hstart : ReadAs tracing 1 _ (called "iter" [name "arr", name "initial"]) :=
    readAs_called (.more rfl (hname _) (.one rfl (hname _)))
  have hreduce : ReadAs tracing 1 _ (func ["arr", "initial", "f"] reduceBody) :=
    readAs_function (.bind hiter (.expr hstart readsBlock_close))
  -- the function that adds up
  have hadd : ReadAs tracing 1 _ (.binary ⟨.plus, "+"⟩ (name "initial") .add (name "el")) :=
    (hname "initial").binary (n := 3) (by decide) (by decide) (hname "el")
  have hadder : ReadAs tracing 1 _ (func ["initial", "el"] adderBody) :=
    readAs_function (readsBlock_last rfl hadd)
  have hsum : ReadAs tracing 1 _ (func ["arr"] sumBody) :=
    readAs_function (readsBlock_last rfl (readAs_called
      (.more rfl (hname "arr") (.more rfl readAs_zero (.one rfl hadder)))))
  have hcall : ReadAs tracing 1 _ (called "sum" [name "xs"]) :=
    readAs_called (.one rfl (hname "xs"))
  have hprogram := reads_statements_cons (reads_let "reduce" hreduce _) (reads_statements_cons
    (reads_let "sum" hsum _) (reads_statements_cons (reads_run hcall []) reads_statements_nil))
  obtain ⟨ts, hts, hread⟩ : ∃ ts, ts = Token.scan source.toList ∧
      (statements tracing ts).Reads program.statements [] :=
    ⟨_, by rw [source, String.toList_join]; decide +kernel, hprogram⟩
  rw [← hts]
  exact hread

end

/-! ## 3. Running it -/

section

variable {call : Value → List Value → Eval Value} {s t : Scopes} {r i depth : Nat} {f v : Value}

theorem yields_name {x : String} (hi : i < s.size) (hx : s.get? i x = some v) :
    ((name x).eval call i).Yields s v := by
  rw [name, Expr.eval]
  exact yields_readName hi hx

theorem yields_zero : (zero.eval call i).Yields s (.int 0) := by
  rw [zero, Expr.eval]
  exact Eval.yields_pure _

theorem eval_func (params : List String) (b : Block) :
    (func params b).eval call i s = .ok (.function params b i) s := by
  rw [func, Expr.eval]
  rfl

/-- A call of a built-in function, by its own name. -/
theorem yields_called_builtin (b : Builtin) {x : String} {es : List Expr} {vs : List Value}
    (hi : i < s.size) (hx : s.get? i x = none) (hb : Builtin.ofName? x = some b)
    (hes : List.Forall₂ (fun e v => (e.eval (applyWithin depth) i).Yields s v) es vs)
    (hv : b.apply vs = .ok v) : ((called x es).eval (applyWithin depth) i).Yields s v := by
  have hname : ((name x).eval (applyWithin depth) i).Yields s (.builtin b) := by
    rw [name, Expr.eval]
    exact yields_readName_builtin hi hx hb
  exact Expr.yields_call hname hes (yields_applyWithin_builtin hv)

/-- The function that goes through the array, made in the scope `r`. -/
def iter (r : Nat) : Value := .function ["arr", "result"] iterBody r

def reduce (r : Nat) : Value := .function ["arr", "initial", "f"] reduceBody r

def adder (r : Nat) : Value := .function ["initial", "el"] adderBody r

def sum (r : Nat) : Value := .function ["arr"] sumBody r

/-- The built-in functions that `iter` calls. -/
def builtins : List String := ["len", "first", "rest"]

/-- What is seen from a scope in which `reduce` runs with the function `f`. -/
structure Reducing (s : Scopes) (r : Nat) (f : Value) : Prop where
  lt_size : r < s.size
  iter_eq : s.get? r "iter" = some (iter r)
  f_eq : s.get? r "f" = some f
  builtin : ∀ x ∈ builtins, s.get? r x = none

/-- In a call of `iter`, the parameters come first. -/
theorem Reducing.entered (h : Reducing s r f) {ws : List Value}
    (ht : s.Entered r (["arr", "result"].zip [.array ws, v]) i t) :
    t.get? i "arr" = some (.array ws) ∧ t.get? i "result" = some v ∧
    t.get? i "iter" = some (iter r) ∧ t.get? i "f" = some f ∧
    ∀ x ∈ builtins, t.get? i x = none := by
  have hparams : ∀ x ∈ builtins, x ∉ ["arr", "result"] := by decide
  refine ⟨ht.get?_eq "arr", ht.get?_eq "result", ?_, ?_, fun x hx => ?_⟩
  · exact (ht.get?_of_not_mem (by simp)).trans h.iter_eq
  · exact (ht.get?_of_not_mem (by simp)).trans h.f_eq
  · exact (ht.get?_of_not_mem (hparams x hx)).trans (h.builtin x hx)

/-- The condition of an iteration holds exactly for the empty array. -/
theorem yields_condition (depth : Nat) {ws : List Value} (hi : i < t.size)
    (harr : t.get? i "arr" = some (.array ws)) (hlen : t.get? i "len" = none)
    (hws : ws.length < 2 ^ 64) :
    (Expr.eval (applyWithin depth) i
      (.binary ⟨.equal, "=="⟩ (called "len" [name "arr"]) .eq zero)).Yields t
      (.bool (ws = [])) := by
  have hcount : ((called "len" [name "arr"]).eval (applyWithin depth) i).Yields t
      (.int (Int64.ofNat ws.length)) :=
    yields_called_builtin .len hi hlen (by decide) (.cons (yields_name hi harr) .nil) rfl
  apply Expr.yields_binary hcount yields_zero
  show Except.ok (Value.bool (decide (Int64.ofNat ws.length = 0))) = _
  rw [decide_eq_decide.mpr ((ofNat_eq_zero_iff hws).trans List.length_eq_zero_iff)]

/-- The last iteration gives the result. -/
theorem Reducing.yields_nil (h : Reducing s r f) (v : Value) :
    (applyWithin (depth + 1) (iter r) [.array [], v]).Yields s v := by
  apply yields_applyWithin_function h.lt_size
  intro t i ht
  obtain ⟨harr, hresult, -, -, hbuiltin⟩ := h.entered ht
  have hcond := yields_condition depth ht.lt_size harr (hbuiltin "len" (by decide)) (by simp)
  have hbody : (iterBody.eval (applyWithin depth) i).Yields t v := by
    apply Block.yields_expr
    apply Expr.yields_cond_pos hcond (by simp [Value.truthy])
    exact Block.yields_expr (yields_name ht.lt_size hresult)
  exact hbody.exists_ok

/-- Every other iteration applies the function to the first element and goes on with the rest. -/
theorem Reducing.yields_cons (h : Reducing s r f) {w u z : Value} {ws : List Value}
    (hws : (w :: ws).length < 2 ^ 64) (hf : (applyWithin depth f [v, w]).Yields s u)
    (hrest : (applyWithin depth (iter r) [.array ws, u]).Yields s z) :
    (applyWithin (depth + 1) (iter r) [.array (w :: ws), v]).Yields s z := by
  apply yields_applyWithin_function h.lt_size
  intro t i ht
  obtain ⟨harr, hresult, hiter, hfun, hbuiltin⟩ := h.entered ht
  have hi := ht.lt_size
  have hcond := yields_condition depth hi harr (hbuiltin "len" (by decide)) hws
  have hname : ((name "arr").eval (applyWithin depth) i).Yields t (.array (w :: ws)) :=
    yields_name hi harr
  have hfirst : ((called "first" [name "arr"]).eval (applyWithin depth) i).Yields t w :=
    yields_called_builtin .first hi (hbuiltin "first" (by decide)) (by decide)
      (.cons hname .nil) rfl
  have htail : ((called "rest" [name "arr"]).eval (applyWithin depth) i).Yields t (.array ws) :=
    yields_called_builtin .rest hi (hbuiltin "rest" (by decide)) (by decide) (.cons hname .nil) rfl
  have hstep : ((called "f" [name "result", called "first" [name "arr"]]).eval (applyWithin depth)
      i).Yields t u :=
    Expr.yields_call (yields_name hi hfun)
      (.cons (yields_name hi hresult) (.cons hfirst .nil)) (hf.mono ht.kept)
  have hbody : (iterBody.eval (applyWithin depth) i).Yields t z := by
    apply Block.yields_expr
    apply Expr.yields_cond_neg hcond (by simp [Value.truthy])
    apply Block.yields_expr
    exact Expr.yields_call (yields_name hi hiter) (.cons htail (.cons hstep .nil))
      (hrest.mono ht.kept)
  exact hbody.exists_ok

/-- By induction on the array: the function is applied to all elements from left to right.  `m` is
how deep its own calls nest. -/
theorem Reducing.yields_iter {α β : Type} {put : α → Value} {elem : β → Value} {step : α → β → α}
    {m : Nat} (h : Reducing s r f)
    (hf : ∀ depth, m < depth → ∀ a b,
      (applyWithin depth f [put a, elem b]).Yields s (put (step a b)))
    (xs : List β) (hxs : xs.length < 2 ^ 64) (a : α) (hdepth : xs.length + m < depth) :
    (applyWithin depth (iter r) [.array (xs.map elem), put a]).Yields s
      (put (xs.foldl step a)) := by
  obtain ⟨depth, rfl⟩ : ∃ d, depth = d + 1 := ⟨depth - 1, by omega⟩
  induction xs generalizing a depth with
  | nil => exact h.yields_nil (put a)
  | cons x xs ih =>
    rw [List.length_cons] at hxs hdepth
    obtain ⟨d, rfl⟩ : ∃ d, depth = d + 1 := ⟨depth - 1, by omega⟩
    have hlength : (elem x :: xs.map elem).length < 2 ^ 64 := by
      rw [List.length_cons, List.length_map]
      exact hxs
    exact h.yields_cons hlength (hf (d + 1) (by omega) a x)
      (ih (by omega) (step a x) d (by omega))

/-- A call of `reduce` binds `iter` in its own scope, where `iter` then finds itself. -/
theorem reducing_of_entered {w : Value}
    (ht : s.Entered r (["arr", "initial", "f"].zip [v, w, f]) i t)
    (hbuiltin : ∀ x ∈ builtins, s.get? r x = none) :
    Reducing (t.define i "iter" (iter i)) i f ∧
    (t.define i "iter" (iter i)).get? i "arr" = some v ∧
    (t.define i "iter" (iter i)).get? i "initial" = some w := by
  have hget {x : String} (hx : "iter" ≠ x) : (t.define i "iter" (iter i)).get? i x = t.get? i x :=
    Scopes.get?_define_of_ne _ hx
  have hnames : ∀ x ∈ builtins, "iter" ≠ x ∧ x ∉ ["arr", "initial", "f"] := by decide
  refine ⟨⟨?_, Scopes.get?_define_self _ ht.lt_size, ?_, fun x hx => ?_⟩, ?_, ?_⟩
  · rw [Scopes.size_define]
    exact ht.lt_size
  · exact (hget (by decide)).trans (ht.get?_eq "f")
  · rw [hget (hnames x hx).1, ht.get?_of_not_mem (hnames x hx).2, hbuiltin x hx]
  · exact (hget (by decide)).trans (ht.get?_eq "arr")
  · exact (hget (by decide)).trans (ht.get?_eq "initial")

/-- A call of `reduce` comes to the fold of the array. -/
theorem yields_reduce {α β : Type} {put : α → Value} {elem : β → Value} {step : α → β → α}
    {m : Nat} (hr : r < s.size) (hbuiltin : ∀ x ∈ builtins, s.get? r x = none)
    (hf : ∀ depth, m < depth → ∀ a b,
      (applyWithin depth f [put a, elem b]).Yields s (put (step a b)))
    (xs : List β) (hxs : xs.length < 2 ^ 64) (a : α) (hdepth : xs.length + m + 1 < depth) :
    (applyWithin depth (reduce r) [.array (xs.map elem), put a, f]).Yields s
      (put (xs.foldl step a)) := by
  obtain ⟨d, rfl⟩ : ∃ d, depth = d + 1 := ⟨depth - 1, by omega⟩
  apply yields_applyWithin_function hr
  intro t i ht
  obtain ⟨hreducing, harr, hinitial⟩ := reducing_of_entered ht hbuiltin
  have hkept : s.Kept (t.define i "iter" (iter i)) := ht.kept.define ht.size_le _ _
  have hcall : ((called "iter" [name "arr", name "initial"]).eval (applyWithin d) i).Yields
      (t.define i "iter" (iter i)) (put (xs.foldl step a)) := by
    have hi := hreducing.lt_size
    refine Expr.yields_call (yields_name hi hreducing.iter_eq)
      (.cons (yields_name hi harr) (.cons (yields_name hi hinitial) .nil)) ?_
    exact hreducing.yields_iter (fun depth hm a b => (hf depth hm a b).mono hkept) xs hxs a
      (by omega)
  have hbody : (evalStmts (applyWithin d) i none
      [run "iter" (called "iter" [name "arr", name "initial"])]).Yields
      (t.define i "iter" (iter i)) (some (put (xs.foldl step a))) := yields_evalStmts_expr hcall
  obtain ⟨t', ht'⟩ := hbody.exists_ok
  refine ⟨t', ?_⟩
  rw [reduceBody, body, Block.eval_mk, Eval.bind_of_ok ((evalStmts_bind (eval_func _ _)).trans ht')]
  rfl

theorem yields_adder (hr : r < s.size) (hdepth : 0 < depth) (a b : Int64) :
    (applyWithin depth (adder r) [.int a, .int b]).Yields s (.int (a + b)) := by
  obtain ⟨d, rfl⟩ : ∃ d, depth = d + 1 := ⟨depth - 1, by omega⟩
  apply yields_applyWithin_function hr
  intro t i ht
  have hinitial : t.get? i "initial" = some (.int a) := ht.get?_eq "initial"
  have hel : t.get? i "el" = some (.int b) := ht.get?_eq "el"
  have hbody : (adderBody.eval (applyWithin d) i).Yields t (.int (a + b)) := by
    apply Block.yields_expr
    exact Expr.yields_binary (yields_name ht.lt_size hinitial) (yields_name ht.lt_size hel) rfl
  exact hbody.exists_ok

/-- A call of `sum` reduces the array with a function made in its own scope. -/
theorem yields_sum (hr : r < s.size) (hbuiltin : ∀ x ∈ builtins, s.get? r x = none)
    (hreduce : s.get? r "reduce" = some (reduce r)) (xs : List Int64) (hxs : xs.length < 2 ^ 64)
    (hdepth : xs.length + 2 < depth) :
    (applyWithin depth (sum r) [.array (xs.map .int)]).Yields s (.int (xs.foldl (· + ·) 0)) := by
  obtain ⟨d, rfl⟩ : ∃ d, depth = d + 1 := ⟨depth - 1, by omega⟩
  apply yields_applyWithin_function hr
  intro t i ht
  have hi := ht.lt_size
  have harr : t.get? i "arr" = some (.array (xs.map .int)) := ht.get?_eq "arr"
  have hreduce' : t.get? i "reduce" = some (reduce r) := (ht.get?_eq "reduce").trans hreduce
  have hadder : ((func ["initial", "el"] adderBody).eval (applyWithin d) i).Yields t (adder i) :=
    fun u _ => ⟨u, eval_func _ _, .refl u⟩
  have hbuiltin' (x : String) (hx : x ∈ builtins) : t.get? r x = none :=
    (ht.kept.get?_eq hr).trans (hbuiltin x hx)
  have hcall : (applyWithin d (reduce r) [.array (xs.map .int), .int 0, adder i]).Yields t
      (.int (xs.foldl (· + ·) 0)) :=
    yields_reduce (m := 0) (Nat.lt_of_lt_of_le hr ht.kept.size_le) hbuiltin'
      (fun _ hdepth a b => yields_adder hi hdepth a b) xs hxs 0 (by omega)
  have hbody : (sumBody.eval (applyWithin d) i).Yields t (.int (xs.foldl (· + ·) 0)) := by
    apply Block.yields_expr
    exact Expr.yields_call (yields_name hi hreduce')
      (.cons (yields_name hi harr) (.cons yields_zero (.cons hadder .nil))) hcall
  exact hbody.exists_ok

/-- One scope, in which `xs` is bound to an array of integers. -/
def scopes (xs : List Int64) : Scopes := Scopes.fresh.define 0 "xs" (.array (xs.map .int))

/-- The scopes in which the last statement is evaluated. -/
def bound (xs : List Int64) : Scopes :=
  ((scopes xs).define 0 "reduce" (reduce 0)).define 0 "sum" (sum 0)

theorem get?_bound (xs : List Int64) :
    0 < (bound xs).size ∧ (bound xs).get? 0 "xs" = some (.array (xs.map .int)) ∧
    (bound xs).get? 0 "reduce" = some (reduce 0) ∧ (bound xs).get? 0 "sum" = some (sum 0) ∧
    ∀ x ∈ builtins, (bound xs).get? 0 x = none := by
  have hsize : 0 < (scopes xs).size := by
    rw [scopes, Scopes.size_define]
    decide
  have hnames : ∀ x ∈ builtins, "sum" ≠ x ∧ "reduce" ≠ x ∧ "xs" ≠ x := by decide
  have hfresh (x : String) : Scopes.fresh.get? 0 x = none := by
    rw [Scopes.get?_eq]
    rfl
  refine ⟨?_, ?_, ?_, ?_, fun x hx => ?_⟩
  · rw [bound, Scopes.size_define, Scopes.size_define]
    exact hsize
  · rw [bound, Scopes.get?_define_of_ne _ (by decide), Scopes.get?_define_of_ne _ (by decide)]
    exact Scopes.get?_define_self _ (by decide)
  · rw [bound, Scopes.get?_define_of_ne _ (by decide)]
    exact Scopes.get?_define_self _ hsize
  · exact Scopes.get?_define_self _ (by rw [Scopes.size_define]; exact hsize)
  · obtain ⟨hsum, hreduce, hxs⟩ := hnames x hx
    rw [bound, Scopes.get?_define_of_ne _ hsum, Scopes.get?_define_of_ne _ hreduce, scopes,
      Scopes.get?_define_of_ne _ hxs, hfresh]

theorem eval_program (xs : List Int64) (hxs : xs.length < 2 ^ 64) (hdepth : xs.length + 2 < depth) :
    ∃ s', program.eval depth 0 (scopes xs) = .ok (some (.int (xs.foldl (· + ·) 0))) s' := by
  obtain ⟨hsize, harr, hreduce, hsum, hbuiltin⟩ := get?_bound xs
  have hlast : (evalStmts (applyWithin depth) 0 none
      [run "sum" (called "sum" [name "xs"])]).Yields (bound xs)
      (some (.int (xs.foldl (· + ·) 0))) := by
    apply yields_evalStmts_expr
    exact Expr.yields_call (yields_name hsize hsum) (.cons (yields_name hsize harr) .nil)
      (yields_sum hsize hbuiltin hreduce xs hxs hdepth)
  obtain ⟨s', hs'⟩ := hlast.exists_ok
  have hstatements : evalStmts (applyWithin depth) 0 none program.statements (scopes xs) =
      .ok (some (.int (xs.foldl (· + ·) 0))) s' := by
    rw [program, evalStmts_bind (eval_func _ _), evalStmts_bind (eval_func _ _)]
    exact hs'
  refine ⟨s', ?_⟩
  rw [Program.eval_eq, Eval.catchReturn, hstatements]

/-- Adding words one by one gives the word of the sum. -/
theorem foldl_add_eq (xs : List Int64) (a : Int64) :
    xs.foldl (· + ·) a = Int64.ofInt (a.toInt + (xs.map Int64.toInt).sum) := by
  induction xs generalizing a with
  | nil => simp
  | cons x xs ih =>
    rw [List.foldl_cons, ih, List.map_cons, List.sum_cons, ← Int.add_assoc]
    simp only [Int64.ofInt_add, Int64.ofInt_toInt]

end

end Reduction

theorem parse_of_reads {tracing : Bool} {source : String} {ss : List Stmt}
    (h : (Grammar.statements tracing (Token.scan source.toList)).Reads ss []) :
    (parse tracing source).program = ⟨ss⟩ ∧ (parse tracing source).errors = [] :=
  ⟨congrArg Program.mk h.1, h.2.2⟩

/-- The program is read, and with `xs` bound to an array of integers in a scope that binds nothing
else it ends without an error, in the sum of the array, taken modulo `2 ^ 64` into the range from
`-2 ^ 63` to `2 ^ 63`.  The length of an array is a word, so it has fewer than `2 ^ 64` elements.
Calls nest three deeper than the array is long, and this is all the depth they need. -/
theorem Interpreter.eval_sum (tracing : Bool) (depth : Nat) (xs : List Int64)
    (hxs : xs.length < 2 ^ 64) (hdepth : xs.length + 2 < depth) :
    ∃ n : Int64, n.toInt = (xs.map Int64.toInt).sum.bmod (2 ^ 64) ∧
      ((Interpreter.mk 0 tracing depth).eval Reduction.source
        (Scopes.fresh.define 0 "xs" (.array (xs.map .int)))).1.result = .value (some (.int n)) := by
  obtain ⟨hprogram, herrors⟩ := parse_of_reads (Reduction.reads_program tracing)
  obtain ⟨s', hs'⟩ := Reduction.eval_program xs hxs hdepth
  refine ⟨xs.foldl (· + ·) 0, ?_, ?_⟩
  · rw [Reduction.foldl_add_eq, Int64.toInt_ofInt]
    simp
  · rw [(eval_of_errors_eq_nil herrors).1, hprogram]
    exact congrArg (fun o => Answer.ofOutcome o.1) (Eval.outcome_of_ok hs')

/-- A sum that goes beyond the greatest integer. -/
theorem Interpreter.eval_sum_wraps :
    [Int64.maxValue, 1, 5].length < 2 ^ 64 ∧ [Int64.maxValue, 1, 5].length + 2 < 6 ∧
    ∃ n : Int64, n.toInt = -2 ^ 63 + 5 ∧
      ((Interpreter.mk 0 true 6).eval Reduction.source (Scopes.fresh.define 0 "xs"
        (.array ([Int64.maxValue, 1, 5].map .int)))).1.result = .value (some (.int n)) := by
  refine ⟨by decide, by decide, ?_⟩
  obtain ⟨n, hn, hresult⟩ := eval_sum true 6 [Int64.maxValue, 1, 5] (by decide) (by decide)
  exact ⟨n, hn.trans (by decide), hresult⟩

end Monkey

import Monkey.Proofs.Evaluation.Statements

/-!
# Signals

A runtime error and a `return` are signals: whatever is being evaluated stops and hands them on.

A context is a tree with a hole, and a frame is one layer of it: a node in which one part is the
hole.  Evaluating the node evaluates the parts before the hole, then what is in the hole, then the
parts after it.  If what is in the hole stops with a signal, the whole context stops with this
signal in the scopes that were left there, and the parts after the hole have no say.

Function calls are no part of contexts.  A runtime error passes through them as well, and a `return`
ends there.
-/

namespace Monkey

/-- A runtime error or a `return` on its way out. -/
def Halt.IsSignal : Halt → Prop
  | fault _ | returning _ => True
  | missing | exhausted => False

/-! ## Pieces -/

/-- The sorts of trees that stand in each other. -/
inductive Shape where
  | expr
  | stmt
  | block

namespace Shape

abbrev Tree : Shape → Type
  | expr => Expr
  | stmt => Stmt
  | block => Block

abbrev Result : Shape → Type
  | expr => Value
  | stmt => Option Value
  | block => Value

/-- Evaluates a tree of any sort. -/
def eval (call : Value → List Value → Eval Value) (scope : Nat) :
    (k : Shape) → k.Tree → Eval k.Result
  | expr, e => Expr.eval call scope e
  | stmt, s => Stmt.eval call scope s
  | block, b => Block.eval call scope b

end Shape

/-! ## Frames -/

/-- A node in which one part is left open.  The first index is the sort of the part, the second the
sort of the node. -/
inductive Frame : Shape → Shape → Type where
  | operand (t : Token) (op : UnaryOp) : Frame .expr .expr
  | left (t : Token) (op : BinaryOp) (right : Expr) : Frame .expr .expr
  | right (t : Token) (left : Expr) (op : BinaryOp) : Frame .expr .expr
  | condition (t : Token) (yes : Block) (no : Option Block) : Frame .expr .expr
  | consequence (t : Token) (c : Expr) (no : Option Block) : Frame .block .expr
  | alternative (t : Token) (c : Expr) (yes : Block) : Frame .block .expr
  | callee (t : Token) (args : List Expr) : Frame .expr .expr
  | argument (t : Token) (f : Expr) (before after : List Expr) : Frame .expr .expr
  | element (t : Token) (before after : List Expr) : Frame .expr .expr
  | indexed (t : Token) (i : Expr) : Frame .expr .expr
  | index (t : Token) (l : Expr) : Frame .expr .expr
  | key (t : Token) (before : List (Expr × Expr)) (v : Expr) (after : List (Expr × Expr)) :
      Frame .expr .expr
  | value (t : Token) (before : List (Expr × Expr)) (k : Expr) (after : List (Expr × Expr)) :
      Frame .expr .expr
  | bindValue (t : Token) (name : String) : Frame .expr .stmt
  | returnValue (t : Token) : Frame .expr .stmt
  | statement (t : Token) : Frame .expr .stmt
  | inner : Frame .block .stmt
  | nth (t : Token) (before after : List Stmt) : Frame .stmt .block

namespace Frame

variable {a b : Shape}

/-- The node with the part in its place. -/
def fill : {a b : Shape} → Frame a b → a.Tree → b.Tree
  | _, _, operand t op, e => Expr.unary t op e
  | _, _, left t op r, e => Expr.binary t e op r
  | _, _, right t l op, e => Expr.binary t l op e
  | _, _, condition t yes no, e => Expr.cond t e yes no
  | _, _, consequence t c no, yes => Expr.cond t c yes no
  | _, _, alternative t c yes, no => Expr.cond t c yes (some no)
  | _, _, callee t args, e => Expr.call t e args
  | _, _, argument t f before after, e => Expr.call t f (before ++ e :: after)
  | _, _, element t before after, e => Expr.array t (before ++ e :: after)
  | _, _, indexed t i, e => Expr.index t e i
  | _, _, index t l, e => Expr.index t l e
  | _, _, key t before v after, e => Expr.hash t (before ++ (e, v) :: after)
  | _, _, value t before k after, e => Expr.hash t (before ++ (k, e) :: after)
  | _, _, bindValue t x, e => Stmt.bind t x e
  | _, _, returnValue t, e => Stmt.ret t e
  | _, _, statement t, e => Stmt.expr t e
  | _, _, inner, b => Stmt.block b
  | _, _, nth t before after, s => Block.mk t (before ++ s :: after)

/-- The frame without the parts that are evaluated after the open one, or not at all. -/
def past : {a b : Shape} → Frame a b → Frame a b
  | _, _, left t op _ => left t op .absent
  | _, _, condition t _ _ => condition t default none
  | _, _, consequence t c _ => consequence t c none
  | _, _, alternative t c _ => alternative t c default
  | _, _, callee t _ => callee t []
  | _, _, argument t f before _ => argument t f before []
  | _, _, element t before _ => element t before []
  | _, _, indexed t _ => indexed t .absent
  | _, _, key t before _ _ => key t before .absent []
  | _, _, value t before k _ => value t before k []
  | _, _, nth t before _ => nth t before []
  | _, _, operand t op => operand t op
  | _, _, right t l op => right t l op
  | _, _, index t l => index t l
  | _, _, bindValue t x => bindValue t x
  | _, _, returnValue t => returnValue t
  | _, _, statement t => statement t
  | _, _, inner => inner

/-- The parts before the open one complete, from the scopes `s` to the scopes `s'`, and the open one
is evaluated next. -/
def Reaches (call : Value → List Value → Eval Value) (scope : Nat) :
    {a b : Shape} → Frame a b → (s s' : Scopes) → Prop
  | _, _, right _ l _, s, s' => ∃ v, l.eval call scope s = .ok v s'
  | _, _, consequence _ c _, s, s' => ∃ v, c.eval call scope s = .ok v s' ∧ v.truthy = true
  | _, _, alternative _ c _, s, s' => ∃ v, c.eval call scope s = .ok v s' ∧ v.truthy = false
  | _, _, argument _ f before _, s, s' =>
    ∃ g s₁ vs, f.eval call scope s = .ok g s₁ ∧ evalExprs call scope before s₁ = .ok vs s'
  | _, _, element _ before _, s, s' => ∃ vs, evalExprs call scope before s = .ok vs s'
  | _, _, index _ l, s, s' => ∃ v, l.eval call scope s = .ok v s'
  | _, _, key _ before _ _, s, s' => ∃ table, evalPairs call scope [] before s = .ok table s'
  | _, _, value _ before k _, s, s' =>
    ∃ table s₁ key, evalPairs call scope [] before s = .ok table s₁ ∧
      k.eval call scope s₁ = .ok key s' ∧ key.hashKey?.isSome
  | _, _, nth _ before _, s, s' => ∃ v, evalStmts call scope none before s = .ok v s'
  | _, _, operand _ _, s, s' | _, _, left _ _ _, s, s' | _, _, condition _ _ _, s, s'
  | _, _, callee _ _, s, s' | _, _, indexed _ _, s, s' | _, _, bindValue _ _, s, s'
  | _, _, returnValue _, s, s' | _, _, statement _, s, s' | _, _, inner, s, s' => s' = s

end Frame

/-! ## Contexts -/

/-- Frames in each other, to any depth. -/
inductive Context : Shape → Shape → Type where
  | hole {a : Shape} : Context a a
  | within {a b c : Shape} (outer : Frame b c) (inner : Context a b) : Context a c

namespace Context

variable {a b : Shape}

/-- The tree with the hole filled. -/
def fill : {b : Shape} → Context a b → a.Tree → b.Tree
  | _, hole, p => p
  | _, within outer inner, p => outer.fill (inner.fill p)

/-- The context without the parts that are evaluated after the hole, or not at all. -/
def past : {b : Shape} → Context a b → Context a b
  | _, hole => hole
  | _, within outer inner => within outer.past inner.past

/-- Everything before the hole completes, from the scopes `s` to the scopes `s'`. -/
def Reaches (call : Value → List Value → Eval Value) (scope : Nat) :
    {b : Shape} → Context a b → (s s' : Scopes) → Prop
  | _, hole, s, s' => s' = s
  | _, within outer inner, s, s' =>
    ∃ s₁, outer.Reaches call scope s s₁ ∧ inner.Reaches call scope s₁ s'

end Context

/-! ## One evaluation after another -/

section

variable {call : Value → List Value → Eval Value} {scope : Nat}

/-- A list is evaluated piece by piece. -/
theorem evalExprs_append (es fs : List Expr) :
    evalExprs call scope (es ++ fs) = (do
      let vs ← evalExprs call scope es
      let ws ← evalExprs call scope fs
      return vs ++ ws) := by
  induction es with
  | nil => simp only [List.nil_append, evalExprs, pure_bind, bind_pure]
  | cons e es ih =>
    simp only [List.cons_append, evalExprs, ih, bind_assoc, pure_bind]

theorem evalPairs_append (table : Table HashKey (Value × Value)) (ps qs : List (Expr × Expr)) :
    evalPairs call scope table (ps ++ qs) = (do
      let table ← evalPairs call scope table ps
      evalPairs call scope table qs) := by
  induction ps generalizing table with
  | nil => simp only [List.nil_append, evalPairs, pure_bind]
  | cons p ps ih =>
    simp only [List.cons_append, evalPairs, bind_assoc]
    congr 1
    funext key
    cases key.hashKey? with
    | none => rfl
    | some digest => simp only [ih, bind_assoc]

/-- Statements go on from where the statements before them ended. -/
theorem evalStmts_append (last : Option Value) (ss ts : List Stmt) :
    evalStmts call scope last (ss ++ ts) = (do
      let last ← evalStmts call scope last ss
      evalStmts call scope last ts) := by
  induction ss generalizing last with
  | nil => simp only [List.nil_append, evalStmts, pure_bind]
  | cons s ss ih => simp only [List.cons_append, evalStmts, ih, bind_assoc]

end

/-! ## Signals pass through contexts -/

section

open Eval

variable {call : Value → List Value → Eval Value} {scope : Nat} {a b : Shape}
  {s s₁ s₂ : Scopes} {h : Halt}

theorem evalExprs_of_error {before after : List Expr} {e : Expr} {vs : List Value}
    (hbefore : evalExprs call scope before s = .ok vs s₁)
    (he : e.eval call scope s₁ = .error h s₂) :
    evalExprs call scope (before ++ e :: after) s = .error h s₂ := by
  rw [evalExprs_append, bind_of_ok hbefore, evalExprs]
  exact bind_of_error (bind_of_error he)

theorem evalPairs_of_key_error {table : Table HashKey (Value × Value)}
    {before after : List (Expr × Expr)} {k v : Expr}
    (hbefore : evalPairs call scope [] before s = .ok table s₁)
    (hk : k.eval call scope s₁ = .error h s₂) :
    evalPairs call scope [] (before ++ (k, v) :: after) s = .error h s₂ := by
  rw [evalPairs_append, bind_of_ok hbefore, evalPairs]
  exact bind_of_error hk

theorem evalPairs_of_value_error {table : Table HashKey (Value × Value)}
    {before after : List (Expr × Expr)} {k v : Expr} {key : Value} {s' : Scopes}
    (hbefore : evalPairs call scope [] before s = .ok table s')
    (hk : k.eval call scope s' = .ok key s₁) (hkey : key.hashKey?.isSome)
    (hv : v.eval call scope s₁ = .error h s₂) :
    evalPairs call scope [] (before ++ (k, v) :: after) s = .error h s₂ := by
  obtain ⟨digest, hdigest⟩ := Option.isSome_iff_exists.mp hkey
  rw [evalPairs_append, bind_of_ok hbefore, evalPairs, bind_of_ok hk, hdigest]
  exact bind_of_error hv

theorem evalStmts_of_error {last v : Option Value} {before after : List Stmt} {st : Stmt}
    (hbefore : evalStmts call scope last before s = .ok v s₁)
    (hst : st.eval call scope s₁ = .error h s₂) :
    evalStmts call scope last (before ++ st :: after) s = .error h s₂ := by
  rw [evalStmts_append, bind_of_ok hbefore, evalStmts]
  exact bind_of_error hst

/-- A `return` without a value evaluates nothing, so it has no signal to pass on. -/
theorem Stmt.eval_ret_of_error {t : Token} {e : Expr} (hsignal : h.IsSignal)
    (he : e.eval call scope s = .error h s₁) :
    (Stmt.ret t e).eval call scope s = .error h s₁ := by
  cases e with
  | absent =>
    cases he
    exact hsignal.elim
  | _ => exact bind_of_error he

theorem Frame.eval_fill (f : Frame a b) {p : a.Tree} (hsignal : h.IsSignal)
    (hreach : f.Reaches call scope s s₁) (hp : a.eval call scope p s₁ = .error h s₂) :
    b.eval call scope (f.fill p) s = .error h s₂ := by
  cases f with
  | operand t op =>
    cases hreach
    exact bind_of_error hp
  | left t op r =>
    cases hreach
    exact bind_of_error hp
  | right t l op =>
    obtain ⟨v, hl⟩ := hreach
    show (Expr.binary t l op p).eval call scope s = _
    rw [Expr.eval, bind_of_ok hl]
    exact bind_of_error hp
  | condition t yes no =>
    cases hreach
    cases no <;> exact bind_of_error hp
  | consequence t c no =>
    obtain ⟨v, hc, htruthy⟩ := hreach
    show (Expr.cond t c p no).eval call scope s = _
    cases no <;> rw [Expr.eval, bind_of_ok hc, if_pos htruthy] <;> exact hp
  | alternative t c yes =>
    obtain ⟨v, hc, htruthy⟩ := hreach
    show (Expr.cond t c yes (some p)).eval call scope s = _
    rw [Expr.eval, bind_of_ok hc, if_neg (by simp [htruthy])]
    exact hp
  | callee t args =>
    cases hreach
    exact bind_of_error hp
  | argument t f before after =>
    obtain ⟨g, s', vs, hf, hbefore⟩ := hreach
    show (Expr.call t f (before ++ p :: after)).eval call scope s = _
    rw [Expr.eval, bind_of_ok hf]
    exact bind_of_error (evalExprs_of_error hbefore hp)
  | element t before after =>
    obtain ⟨vs, hbefore⟩ := hreach
    show (Expr.array t (before ++ p :: after)).eval call scope s = _
    rw [Expr.eval]
    exact bind_of_error (evalExprs_of_error hbefore hp)
  | indexed t i =>
    cases hreach
    exact bind_of_error hp
  | index t l =>
    obtain ⟨v, hl⟩ := hreach
    show (Expr.index t l p).eval call scope s = _
    rw [Expr.eval, bind_of_ok hl]
    exact bind_of_error hp
  | key t before v after =>
    obtain ⟨table, hbefore⟩ := hreach
    show (Expr.hash t (before ++ (p, v) :: after)).eval call scope s = _
    rw [Expr.eval]
    exact bind_of_error (evalPairs_of_key_error hbefore hp)
  | value t before k after =>
    obtain ⟨table, s', key, hbefore, hk, hkey⟩ := hreach
    show (Expr.hash t (before ++ (k, p) :: after)).eval call scope s = _
    rw [Expr.eval]
    exact bind_of_error (evalPairs_of_value_error hbefore hk hkey hp)
  | bindValue t x =>
    cases hreach
    exact bind_of_error hp
  | returnValue t =>
    cases hreach
    exact Stmt.eval_ret_of_error hsignal hp
  | statement t =>
    cases hreach
    exact bind_of_error hp
  | inner =>
    cases hreach
    exact bind_of_error hp
  | nth t before after =>
    obtain ⟨v, hbefore⟩ := hreach
    show (Block.mk t (before ++ p :: after)).eval call scope s = _
    rw [Block.eval_mk]
    exact bind_of_error (evalStmts_of_error hbefore hp)

theorem Context.eval_fill (C : Context a b) {p : a.Tree} (hsignal : h.IsSignal)
    (hreach : C.Reaches call scope s s₁) (hp : a.eval call scope p s₁ = .error h s₂) :
    b.eval call scope (C.fill p) s = .error h s₂ := by
  induction C generalizing s with
  | hole =>
    cases hreach
    exact hp
  | within outer inner ih =>
    obtain ⟨s', houter, hinner⟩ := hreach
    exact outer.eval_fill hsignal houter (ih hinner)

/-- What comes after the open part does not matter for reaching it. -/
theorem Frame.reaches_past (f : Frame a b) :
    f.past.Reaches call scope s s₁ ↔ f.Reaches call scope s s₁ := by
  cases f <;> exact Iff.rfl

theorem Context.reaches_past (C : Context a b) :
    C.past.Reaches call scope s s₁ ↔ C.Reaches call scope s s₁ := by
  induction C generalizing s with
  | hole => exact Iff.rfl
  | within outer inner ih =>
    show (∃ s', outer.past.Reaches call scope s s' ∧ inner.past.Reaches call scope s' s₁) ↔
      ∃ s', outer.Reaches call scope s s' ∧ inner.Reaches call scope s' s₁
    simp only [Frame.reaches_past, ih]

end

/-! ## Function calls and programs -/

section

open Eval

variable {α : Type} {depth scope inner outer : Nat} {params : List String} {body : Block}
  {args : List Value} {s s₁ s₂ : Scopes} {f : Fault} {v : Value}

theorem catchReturn_of_fault {x : Eval α} (accept : Value → α) (hx : x s = .error (.fault f) s₁) :
    x.catchReturn accept s = .error (.fault f) s₁ := by
  rw [catchReturn, hx]

theorem catchReturn_of_returning {x : Eval α} (accept : Value → α)
    (hx : x s = .error (.returning v) s₁) : x.catchReturn accept s = .ok (accept v) s₁ := by
  rw [catchReturn, hx]

/-- A call evaluates the body of the function in the scope that was opened for it. -/
theorem applyWithin_function (henter : enterCall outer params args s = .ok inner s₁) :
    applyWithin (depth + 1) (.function params body outer) args s =
      catchReturn id (body.eval (applyWithin depth) inner) s₁ := by
  rw [applyWithin]
  exact bind_of_ok henter

theorem Block.eval_error_iff {t : Token} {ss : List Stmt} {h : Halt}
    {call : Value → List Value → Eval Value} :
    (Block.mk t ss).eval call scope s = .error h s₁ ↔
      evalStmts call scope none ss s = .error h s₁ := by
  rw [Block.eval_mk]
  cases hss : evalStmts call scope none ss s with
  | ok v s' =>
    rw [bind_of_ok hss]
    constructor <;> intro h <;> cases h
  | error h' s' => rw [bind_of_error hss, EStateM.Result.error.injEq, EStateM.Result.error.injEq]

end

/-- A tree that is to be evaluated in a scope, where calls may nest `depth` deep. -/
structure Place where
  depth : Nat
  scope : Nat
  shape : Shape
  tree : shape.Tree

namespace Place

def eval (P : Place) : Eval P.shape.Result :=
  P.shape.eval (applyWithin P.depth) P.scope P.tree

/-- Evaluation of the first place, from the scopes given, comes to evaluating the second one in the
scopes given with it: a part of the tree, or the body of a function that is called. -/
inductive Leads : Place → Scopes → Place → Scopes → Prop where
  | here {P : Place} {s : Scopes} : Leads P s P s
  | part {depth scope : Nat} {a b : Shape} {f : Frame a b} {p : a.Tree} {Q : Place}
      {s s₁ s₂ : Scopes} :
      f.Reaches (applyWithin depth) scope s s₁ → Leads ⟨depth, scope, a, p⟩ s₁ Q s₂ →
      Leads ⟨depth, scope, b, f.fill p⟩ s Q s₂
  | body {depth scope inner outer : Nat} {t : Token} {callee : Expr} {args : List Expr}
      {params : List String} {body : Block} {vs : List Value} {Q : Place}
      {s s₁ s₂ s₃ s₄ : Scopes} :
      callee.eval (applyWithin (depth + 1)) scope s = .ok (.function params body outer) s₁ →
      evalExprs (applyWithin (depth + 1)) scope args s₁ = .ok vs s₂ →
      enterCall outer params vs s₂ = .ok inner s₃ →
      Leads ⟨depth, inner, .block, body⟩ s₃ Q s₄ →
      Leads ⟨depth + 1, scope, .expr, Expr.call t callee args⟩ s Q s₄

/-- Nothing stops a runtime error, parts and calls alike. -/
theorem Leads.eval_fault {P Q : Place} {s s₁ s₂ : Scopes} {f : Fault} (h : P.Leads s Q s₁)
    (hQ : Q.eval s₁ = .error (.fault f) s₂) : P.eval s = .error (.fault f) s₂ := by
  induction h with
  | here => exact hQ
  | part hreach _ ih => exact Frame.eval_fill _ trivial hreach (ih hQ)
  | body hcallee hargs henter _ ih =>
    show Expr.eval _ _ _ _ = _
    rw [Expr.eval, Eval.bind_of_ok hcallee, Eval.bind_of_ok hargs, applyWithin_function henter]
    exact catchReturn_of_fault id (ih hQ)

end Place

/-- What a signal does.  It passes through every context, and what stands behind the hole may be
replaced by anything.  A runtime error passes through function calls too, to any depth.  A call and
a program hand a runtime error on and turn a `return` into their value. -/
theorem eval_signal :
    (∀ (depth scope : Nat) (a b : Shape) (C D : Context a b) (p : a.Tree) (s s₁ s₂ : Scopes)
      (h : Halt), h.IsSignal → C.Reaches (applyWithin depth) scope s s₁ →
      a.eval (applyWithin depth) scope p s₁ = .error h s₂ → D.past = C.past →
      b.eval (applyWithin depth) scope (D.fill p) s = .error h s₂) ∧
    (∀ (P Q : Place) (s s₁ s₂ : Scopes) (f : Fault), P.Leads s Q s₁ →
      Q.eval s₁ = .error (.fault f) s₂ → P.eval s = .error (.fault f) s₂) ∧
    (∀ (depth inner outer : Nat) (params : List String) (body : Block) (args : List Value)
      (s s₁ s₂ : Scopes), enterCall outer params args s = .ok inner s₁ →
      (∀ f, body.eval (applyWithin depth) inner s₁ = .error (.fault f) s₂ →
        applyWithin (depth + 1) (.function params body outer) args s = .error (.fault f) s₂) ∧
      ∀ v, body.eval (applyWithin depth) inner s₁ = .error (.returning v) s₂ →
        applyWithin (depth + 1) (.function params body outer) args s = .ok v s₂) ∧
    ∀ (depth scope : Nat) (t : Token) (p : Program) (s s₂ : Scopes),
      (∀ f, (Block.mk t p.statements).eval (applyWithin depth) scope s = .error (.fault f) s₂ →
        p.eval depth scope s = .error (.fault f) s₂) ∧
      ∀ v, (Block.mk t p.statements).eval (applyWithin depth) scope s = .error (.returning v) s₂ →
        p.eval depth scope s = .ok (some v) s₂ := by
  refine ⟨?contexts, fun P Q s s₁ s₂ f h hQ => h.eval_fault hQ, ?calls, ?programs⟩
  case contexts =>
    intro depth scope a b C D p s s₁ s₂ h hsignal hreach hp hpast
    have hD : D.Reaches (applyWithin depth) scope s s₁ := by
      rw [← D.reaches_past, hpast, C.reaches_past]
      exact hreach
    exact D.eval_fill hsignal hD hp
  case calls =>
    intro depth inner outer params body args s s₁ s₂ henter
    rw [applyWithin_function henter]
    exact ⟨fun f => catchReturn_of_fault id, fun v => catchReturn_of_returning id⟩
  case programs =>
    intro depth scope t p s s₂
    rw [Program.eval_eq]
    constructor
    · intro f hf
      exact catchReturn_of_fault some (Block.eval_error_iff.mp hf)
    · intro v hv
      exact catchReturn_of_returning some (Block.eval_error_iff.mp hv)

/-- In `fn() { let y = 1; return [7, □, 8]; 9 }`, the body of the function, with `-true` in the
hole. -/
def deepContext : Context .expr .block :=
  .within (.nth .endOfText [.bind .endOfText "y" (.int .endOfText 1)]
      [.expr .endOfText (.int .endOfText 9)])
    (.within (.returnValue .endOfText)
      (.within (.element .endOfText [.int .endOfText 7] [.int .endOfText 8]) .hole))

/-- The same context with nothing after the hole but expressions that were left out. -/
def deepContextAbsent : Context .expr .block :=
  .within (.nth .endOfText [.bind .endOfText "y" (.int .endOfText 1)] [.expr .endOfText .absent])
    (.within (.returnValue .endOfText)
      (.within (.element .endOfText [.int .endOfText 7] [.absent, .absent]) .hole))

def negatedTrue : Expr := .unary .endOfText .neg (.bool .endOfText true)

theorem eval_signal_deepContext :
    deepContext.Reaches (applyWithin 0) 0 .fresh (Scopes.fresh.define 0 "y" (.int 1)) ∧
    negatedTrue.eval (applyWithin 0) 0 (Scopes.fresh.define 0 "y" (.int 1)) =
      .error (.fault (.unknownUnary .neg .boolean)) (Scopes.fresh.define 0 "y" (.int 1)) ∧
    Block.eval (applyWithin 0) 0 (deepContextAbsent.fill negatedTrue) .fresh =
      .error (.fault (.unknownUnary .neg .boolean)) (Scopes.fresh.define 0 "y" (.int 1)) := by
  have hreach : deepContext.Reaches (applyWithin 0) 0 .fresh
      (Scopes.fresh.define 0 "y" (.int 1)) :=
    ⟨_, ⟨none, rfl⟩, _, rfl, _, ⟨[.int 7], rfl⟩, rfl⟩
  have hhole : negatedTrue.eval (applyWithin 0) 0 (Scopes.fresh.define 0 "y" (.int 1)) =
      .error (.fault (.unknownUnary .neg .boolean)) (Scopes.fresh.define 0 "y" (.int 1)) := rfl
  exact ⟨hreach, hhole, eval_signal.1 0 0 .expr .block deepContext deepContextAbsent negatedTrue _ _
    _ _ trivial hreach hhole rfl⟩

end Monkey

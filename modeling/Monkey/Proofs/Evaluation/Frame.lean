import Monkey.Evaluation.Node
import Monkey.Proofs.Evaluation.Statements

/-!
# What an evaluation leaves alone

A `let` binds its name in the scope of the evaluation, and a call works in a scope of its own.  So
an evaluation leaves all scopes that were there as they were, the one it is in apart.  That one
stays in its place and keeps its names, and only names that some `let` binds get other values.  A
call leaves all scopes as they were.

`Scopes.Framed` says this of the scopes before and after.  It passes through evaluations made one
after the other, so each rule of evaluation needs it of its parts alone.
-/

namespace Monkey

/-! ## The names that are bound -/

mutual

/-- The names that a `let` binds, those in the bodies of functions apart. -/
def Expr.lets : Expr → List String
  | .absent | .ident _ _ | .int _ _ | .str _ _ | .bool _ _ | .func _ _ _ => []
  | .unary _ _ e => e.lets
  | .binary _ l _ r => l.lets ++ r.lets
  | .cond _ c yes none => c.lets ++ yes.lets
  | .cond _ c yes (some no) => c.lets ++ (yes.lets ++ no.lets)
  | .call _ f args => f.lets ++ exprsLets args
  | .array _ es => exprsLets es
  | .index _ l i => l.lets ++ i.lets
  | .hash _ ps => pairsLets ps

def exprsLets : List Expr → List String
  | [] => []
  | e :: es => e.lets ++ exprsLets es

def pairsLets : List (Expr × Expr) → List String
  | [] => []
  | (k, v) :: ps => k.lets ++ (v.lets ++ pairsLets ps)

def Stmt.lets : Stmt → List String
  | .bind _ x e => x :: e.lets
  | .ret _ e => e.lets
  | .expr _ e => e.lets
  | .block b => b.lets

def stmtsLets : List Stmt → List String
  | [] => []
  | s :: ss => s.lets ++ stmtsLets ss

def Block.lets : Block → List String
  | .mk _ ss => stmtsLets ss

end

def Node.lets : Node → List String
  | program p => stmtsLets p.statements
  | stmt s => s.lets
  | expr e => e.lets

/-! ## Scopes before and after -/

/-- The second scope is the first one after bindings of the names `xs`: it lies in the same scope,
binds all names the first one binds, and binds every other name to what the first one binds it
to. -/
structure Scope.Rebinds (xs : List String) (a b : Scope) : Prop where
  outer_eq : b.outer = a.outer
  keeps : ∀ x, (a.bindings.get? x).isSome → (b.bindings.get? x).isSome
  get?_eq : ∀ x, x ∉ xs → b.bindings.get? x = a.bindings.get? x

namespace Scope.Rebinds

variable {xs ys : List String} {a b c : Scope}

theorem refl (a : Scope) : a.Rebinds xs a := ⟨rfl, fun _ h => h, fun _ _ => rfl⟩

theorem trans (hab : a.Rebinds xs b) (hbc : b.Rebinds xs c) : a.Rebinds xs c where
  outer_eq := hbc.outer_eq.trans hab.outer_eq
  keeps x hx := hbc.keeps x (hab.keeps x hx)
  get?_eq x hx := (hbc.get?_eq x hx).trans (hab.get?_eq x hx)

theorem mono (h : a.Rebinds xs b) (hxs : xs ⊆ ys) : a.Rebinds ys b where
  outer_eq := h.outer_eq
  keeps := h.keeps
  get?_eq x hx := h.get?_eq x fun hmem => hx (hxs hmem)

theorem insert (a : Scope) (x : String) (v : Value) :
    a.Rebinds [x] { a with bindings := a.bindings.insert x v } where
  outer_eq := rfl
  keeps y hy := by
    show ((a.bindings.insert x v).get? y).isSome
    by_cases hxy : x = y
    · rw [← hxy, Table.get?_insert_self]
      rfl
    · rw [Table.get?_insert_of_ne _ _ hxy]
      exact hy
  get?_eq y hy := by
    have hxy : x ≠ y := fun h => hy (List.mem_singleton.mpr h.symm)
    exact Table.get?_insert_of_ne _ _ hxy

end Scope.Rebinds

namespace Scopes

/-- Every scope that was there is exactly as it was. -/
structure Kept (s s' : Scopes) : Prop where
  size_le : s.size ≤ s'.size
  row_eq : ∀ id, id < s.size → s'.row[id]? = s.row[id]?

/-- Every scope that was there is exactly as it was, except that names of `xs` may have been bound
in the scope `r`. -/
structure Framed (r : Nat) (xs : List String) (s s' : Scopes) : Prop where
  size_le : s.size ≤ s'.size
  row_eq : ∀ id, id < s.size → id ≠ r → s'.row[id]? = s.row[id]?
  rebinds : ∀ a, s.row[r]? = some a → ∃ b, s'.row[r]? = some b ∧ a.Rebinds xs b

theorem lt_size_of_getElem? {s : Scopes} {id : Nat} {a : Scope} (h : s.row[id]? = some a) :
    id < s.size :=
  (Array.getElem?_eq_some_iff.mp h).1

theorem row_define_of_ne (s : Scopes) {id r : Nat} (x : String) (v : Value) (h : id ≠ r) :
    (s.define r x v).row[id]? = s.row[id]? := by
  unfold define
  rw [Array.getElem?_modify, if_neg h.symm]

theorem row_define_self (s : Scopes) (r : Nat) (x : String) (v : Value) :
    (s.define r x v).row[r]? =
      s.row[r]?.map fun a => { a with bindings := a.bindings.insert x v } := by
  unfold define
  rw [Array.getElem?_modify, if_pos rfl]

theorem row_add_of_lt (s : Scopes) (outer : Option Nat) {id : Nat} (h : id < s.size) :
    (s.add outer).row[id]? = s.row[id]? := by
  unfold add
  exact Array.getElem?_push_lt h |>.trans (Array.getElem?_eq_getElem h).symm

variable {r : Nat} {xs ys : List String} {s t u : Scopes}

theorem Kept.refl (s : Scopes) : s.Kept s := ⟨Nat.le_refl _, fun _ _ => rfl⟩

theorem Kept.framed (h : s.Kept t) : s.Framed r xs t where
  size_le := h.size_le
  row_eq id hid _ := h.row_eq id hid
  rebinds a ha := by
    have hrow := h.row_eq r (lt_size_of_getElem? ha)
    exact ⟨a, hrow.trans ha, .refl a⟩

/-- Changes in a scope that was not there leave the scopes that were. -/
theorem Framed.kept (h : s.Framed r xs t) (hr : s.size ≤ r) : s.Kept t where
  size_le := h.size_le
  row_eq id hid := h.row_eq id hid (by omega)

namespace Framed

theorem refl (s : Scopes) : s.Framed r xs s where
  size_le := Nat.le_refl _
  row_eq _ _ _ := rfl
  rebinds a ha := ⟨a, ha, .refl a⟩

theorem trans (hst : s.Framed r xs t) (htu : t.Framed r xs u) : s.Framed r xs u where
  size_le := Nat.le_trans hst.size_le htu.size_le
  row_eq id hid hne := by
    have hid' : id < t.size := Nat.lt_of_lt_of_le hid hst.size_le
    rw [htu.row_eq id hid' hne, hst.row_eq id hid hne]
  rebinds a ha := by
    obtain ⟨b, hb, hab⟩ := hst.rebinds a ha
    obtain ⟨c, hc, hbc⟩ := htu.rebinds b hb
    exact ⟨c, hc, hab.trans hbc⟩

theorem mono (h : s.Framed r xs t) (hxs : xs ⊆ ys) : s.Framed r ys t where
  size_le := h.size_le
  row_eq := h.row_eq
  rebinds a ha := by
    obtain ⟨b, hb, hab⟩ := h.rebinds a ha
    exact ⟨b, hb, hab.mono hxs⟩

theorem define (s : Scopes) (r : Nat) (x : String) (v : Value) :
    s.Framed r [x] (s.define r x v) where
  size_le := Nat.le_of_eq Array.size_modify.symm
  row_eq id _ hne := s.row_define_of_ne x v hne
  rebinds a ha := by
    refine ⟨_, ?_, .insert a x v⟩
    rw [row_define_self, ha]
    rfl

end Framed

theorem Kept.add (s : Scopes) (outer : Option Nat) : s.Kept (s.add outer) where
  size_le := by
    show s.row.size ≤ (s.row.push _).size
    rw [Array.size_push]
    exact Nat.le_succ _
  row_eq _ hid := s.row_add_of_lt outer hid

/-- Names that are bound one after the other are bound in one scope. -/
theorem Framed.foldl_define (r : Nat) (bs : List (String × Value)) (s : Scopes) :
    s.Framed r (bs.map Prod.fst) (bs.foldl (fun s (x, v) => s.define r x v) s) := by
  induction bs generalizing s with
  | nil => exact .refl s
  | cons b bs ih =>
    have hfirst : s.Framed r ((b :: bs).map Prod.fst) (s.define r b.1 b.2) :=
      (Framed.define s r b.1 b.2).mono (by simp)
    have hothers : (s.define r b.1 b.2).Framed r ((b :: bs).map Prod.fst) _ :=
      (ih (s.define r b.1 b.2)).mono (by simp)
    exact hfirst.trans hothers

end Scopes

/-! ## Evaluations -/

namespace Eval

variable {α β : Type}

/-- The scopes that an evaluation leaves, however it ends. -/
def final (x : Eval α) (s : Scopes) : Scopes :=
  match x s with
  | .ok _ s' => s'
  | .error _ s' => s'

/-- Wherever it starts, the evaluation binds at most names of `xs` in the scope `r`. -/
def Framed (r : Nat) (xs : List String) (x : Eval α) : Prop :=
  ∀ s : Scopes, s.Framed r xs (x.final s)

variable {r : Nat} {xs ys : List String}

theorem framed_pure {a : α} : (pure a : Eval α).Framed r xs := fun s => .refl s

theorem framed_throw {h : Halt} : (throw h : Eval α).Framed r xs := fun s => .refl s

theorem framed_ofExcept {e : Except Fault α} : (ofExcept e).Framed r xs := by
  cases e with
  | ok a => exact framed_pure
  | error f => exact framed_throw

theorem Framed.mono {x : Eval α} (h : x.Framed r xs) (hxs : xs ⊆ ys) : x.Framed r ys :=
  fun s => (h s).mono hxs

/-- Whether or not the first evaluation stops, what it changed is changed. -/
theorem Framed.bind {x : Eval α} {f : α → Eval β} (hx : x.Framed r xs)
    (hf : ∀ a, (f a).Framed r xs) : (x >>= f).Framed r xs := by
  intro s
  have hxs := hx s
  show s.Framed r xs (final (EStateM.bind x f) s)
  unfold final EStateM.bind
  unfold final at hxs
  cases hres : x s with
  | error h s' =>
    rw [hres] at hxs
    exact hxs
  | ok a s' =>
    rw [hres] at hxs
    exact hxs.trans (hf a s')

/-- The parts bind names of their own lists. -/
theorem Framed.bind_append {x : Eval α} {f : α → Eval β} (hx : x.Framed r xs)
    (hf : ∀ a, (f a).Framed r ys) : (x >>= f).Framed r (xs ++ ys) :=
  (hx.mono (List.subset_append_left xs ys)).bind
    fun a => (hf a).mono (List.subset_append_right xs ys)

theorem Framed.catchReturn {x : Eval α} (accept : Value → α) (hx : x.Framed r xs) :
    (x.catchReturn accept).Framed r xs := by
  intro s
  have hxs := hx s
  unfold final at hxs
  unfold final Eval.catchReturn
  cases hres : x s with
  | ok a s' =>
    rw [hres] at hxs
    exact hxs
  | error h s' =>
    rw [hres] at hxs
    cases h <;> exact hxs

theorem framed_readName (scope : Nat) (x : String) : (readName scope x).Framed r xs := by
  have hget : (get : Eval Scopes).Framed r xs := fun s => .refl s
  rw [readName]
  apply hget.bind
  intro s
  split
  · exact framed_pure
  · split
    · exact framed_pure
    · exact framed_throw

theorem framed_define (r : Nat) (x : String) (v : Value) :
    Framed r [x] (modify fun s => s.define r x v) := fun s => .define s r x v

end Eval

/-! ## Trees -/

section

/-- Calls leave all scopes as they were. -/
def CallKeeps (call : Value → List Value → Eval Value) : Prop :=
  ∀ (f : Value) (args : List Value) (s : Scopes), s.Kept ((call f args).final s)

variable {call : Value → List Value → Eval Value} {r : Nat}

open Eval

theorem CallKeeps.framed (hcall : CallKeeps call) (f : Value) (args : List Value)
    (xs : List String) : (call f args).Framed r xs := fun s => (hcall f args s).framed

mutual

theorem Expr.eval_framed (hcall : CallKeeps call) :
    (e : Expr) → (e.eval call r).Framed r e.lets
  | .absent => framed_throw
  | .ident _ x => framed_readName r x
  | .int _ n => framed_pure
  | .str _ s => framed_pure
  | .bool _ b => framed_pure
  | .unary _ op e => by
    rw [Expr.eval, Expr.lets]
    apply (e.eval_framed hcall).bind
    intro v
    exact framed_ofExcept
  | .binary _ l op r => by
    rw [Expr.eval, Expr.lets]
    apply (l.eval_framed hcall).bind_append
    intro a
    apply (r.eval_framed hcall).bind
    intro b
    exact framed_ofExcept
  | .cond _ c yes none => by
    rw [Expr.eval, Expr.lets]
    apply (c.eval_framed hcall).bind_append
    intro v
    split
    · exact yes.eval_framed hcall
    · exact framed_pure
  | .cond _ c yes (some no) => by
    rw [Expr.eval, Expr.lets]
    apply (c.eval_framed hcall).bind_append
    intro v
    -- either block is in the scope of the conditional
    split
    · exact (yes.eval_framed hcall).mono (List.subset_append_left _ _)
    · exact (no.eval_framed hcall).mono (List.subset_append_right _ _)
  | .func _ params body => framed_pure
  | .call _ f args => by
    rw [Expr.eval, Expr.lets]
    apply (f.eval_framed hcall).bind_append
    intro g
    apply (evalExprs_framed hcall args).bind
    intro vs
    exact hcall.framed g vs _
  | .array _ es => by
    rw [Expr.eval, Expr.lets]
    apply (evalExprs_framed hcall es).bind
    intro vs
    exact framed_pure
  | .index _ l i => by
    rw [Expr.eval, Expr.lets]
    apply (l.eval_framed hcall).bind_append
    intro v
    apply (i.eval_framed hcall).bind
    intro w
    exact framed_ofExcept
  | .hash _ ps => by
    rw [Expr.eval, Expr.lets]
    apply (evalPairs_framed hcall [] ps).bind
    intro table
    exact framed_pure

theorem evalExprs_framed (hcall : CallKeeps call) :
    (es : List Expr) → (evalExprs call r es).Framed r (exprsLets es)
  | [] => framed_pure
  | e :: es => by
    rw [evalExprs, exprsLets]
    apply (e.eval_framed hcall).bind_append
    intro v
    apply (evalExprs_framed hcall es).bind
    intro vs
    exact framed_pure

theorem evalPairs_framed (hcall : CallKeeps call) (table : Table HashKey (Value × Value)) :
    (ps : List (Expr × Expr)) → (evalPairs call r table ps).Framed r (pairsLets ps)
  | [] => framed_pure
  | (k, v) :: ps => by
    rw [evalPairs, pairsLets]
    apply (k.eval_framed hcall).bind_append
    intro key
    split
    · exact framed_throw
    · apply (v.eval_framed hcall).bind_append
      intro value
      exact evalPairs_framed hcall _ ps

theorem Stmt.eval_framed (hcall : CallKeeps call) :
    (s : Stmt) → (s.eval call r).Framed r s.lets
  | .bind _ x e => by
    rw [Stmt.eval, Stmt.lets]
    apply ((e.eval_framed hcall).mono (List.subset_cons_self x e.lets)).bind
    intro v
    -- this is the only place where a scope that was there is changed
    have hdefine : Framed r (x :: e.lets) (modify fun s => s.define r x v) :=
      (framed_define r x v).mono (by simp)
    apply hdefine.bind
    intro _
    exact framed_pure
  | .ret _ e => by
    have hvalue : (e.eval call r >>= fun v => throw (.returning v) :
        Eval (Option Value)).Framed r e.lets :=
      (e.eval_framed hcall).bind fun v => framed_throw
    cases e with
    | absent => exact framed_throw
    | _ => exact hvalue
  | .expr _ e => by
    rw [Stmt.eval, Stmt.lets]
    apply (e.eval_framed hcall).bind
    intro v
    exact framed_pure
  | .block b => by
    rw [Stmt.eval, Stmt.lets]
    apply (b.eval_framed hcall).bind
    intro v
    exact framed_pure

theorem evalStmts_framed (hcall : CallKeeps call) (last : Option Value) :
    (ss : List Stmt) → (evalStmts call r last ss).Framed r (stmtsLets ss)
  | [] => framed_pure
  | s :: ss => by
    rw [evalStmts, stmtsLets]
    apply (s.eval_framed hcall).bind_append
    intro v
    exact evalStmts_framed hcall v ss

theorem Block.eval_framed (hcall : CallKeeps call) :
    (b : Block) → (b.eval call r).Framed r b.lets
  | .mk _ ss => by
    rw [Block.eval_mk, Block.lets]
    apply (evalStmts_framed hcall none ss).bind
    intro v
    exact framed_pure

end

end

/-! ## Calls -/

/-- A call opens a scope behind all others and binds the parameters there. -/
theorem Scopes.Kept.enterCall (outer : Nat) (params : List String) (args : List Value)
    (s : Scopes) :
    ∃ s₁, Monkey.enterCall outer params args s = .ok s.size s₁ ∧ s.Kept s₁ := by
  refine ⟨_, rfl, ?_⟩
  have hadd : s.Kept (s.add (some outer)) := .add s _
  have hbind := Framed.foldl_define s.size (params.zip args) (s.add (some outer))
  exact (hadd.framed.trans hbind).kept (Nat.le_refl _)

/-- By induction on how deep calls may nest: the body of a function is evaluated in the scope that
was opened for it. -/
theorem callKeeps_applyWithin (depth : Nat) : CallKeeps (applyWithin depth) := by
  have hbuiltin (b : Builtin) (args : List Value) (s : Scopes) :
      s.Kept ((Eval.ofExcept (b.apply args)).final s) := by
    cases b.apply args <;> exact .refl s
  induction depth with
  | zero =>
    intro f args s
    cases f with
    | builtin b => exact hbuiltin b args s
    | _ => exact .refl s
  | succ depth ih =>
    intro f args s
    cases f with
    | builtin b => exact hbuiltin b args s
    | function params body outer =>
      obtain ⟨s₁, henter, hkept⟩ := Scopes.Kept.enterCall outer params args s
      have hbody : (body.eval (applyWithin depth) s.size).Framed s.size body.lets :=
        body.eval_framed ih
      have hfinal : (applyWithin (depth + 1) (.function params body outer) args).final s =
          (Eval.catchReturn id (body.eval (applyWithin depth) s.size)).final s₁ := by
        rw [applyWithin]
        show Eval.final (EStateM.bind _ _) s = _
        simp only [Eval.final, EStateM.bind, henter]
      rw [hfinal]
      exact (hkept.framed.trans (hbody.catchReturn id s₁)).kept (Nat.le_refl _)
    | _ => exact .refl s

theorem Program.eval_framed (depth r : Nat) (p : Program) :
    (p.eval depth r).Framed r (stmtsLets p.statements) := by
  rw [Program.eval_eq]
  exact (evalStmts_framed (callKeeps_applyWithin depth) none p.statements).catchReturn some

/-- Whatever is evaluated, in whatever scope and however it ends, the other scopes are as they were,
and the scope itself is changed at most at names that a `let` binds.  A call of whatever value with
whatever arguments leaves all scopes as they were. -/
theorem eval_frame (depth : Nat) (s : Scopes) :
    (∀ (n : Node) (r : Nat), s.Framed r n.lets ((n.eval depth r).final s)) ∧
    ∀ (f : Value) (args : List Value), s.Kept ((applyWithin depth f args).final s) := by
  have hcall := callKeeps_applyWithin depth
  refine ⟨fun n r => ?_, fun f args => hcall f args s⟩
  cases n with
  | program p => exact p.eval_framed depth r s
  | stmt t => exact t.eval_framed hcall s
  | expr e => exact ((e.eval_framed hcall).bind fun v => Eval.framed_pure) s

end Monkey

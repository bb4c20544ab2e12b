import Mathlib
import Monkey.Proofs.Coincidence
import Monkey.Proofs.Evaluation.Arithmetic
import Monkey.Proofs.Hash

/-!
# Function calls

A call opens a scope behind all others, binds the parameters in it and evaluates the body there.  So
a function without parameters does what the program of the same statements does in a new scope: both
run the statements, the call turns a `return` into its value as the program does, and where the
program has no value the call is worth `null`.

A call leaves the scopes that are there as they were.  An evaluation that comes to a value by calls
alone can therefore be put together from its parts without saying which scopes were opened on the
way; section 4 has a rule for each way to do that.
-/

namespace Monkey

/-! ## 1. Looking up names -/

namespace Scopes

variable {s t u : Scopes} {id : Nat} {x y : String}

/-- What a name stands for in the scope around the scope `id`. -/
def around (s : Scopes) (id : Nat) (outer : Option Nat) (x : String) : Option Value :=
  outer.bind fun o => if o < id then s.get? o x else none

/-- The scope itself comes first, then the scope around it. -/
theorem get?_eq (s : Scopes) (id : Nat) (x : String) :
    s.get? id x = s.row[id]?.bind fun a => (a.bindings.get? x).or (s.around id a.outer x) := by
  rw [get?]
  cases s.row[id]? with
  | none => rfl
  | some a =>
    simp only [Option.bind_some]
    cases a.bindings.get? x with
    | some v => rfl
    | none => cases a.outer <;> rfl

theorem around_congr (h : ∀ o < id, t.get? o x = s.get? o x) (outer : Option Nat) :
    t.around id outer x = s.around id outer x := by
  cases outer with
  | none => rfl
  | some o =>
    show (if o < id then t.get? o x else none) = if o < id then s.get? o x else none
    by_cases ho : o < id
    · rw [if_pos ho, if_pos ho, h o ho]
    · rw [if_neg ho, if_neg ho]

/-- What a name stands for is decided by the scopes up to the one where the search begins. -/
theorem get?_congr (h : ∀ i ≤ id, t.row[i]? = s.row[i]?) : t.get? id x = s.get? id x := by
  induction id using Nat.strong_induction_on with
  | _ id ih =>
    have houter (o : Nat) (ho : o < id) : t.get? o x = s.get? o x :=
      ih o ho fun i hi => h i (by omega)
    rw [get?_eq, get?_eq, h id (Nat.le_refl _)]
    simp only [around_congr houter]

theorem Kept.trans (hst : s.Kept t) (htu : t.Kept u) : s.Kept u where
  size_le := Nat.le_trans hst.size_le htu.size_le
  row_eq i hi := (htu.row_eq i (Nat.lt_of_lt_of_le hi hst.size_le)).trans (hst.row_eq i hi)

theorem Kept.get?_eq (h : s.Kept t) (hid : id < s.size) : t.get? id x = s.get? id x :=
  get?_congr fun i hi => h.row_eq i (Nat.lt_of_le_of_lt hi hid)

theorem get?_define_self (v : Value) (hid : id < s.size) :
    (s.define id x v).get? id x = some v := by
  rw [Scopes.get?_eq, row_define_self, Array.getElem?_eq_getElem hid, Option.map_some,
    Option.bind_some, Table.get?_insert_self, Option.some_or]

theorem get?_define_of_ne (v : Value) (hxy : x ≠ y) :
    (s.define id x v).get? id y = s.get? id y := by
  have houter (o : Nat) (ho : o < id) : (s.define id x v).get? o y = s.get? o y :=
    get?_congr fun i hi => row_define_of_ne s x v (by omega)
  rw [Scopes.get?_eq, Scopes.get?_eq s, row_define_self, Option.bind_map]
  simp only [Function.comp_def, Table.get?_insert_of_ne _ _ hxy, around_congr houter]

/-- Binding a name in a scope that was not there keeps those that were. -/
theorem Kept.define (h : s.Kept t) (hid : s.size ≤ id) (x : String) (v : Value) :
    s.Kept (t.define id x v) := by
  have hframed : s.Framed id [x] t := h.framed
  exact (hframed.trans (.define t id x v)).kept hid

theorem row_foldl_define (bs : List (String × Value)) (s : Scopes) (id : Nat) :
    (bs.foldl (fun s (x, v) => s.define id x v) s).row[id]? = s.row[id]?.map fun a =>
      { a with bindings := bs.foldl (fun t p => t.insert p.1 p.2) a.bindings } := by
  induction bs generalizing s with
  | nil => simp
  | cons b bs ih =>
    rw [List.foldl_cons, ih, row_define_self, Option.map_map]
    rfl

end Scopes

/-! ## 2. The scope of a call -/

/-- In `t`, the scope `inner` has been opened for a call of a function made in the scope `outer` of
`s`.  The parameters, bound as in `bs`, come before what is seen from the function. -/
structure Scopes.Entered (s : Scopes) (outer : Nat) (bs : List (String × Value)) (inner : Nat)
    (t : Scopes) : Prop where
  kept : s.Kept t
  size_le : s.size ≤ inner
  lt_size : inner < t.size
  get?_eq : ∀ x, t.get? inner x = ((Table.ofList bs).get? x).or (s.get? outer x)

/-- A name that is no parameter is seen from the function. -/
theorem Scopes.Entered.get?_of_not_mem {s t : Scopes} {outer inner : Nat}
    {bs : List (String × Value)} {x : String} (h : s.Entered outer bs inner t)
    (hx : x ∉ bs.map Prod.fst) : t.get? inner x = s.get? outer x := by
  have hkeys : x ∉ (Table.ofList bs).keys := by
    rw [Table.keys_ofList, List.mem_eraseDups]
    exact hx
  rw [h.get?_eq, Table.get?_eq_none_of_not_mem hkeys, Option.none_or]

theorem Scopes.Entered.of_kept {s t u : Scopes} {outer inner : Nat} {bs : List (String × Value)}
    (h : t.Entered outer bs inner u) (hst : s.Kept t) (houter : outer < s.size) :
    s.Entered outer bs inner u where
  kept := hst.trans h.kept
  size_le := Nat.le_trans hst.size_le h.size_le
  lt_size := h.lt_size
  get?_eq x := by rw [h.get?_eq, hst.get?_eq houter]

/-- A call opens a scope behind all others, in which the parameters that have an argument are
bound. -/
theorem Scopes.row_enterCall (outer : Nat) (params : List String) (args : List Value) (s : Scopes) :
    ∃ s₁, Monkey.enterCall outer params args s = .ok s.size s₁ ∧ s.Kept s₁ ∧
      s₁.row[s.size]? = some ⟨Table.ofList (params.zip args), some outer⟩ := by
  obtain ⟨s₁, henter, hkept⟩ := Scopes.Kept.enterCall outer params args s
  have hs₁ : s₁ = (params.zip args).foldl (fun s' (x, v) => s'.define s.size x v)
      (s.add (some outer)) := by
    cases henter
    rfl
  have hnew : (s.add (some outer)).row[s.size]? = some ⟨[], some outer⟩ :=
    Array.getElem?_push_size
  refine ⟨s₁, henter, hkept, ?_⟩
  rw [hs₁, Scopes.row_foldl_define, hnew]
  rfl

theorem Scopes.Entered.enterCall {s : Scopes} {outer : Nat} (houter : outer < s.size)
    (params : List String) (args : List Value) :
    ∃ s₁, Monkey.enterCall outer params args s = .ok s.size s₁ ∧
      s.Entered outer (params.zip args) s.size s₁ := by
  obtain ⟨s₁, henter, hkept, hrow⟩ := Scopes.row_enterCall outer params args s
  refine ⟨s₁, henter, hkept, Nat.le_refl _, Scopes.lt_size_of_getElem? hrow, fun x => ?_⟩
  rw [Scopes.get?_eq, hrow, Option.bind_some, Scopes.around, Option.bind_some, if_pos houter,
    hkept.get?_eq houter]

/-! ## 3. The body of a function as a program -/

theorem Eval.outcome_eq_exhausted_iff {x : Eval (Option Value)} {s : Scopes} :
    (x.outcome s).1 = .exhausted ↔ ∃ s', x s = .error .exhausted s' := by
  unfold outcome
  cases x s with
  | ok v s' => constructor <;> intro h <;> simp at h
  | error h s' => cases h <;> simp

/-- A `return` may be caught before or after `null` is given for no value: it has a value. -/
theorem Eval.catchReturn_getD (x : Eval (Option Value)) (s : Scopes) :
    Eval.catchReturn id (x >>= fun v => pure (v.getD .null)) s =
      (Eval.catchReturn some x >>= fun v => pure (v.getD .null)) s := by
  rw [catchReturn]
  cases hx : x s with
  | ok v s' =>
    have hcaught : Eval.catchReturn some x s = .ok v s' := by rw [catchReturn, hx]
    rw [bind_of_ok hx, bind_of_ok hcaught]
    rfl
  | error h s' =>
    rw [bind_of_error hx]
    cases h with
    | returning v =>
      rw [bind_of_ok (catchReturn_of_returning some hx)]
      rfl
    | _ => exact (bind_of_error (by rw [catchReturn, hx])).symm

/-- The loop of the body and the loop of the program run the same statements in the new scope.  The
first one gives `null` for no value and leaves a `return` to the call; the second one takes the
value of a `return` itself. -/
theorem applyWithin_body (depth outer : Nat) (args : List Value) (t : Token) (ss : List Stmt)
    (s : Scopes) :
    applyWithin (depth + 1) (.function [] (.mk t ss) outer) args s =
      (Program.eval depth s.size ⟨ss⟩ >>= fun v => pure (v.getD .null)) (s.add (some outer)) := by
  have henter : enterCall outer [] args s = .ok s.size (s.add (some outer)) := rfl
  rw [applyWithin_function henter, Block.eval_mk, Program.eval_eq]
  exact Eval.catchReturn_getD _ _

theorem applyWithin_body_error_iff {depth outer : Nat} {args : List Value} {t : Token}
    {ss : List Stmt} {s s' : Scopes} {h : Halt} :
    applyWithin (depth + 1) (.function [] (.mk t ss) outer) args s = .error h s' ↔
      Program.eval depth s.size ⟨ss⟩ (s.add (some outer)) = .error h s' := by
  rw [applyWithin_body]
  cases hp : Program.eval depth s.size ⟨ss⟩ (s.add (some outer)) with
  | ok v s₁ =>
    rw [Eval.bind_of_ok hp]
    constructor <;> intro h <;> cases h
  | error h₁ s₁ =>
    rw [Eval.bind_of_error hp]
    constructor <;> intro h <;> cases h <;> rfl

theorem applyWithin_body_ok_iff {depth outer : Nat} {args : List Value} {t : Token}
    {ss : List Stmt} {s s' : Scopes} {v : Value} :
    applyWithin (depth + 1) (.function [] (.mk t ss) outer) args s = .ok v s' ↔
      ∃ o, Program.eval depth s.size ⟨ss⟩ (s.add (some outer)) = .ok o s' ∧ v = o.getD .null := by
  rw [applyWithin_body]
  cases hp : Program.eval depth s.size ⟨ss⟩ (s.add (some outer)) with
  | ok o s₁ =>
    rw [Eval.bind_of_ok hp]
    constructor
    · intro h
      cases h
      exact ⟨o, rfl, rfl⟩
    · rintro ⟨o', ho', rfl⟩
      cases ho'
      rfl
  | error h₁ s₁ =>
    rw [Eval.bind_of_error hp]
    constructor
    · intro h
      cases h
    · rintro ⟨o', ho', -⟩
      cases ho'

/-- A call of a function without parameters, with whatever arguments, does what the program of its
statements does in a new, empty scope around which lies the scope of the function.  The call comes
to the value of the program, or to `null` where the program has none.  It stops in an error exactly
if the program does, and in the same one.  Both leave the same scopes, the new one among them.  The
call ends, if calls may nest deeply enough, exactly if the program does. -/
theorem applyWithin_iff_program (outer : Nat) (args : List Value) (t : Token) (ss : List Stmt)
    (s : Scopes) :
    (s.add (some outer)).row[s.size]? = some ⟨[], some outer⟩ ∧
    (∀ depth,
      let call := applyWithin (depth + 1) (.function [] (.mk t ss) outer) args
      let program := Program.eval depth s.size ⟨ss⟩
      (∀ v s', call s = .ok v s' ↔
        ∃ o, program (s.add (some outer)) = .ok o s' ∧ v = o.getD .null) ∧
      (∀ h s', call s = .error h s' ↔ program (s.add (some outer)) = .error h s') ∧
      call.final s = program.final (s.add (some outer))) ∧
    ((∃ depth, ∀ s',
        applyWithin depth (.function [] (.mk t ss) outer) args s ≠ .error .exhausted s') ↔
      Program.Terminates ⟨ss⟩ s.size (s.add (some outer))) := by
  refine ⟨Array.getElem?_push_size, fun depth => ⟨?_, ?_, ?_⟩, ?_⟩
  · intro v s'
    exact applyWithin_body_ok_iff
  · intro h s'
    exact applyWithin_body_error_iff
  · unfold Eval.final
    rw [applyWithin_body]
    cases hp : Program.eval depth s.size ⟨ss⟩ (s.add (some outer)) with
    | ok o s' => rw [Eval.bind_of_ok hp]; rfl
    | error h s' => rw [Eval.bind_of_error hp]
  · have hends (depth : Nat) :
        (∀ s', applyWithin (depth + 1) (.function [] (.mk t ss) outer) args s ≠
          .error .exhausted s') ↔
        ((Program.eval depth s.size ⟨ss⟩).outcome (s.add (some outer))).1 ≠ .exhausted := by
      rw [Ne, Eval.outcome_eq_exhausted_iff, not_exists]
      exact forall_congr' fun s' => not_congr applyWithin_body_error_iff
    constructor
    · rintro ⟨depth, hdepth⟩
      cases depth with
      | zero => exact absurd rfl (hdepth s)
      | succ depth => exact ⟨depth, (hends depth).mp hdepth⟩
    · rintro ⟨depth, hdepth⟩
      exact ⟨depth + 1, (hends depth).mpr hdepth⟩

/-! ## 4. Evaluations that come to a value -/

namespace Eval

variable {α β : Type} {s t : Scopes} {x : Eval α} {a : α}

/-- Wherever the scopes of `s` are still as they are in `s`, the evaluation comes to `a`, and it
leaves all scopes as they were. -/
def Yields (s : Scopes) (x : Eval α) (a : α) : Prop :=
  ∀ t, s.Kept t → ∃ t', x t = .ok a t' ∧ t.Kept t'

theorem Yields.mono (h : x.Yields s a) (hst : s.Kept t) : x.Yields t a :=
  fun u htu => h u (hst.trans htu)

theorem Yields.exists_ok (h : x.Yields s a) : ∃ s', x s = .ok a s' := by
  obtain ⟨s', hx, -⟩ := h s (.refl s)
  exact ⟨s', hx⟩

theorem yields_pure (a : α) : (pure a : Eval α).Yields s a := fun t _ => ⟨t, rfl, .refl t⟩

theorem yields_ofExcept {e : Except Fault α} (he : e = .ok a) : (ofExcept e).Yields s a := by
  rw [he]
  exact yields_pure a

theorem Yields.bind {f : α → Eval β} {b : β} (hx : x.Yields s a) (hf : (f a).Yields s b) :
    (x >>= f).Yields s b := by
  intro t hst
  obtain ⟨t₁, hxt, ht₁⟩ := hx t hst
  obtain ⟨t₂, hft, ht₂⟩ := hf t₁ (hst.trans ht₁)
  exact ⟨t₂, (bind_of_ok hxt).trans hft, ht₁.trans ht₂⟩

end Eval

section

open Eval

variable {s : Scopes} {call : Value → List Value → Eval Value} {id depth : Nat} {v w : Value}

/-- A name that is not bound stands for the built-in function of that name. -/
theorem readName_of_builtin {x : String} {b : Builtin} (hx : s.get? id x = none)
    (hb : Builtin.ofName? x = some b) : readName id x s = .ok (.builtin b) s := by
  have hget : (get : Eval Scopes) s = .ok s s := rfl
  rw [readName, bind_of_ok hget, hx]
  simp only [hb]
  rfl

theorem yields_readName {x : String} (hid : id < s.size) (hx : s.get? id x = some v) :
    (readName id x).Yields s v := by
  intro t hst
  exact ⟨t, readName_of_get? ((hst.get?_eq hid).trans hx), .refl t⟩

theorem yields_readName_builtin {x : String} {b : Builtin} (hid : id < s.size)
    (hx : s.get? id x = none) (hb : Builtin.ofName? x = some b) :
    (readName id x).Yields s (.builtin b) := by
  intro t hst
  exact ⟨t, readName_of_builtin ((hst.get?_eq hid).trans hx) hb, .refl t⟩

theorem Expr.yields_binary {k : Token} {l r : Expr} {op : BinaryOp} {u : Value}
    (hl : (l.eval call id).Yields s v) (hr : (r.eval call id).Yields s w)
    (hop : op.apply v w = .ok u) : ((Expr.binary k l op r).eval call id).Yields s u := by
  rw [Expr.eval]
  exact hl.bind (hr.bind (yields_ofExcept hop))

theorem Expr.yields_cond_pos {k : Token} {c : Expr} {yes no : Block}
    (hc : (c.eval call id).Yields s v) (hv : v.truthy = true)
    (hyes : (yes.eval call id).Yields s w) :
    ((Expr.cond k c yes (some no)).eval call id).Yields s w := by
  rw [Expr.eval]
  apply hc.bind
  rw [if_pos hv]
  exact hyes

theorem Expr.yields_cond_neg {k : Token} {c : Expr} {yes no : Block}
    (hc : (c.eval call id).Yields s v) (hv : v.truthy = false)
    (hno : (no.eval call id).Yields s w) :
    ((Expr.cond k c yes (some no)).eval call id).Yields s w := by
  rw [Expr.eval]
  apply hc.bind
  rw [if_neg (by rw [hv]; decide)]
  exact hno

/-- The arguments are evaluated one after the other. -/
theorem yields_evalExprs {es : List Expr} {vs : List Value}
    (h : List.Forall₂ (fun e v => (e.eval call id).Yields s v) es vs) :
    (evalExprs call id es).Yields s vs := by
  induction h with
  | nil => exact yields_pure []
  | cons he _ ih =>
    rw [evalExprs]
    exact he.bind (ih.bind (yields_pure _))

theorem Expr.yields_call {k : Token} {f : Expr} {es : List Expr} {vs : List Value}
    (hf : (f.eval call id).Yields s v)
    (hes : List.Forall₂ (fun e v => (e.eval call id).Yields s v) es vs)
    (hcall : (call v vs).Yields s w) : ((Expr.call k f es).eval call id).Yields s w := by
  rw [Expr.eval]
  exact hf.bind ((yields_evalExprs hes).bind hcall)

theorem yields_evalStmts_expr {k : Token} {e : Expr} {last : Option Value}
    (he : (e.eval call id).Yields s v) :
    (evalStmts call id last [.expr k e]).Yields s (some v) := by
  have hstmt : (Stmt.eval call id (.expr k e)).Yields s (some v) := by
    rw [Stmt.eval]
    exact he.bind (yields_pure _)
  rw [evalStmts]
  exact hstmt.bind (yields_pure _)

theorem Block.yields_expr {k k' : Token} {e : Expr} (he : (e.eval call id).Yields s v) :
    ((Block.mk k [.expr k' e]).eval call id).Yields s v := by
  rw [Block.eval_mk]
  exact (yields_evalStmts_expr he).bind (yields_pure v)

/-- A `let` binds its name in the scope of the statements after it. -/
theorem evalStmts_bind {k : Token} {x : String} {e : Expr} {last : Option Value} {ss : List Stmt}
    {s' : Scopes} (he : e.eval call id s = .ok v s') :
    evalStmts call id last (.bind k x e :: ss) s =
      evalStmts call id none ss (s'.define id x v) := by
  have hbind : (Stmt.bind k x e).eval call id s = .ok none (s'.define id x v) := by
    rw [Stmt.eval, bind_of_ok he]
    rfl
  rw [evalStmts, bind_of_ok hbind]

theorem yields_applyWithin_builtin {b : Builtin} {args : List Value} (h : b.apply args = .ok v) :
    (applyWithin depth (.builtin b) args).Yields s v := by
  rw [applyWithin_builtin]
  exact yields_ofExcept h

/-- A call comes to what the body comes to in the scope that is opened for it.  That the call leaves
all scopes as they were needs no proof about the body. -/
theorem yields_applyWithin_function {params : List String} {body : Block} {outer : Nat}
    {args : List Value} (houter : outer < s.size)
    (hbody : ∀ t inner, s.Entered outer (params.zip args) inner t →
      ∃ t', body.eval (applyWithin depth) inner t = .ok v t') :
    (applyWithin (depth + 1) (.function params body outer) args).Yields s v := by
  intro t hst
  obtain ⟨t₁, henter, hentered⟩ :=
    Scopes.Entered.enterCall (Nat.lt_of_lt_of_le houter hst.size_le) params args
  obtain ⟨t₂, hv⟩ := hbody t₁ t.size (hentered.of_kept hst houter)
  have hcall : applyWithin (depth + 1) (.function params body outer) args t = .ok v t₂ := by
    rw [applyWithin_function henter, catchReturn, hv]
  have hkept := callKeeps_applyWithin (depth + 1) (.function params body outer) args t
  unfold final at hkept
  rw [hcall] at hkept
  exact ⟨t₂, hcall, hkept⟩

end

end Monkey

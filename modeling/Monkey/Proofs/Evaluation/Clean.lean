import Monkey.Proofs.Evaluation.Statements
import Monkey.Proofs.Program.WellFormed
import Monkey.Proofs.Table

/-!
# Clean states

An ordinary value is one that a program can compute: it is no error and no wrapped return value, it
is made of ordinary values, a pair of a hash is stored under the key of its own key value, and a
function has a complete body and a scope that exists.  A state is clean if only ordinary values are
bound in it, every scope lies in one that exists, and going outward from a scope comes to an end.

Evaluation of complete trees keeps states clean and never meets an expression that was left out.
`Eval.Safe` says so of an evaluation, and there is one lemma for each way to put evaluations
together.
-/

namespace Monkey

/-! ## Ordinary values -/

mutual

/-- A value of a program, where `n` scopes exist. -/
def Value.Ordinary (n : Nat) : Value → Prop
  | .null | .int _ | .bool _ | .str _ | .builtin _ => True
  | .array es => AllOrdinary n es
  | .hash ps => PairsOrdinary n ps ∧ (Table.keys ps).Nodup
  | .function _ body scope => body.Complete ∧ scope < n
  | .error _ | .returned _ => False

def AllOrdinary (n : Nat) : List Value → Prop
  | [] => True
  | v :: vs => v.Ordinary n ∧ AllOrdinary n vs

/-- Each pair is stored under the key of its own key value. -/
def PairsOrdinary (n : Nat) : List (HashKey × (Value × Value)) → Prop
  | [] => True
  | (key, (k, v)) :: ps => k.hashKey? = some key ∧ v.Ordinary n ∧ PairsOrdinary n ps

end

theorem allOrdinary_iff {n : Nat} {vs : List Value} :
    AllOrdinary n vs ↔ ∀ v ∈ vs, v.Ordinary n := by
  induction vs with
  | nil => simp [AllOrdinary]
  | cons v vs ih => rw [AllOrdinary, ih, List.forall_mem_cons]

mutual

/-- A value stays ordinary when scopes are added. -/
theorem Value.Ordinary.mono {m n : Nat} (h : m ≤ n) :
    {v : Value} → v.Ordinary m → v.Ordinary n
  | .null, _ | .int _, _ | .bool _, _ | .str _, _ | .builtin _, _ => trivial
  | .array _, hv => AllOrdinary.mono h hv
  | .hash _, ⟨hps, hkeys⟩ => ⟨PairsOrdinary.mono h hps, hkeys⟩
  | .function _ _ _, ⟨hbody, hscope⟩ => ⟨hbody, Nat.lt_of_lt_of_le hscope h⟩
  | .error _, hv | .returned _, hv => hv.elim

theorem AllOrdinary.mono {m n : Nat} (h : m ≤ n) :
    {vs : List Value} → AllOrdinary m vs → AllOrdinary n vs
  | [], _ => trivial
  | _ :: _, ⟨hv, hvs⟩ => ⟨hv.mono h, hvs.mono h⟩

theorem PairsOrdinary.mono {m n : Nat} (h : m ≤ n) :
    {ps : List (HashKey × (Value × Value))} → PairsOrdinary m ps → PairsOrdinary n ps
  | [], _ => trivial
  | (_, (_, _)) :: _, ⟨hk, hv, hps⟩ => ⟨hk, hv.mono h, hps.mono h⟩

end

theorem PairsOrdinary.insert {n : Nat} {ps : List (HashKey × (Value × Value))} {key : HashKey}
    {k v : Value} (hps : PairsOrdinary n ps) (hk : k.hashKey? = some key) (hv : v.Ordinary n) :
    PairsOrdinary n (Table.insert ps key (k, v)) := by
  induction ps with
  | nil => exact ⟨hk, hv, trivial⟩
  | cons p ps ih =>
    obtain ⟨key', k', v'⟩ := p
    obtain ⟨hk', hv', hps⟩ := hps
    simp only [Table.insert]
    split
    · exact ⟨hk, hv, hps⟩
    · exact ⟨hk', hv', ih hps⟩

theorem PairsOrdinary.get? {n : Nat} {ps : List (HashKey × (Value × Value))} {key : HashKey}
    {k v : Value} (hps : PairsOrdinary n ps) (h : Table.get? ps key = some (k, v)) :
    v.Ordinary n := by
  induction ps with
  | nil => simp at h
  | cons p ps ih =>
    obtain ⟨key', k', v'⟩ := p
    obtain ⟨-, hv', hps⟩ := hps
    simp only [Table.get?] at h
    split at h
    · cases h
      exact hv'
    · exact ih hps h

/-! ## Operations

Operators, indexing and built-in functions make ordinary values from ordinary values. -/

section

variable {n : Nat}

theorem UnaryOp.ordinary_apply {op : UnaryOp} {v w : Value} (h : op.apply v = .ok w) :
    w.Ordinary n := by
  cases op with
  | not =>
    cases h
    trivial
  | neg =>
    cases v <;> simp only [apply, reduceCtorEq, Except.ok.injEq] at h
    subst h
    trivial
  | other s => cases h

theorem BinaryOp.ordinary_onInts {op : BinaryOp} {a b : Int64} {w : Value}
    (h : op.onInts a b = .ok w) : w.Ordinary n := by
  cases op with
  | div =>
    simp only [onInts] at h
    split at h
    · cases h
    · cases h
      trivial
  | other s => cases h
  | _ =>
    cases h
    trivial

theorem BinaryOp.ordinary_apply {op : BinaryOp} {l r w : Value} (h : op.apply l r = .ok w) :
    w.Ordinary n := by
  unfold apply at h
  split at h
  · exact ordinary_onInts h
  · unfold onBools at h
    split at h <;> cases h <;> trivial
  · unfold onStrings at h
    split at h <;> cases h
    trivial
  · split at h <;> cases h

theorem Value.ordinary_elementAt {es : List Value} (hes : AllOrdinary n es) (i : Int64) :
    (elementAt es i).Ordinary n := by
  unfold elementAt
  split
  · trivial
  · cases h : es[i.toInt.toNat]? with
    | none => trivial
    | some v => exact allOrdinary_iff.mp hes v (List.mem_of_getElem? h)

theorem Value.Ordinary.atIndex {v i w : Value} (hv : v.Ordinary n) (h : v.atIndex i = .ok w) :
    w.Ordinary n := by
  unfold Value.atIndex at h
  split at h
  · cases h
    exact Value.ordinary_elementAt hv _
  · rename_i ps
    split at h
    · cases h
    · rename_i key _
      cases h
      cases hget : Table.get? ps key with
      | none => trivial
      | some pair => exact hv.1.get? hget
  · cases h

theorem Builtin.ordinary_arrayArgument {b : Builtin} {args es : List Value}
    (hargs : AllOrdinary n args) (h : b.arrayArgument args = .ok es) : AllOrdinary n es := by
  unfold arrayArgument at h
  split at h <;> cases h
  exact hargs.1

theorem Builtin.ordinary_apply {b : Builtin} {args : List Value} {w : Value}
    (hargs : AllOrdinary n args) (h : b.apply args = .ok w) : w.Ordinary n := by
  -- what the functions of one array do, once they have it
  have harray {k : List Value → Except Fault Value}
      (hk : ∀ es, AllOrdinary n es → ∀ w, k es = .ok w → w.Ordinary n)
      (h : (b.arrayArgument args >>= k) = .ok w) : w.Ordinary n := by
    cases hes : b.arrayArgument args with
    | error f => rw [hes] at h; cases h
    | ok es =>
      rw [hes] at h
      exact hk es (ordinary_arrayArgument hargs hes) w h
  cases b with
  | len =>
    simp only [apply, lenOf] at h
    split at h <;> cases h <;> trivial
  | push =>
    simp only [apply, pushOf] at h
    split at h <;> cases h
    rename_i es v
    refine allOrdinary_iff.mpr (List.forall_mem_append.mpr ⟨allOrdinary_iff.mp hargs.1, ?_⟩)
    exact List.forall_mem_singleton.mpr hargs.2.1
  | first =>
    refine harray (fun es hes w hw => ?_) h
    cases hw
    cases es with
    | nil => trivial
    | cons v es => exact hes.1
  | last =>
    refine harray (fun es hes w hw => ?_) h
    cases hw
    cases hlast : es.getLast? with
    | none => trivial
    | some v => exact allOrdinary_iff.mp hes v (List.mem_of_getLast? hlast)
  | rest =>
    refine harray (fun es hes w hw => ?_) h
    cases es with
    | nil => cases hw; trivial
    | cons v es => cases hw; exact hes.2

end

/-! ## Clean states -/

/-- Only ordinary values are bound, every scope lies in one that exists, and no scope lies in
itself, however far outward one goes. -/
structure Scopes.Clean (s : Scopes) : Prop where
  ordinary : ∀ (id : Nat) (scope : Scope), s.row[id]? = some scope →
    ∀ (x : String) (v : Value), (x, v) ∈ scope.bindings → v.Ordinary s.size
  outer_lt : ∀ (id o : Nat), s.outer? id = some o → o < s.size
  acyclic : WellFounded fun o id => s.outer? id = some o

namespace Scopes

theorem outer?_define (s : Scopes) (id : Nat) (x : String) (v : Value) (i : Nat) :
    (s.define id x v).outer? i = s.outer? i := by
  unfold outer? Scopes.define
  rw [Array.getElem?_modify]
  split
  · cases s.row[i]? <;> rfl
  · rfl

theorem outer?_add (s : Scopes) (outer : Option Nat) (i : Nat) :
    (s.add outer).outer? i = if i = s.size then outer else s.outer? i := by
  unfold outer? Scopes.add size
  rw [Array.getElem?_push]
  by_cases hi : i = s.row.size
  · rw [if_pos hi, if_pos hi]
    rfl
  · rw [if_neg hi, if_neg hi]

theorem size_define (s : Scopes) (id : Nat) (x : String) (v : Value) :
    (s.define id x v).size = s.size := Array.size_modify

theorem size_add (s : Scopes) (outer : Option Nat) : (s.add outer).size = s.size + 1 :=
  Array.size_push _

theorem Clean.define {s : Scopes} (hs : s.Clean) (id : Nat) (x : String) {v : Value}
    (hv : v.Ordinary s.size) : (s.define id x v).Clean := by
  -- each scope is as it was, up to one binding of `v`
  have hrow (i : Nat) (scope : Scope) (h : (s.define id x v).row[i]? = some scope) :
      ∃ old, s.row[i]? = some old ∧
        ∀ y w, (y, w) ∈ scope.bindings → (y, w) ∈ old.bindings ∨ w = v := by
    simp only [Scopes.define, Array.getElem?_modify] at h
    split at h
    · obtain ⟨old, hold, rfl⟩ := Option.map_eq_some_iff.mp h
      exact ⟨old, hold, fun y w hw => Table.mem_insert hw⟩
    · exact ⟨scope, h, fun y w hw => .inl hw⟩
  constructor
  · intro i scope h y w hw
    rw [size_define]
    obtain ⟨old, hold, hbindings⟩ := hrow i scope h
    rcases hbindings y w hw with hw | rfl
    · exact hs.ordinary i old hold y w hw
    · exact hv
  · intro i o ho
    rw [outer?_define] at ho
    rw [size_define]
    exact hs.outer_lt i o ho
  · simp only [outer?_define]
    exact hs.acyclic

/-- Binding names one after the other keeps a state clean. -/
theorem Clean.foldl_define {s : Scopes} (hs : s.Clean) (id : Nat) {bs : List (String × Value)}
    (hbs : ∀ b ∈ bs, b.2.Ordinary s.size) :
    (bs.foldl (fun s (x, v) => s.define id x v) s).Clean ∧
      (bs.foldl (fun s (x, v) => s.define id x v) s).size = s.size := by
  induction bs generalizing s with
  | nil => exact ⟨hs, rfl⟩
  | cons b bs ih =>
    obtain ⟨hb, hbs⟩ := List.forall_mem_cons.mp hbs
    have hsize := size_define s id b.1 b.2
    rw [← hsize] at hbs ⊢
    exact ih (hs.define id b.1 hb) hbs

/-- No scope that was there lies in a new one, so from none of them can one come back to it. -/
theorem Clean.acyclic_add {s : Scopes} (hs : s.Clean) {outer : Option Nat}
    (houter : ∀ o ∈ outer, o < s.size) :
    WellFounded fun o id => (s.add outer).outer? id = some o := by
  have hold (i : Nat) (hi : i ≠ s.size) : Acc (fun o id => (s.add outer).outer? id = some o) i := by
    induction hs.acyclic.apply i with
    | intro i _ ih =>
      constructor
      intro o ho
      rw [outer?_add, if_neg hi] at ho
      exact ih o ho (Nat.ne_of_lt (hs.outer_lt i o ho))
  constructor
  intro i
  by_cases hi : i = s.size
  · constructor
    intro o ho
    rw [outer?_add, if_pos hi] at ho
    exact hold o (Nat.ne_of_lt (houter o ho))
  · exact hold i hi

theorem Clean.add {s : Scopes} (hs : s.Clean) {outer : Option Nat}
    (houter : ∀ o ∈ outer, o < s.size) : (s.add outer).Clean := by
  -- the new scope stands behind the others and binds nothing
  have hrow (i : Nat) (scope : Scope) (h : (s.add outer).row[i]? = some scope) :
      s.row[i]? = some scope ∨ i = s.size ∧ scope = ⟨[], outer⟩ := by
    simp only [Scopes.add, Array.getElem?_push] at h
    split at h
    · rename_i hi
      cases h
      exact .inr ⟨hi, rfl⟩
    · exact .inl h
  constructor
  · intro i scope h x v hv
    rw [size_add]
    rcases hrow i scope h with h | ⟨-, rfl⟩
    · exact (hs.ordinary i scope h x v hv).mono (Nat.le_succ _)
    · cases hv
  · intro i o ho
    rw [size_add]
    rw [outer?_add] at ho
    split at ho
    · exact Nat.lt_succ_of_lt (houter o ho)
    · exact Nat.lt_succ_of_lt (hs.outer_lt i o ho)
  · exact hs.acyclic_add houter

theorem clean_empty : empty.Clean where
  ordinary _ _ h := nomatch h
  outer_lt _ _ h := nomatch h
  acyclic := ⟨fun _ => ⟨_, fun _ h => nomatch h⟩⟩

theorem clean_fresh : fresh.Clean := clean_empty.add fun _ ho => nomatch ho

/-- What a name stands for is ordinary. -/
theorem Clean.get? {s : Scopes} (hs : s.Clean) {id : Nat} {x : String} {v : Value}
    (h : s.get? id x = some v) : v.Ordinary s.size := by
  rw [Scopes.get?] at h
  split at h
  · cases h
  · rename_i scope hscope
    split at h
    · rename_i w hw
      cases h
      exact hs.ordinary id scope hscope x v (Table.mem_of_get? hw)
    · split at h
      · cases h
      · split at h
        -- the outer scope has a smaller number, on which the recursion is
        · exact Clean.get? hs h
        · cases h
termination_by id

end Scopes

/-! ## Safe evaluations -/

/-- A way to stop that is no defect of the program: what a `return` carries is ordinary, and no
expression was left out. -/
def Halt.Ordinary (n : Nat) : Halt → Prop
  | .fault _ | .exhausted => True
  | .returning v => v.Ordinary n
  | .missing => False

namespace Eval

variable {α β : Type}

/-- From every clean state with at least `n` scopes, the evaluation leaves a clean state with no
fewer scopes.  If it comes to a value, `Q` holds of it and the number of scopes. -/
def Safe (n : Nat) (Q : α → Nat → Prop) (x : Eval α) : Prop :=
  ∀ s : Scopes, s.Clean → n ≤ s.size →
    match x s with
    | .ok a s' => s'.Clean ∧ s.size ≤ s'.size ∧ Q a s'.size
    | .error h s' => s'.Clean ∧ s.size ≤ s'.size ∧ h.Ordinary s'.size

variable {n : Nat} {P : β → Nat → Prop} {Q : α → Nat → Prop}

theorem safe_pure {a : α} (h : ∀ m, n ≤ m → Q a m) : Safe n Q (pure a) :=
  fun s hs hn => ⟨hs, Nat.le_refl _, h s.size hn⟩

theorem safe_throw {e : Halt} (h : ∀ m, n ≤ m → e.Ordinary m) : Safe n Q (throw e) :=
  fun s hs hn => ⟨hs, Nat.le_refl _, h s.size hn⟩

theorem Safe.bind {x : Eval α} {f : α → Eval β} (hx : x.Safe n Q)
    (hf : ∀ a m, n ≤ m → Q a m → (f a).Safe m P) : (x >>= f).Safe n P := by
  intro s hs hn
  have hx := hx s hs hn
  show match EStateM.bind x f s with
    | .ok a s' => _
    | .error h s' => _
  rw [EStateM.bind]
  cases hxs : x s with
  | error e s' =>
    rw [hxs] at hx
    exact hx
  | ok a s' =>
    rw [hxs] at hx
    obtain ⟨hs', hle, ha⟩ := hx
    -- `f` starts where `x` ended, so it may count on all scopes that exist there
    have hfa := hf a s'.size (Nat.le_trans hn hle) ha s' hs' (Nat.le_refl _)
    dsimp only
    cases hfs : f a s' with
    | error e s'' =>
      rw [hfs] at hfa
      exact ⟨hfa.1, Nat.le_trans hle hfa.2.1, hfa.2.2⟩
    | ok b s'' =>
      rw [hfs] at hfa
      exact ⟨hfa.1, Nat.le_trans hle hfa.2.1, hfa.2.2⟩

theorem safe_ofExcept {r : Except Fault α} (h : ∀ a, r = .ok a → ∀ m, n ≤ m → Q a m) :
    Safe n Q (ofExcept r) := by
  cases r with
  | ok a => exact safe_pure (h a rfl)
  | error f => exact safe_throw fun _ _ => trivial

/-- A `return` that ends here hands over an ordinary value. -/
theorem Safe.catchReturn {x : Eval α} {accept : Value → α} (hx : x.Safe n Q)
    (h : ∀ v m, v.Ordinary m → Q (accept v) m) : (x.catchReturn accept).Safe n Q := by
  intro s hs hn
  have hx := hx s hs hn
  unfold Eval.catchReturn
  cases hxs : x s with
  | ok a s' =>
    rw [hxs] at hx
    exact hx
  | error e s' =>
    rw [hxs] at hx
    cases e with
    | returning v => exact ⟨hx.1, hx.2.1, h v s'.size hx.2.2⟩
    | fault f => exact hx
    | missing => exact hx
    | exhausted => exact hx

theorem safe_readName (scope : Nat) (x : String) :
    (readName scope x).Safe n fun v m => v.Ordinary m := by
  intro s hs hn
  simp only [readName, bind, EStateM.bind, get, getThe, MonadStateOf.get, EStateM.get]
  cases hget : s.get? scope x with
  | some v => exact ⟨hs, Nat.le_refl _, hs.get? hget⟩
  | none =>
    cases Builtin.ofName? x with
    | some b => exact ⟨hs, Nat.le_refl _, trivial⟩
    | none => exact ⟨hs, Nat.le_refl _, trivial⟩

theorem safe_define {scope : Nat} {x : String} {v : Value} (hv : v.Ordinary n) :
    Safe n (fun _ _ => True) (modify fun s => s.define scope x v) := by
  intro s hs hn
  refine ⟨hs.define scope x (hv.mono hn), ?_, trivial⟩
  rw [Scopes.size_define]

/-- The scope of a call lies in the scope of the function and binds ordinary values. -/
theorem safe_enterCall {outer : Nat} {params : List String} {args : List Value}
    (houter : outer < n) (hargs : AllOrdinary n args) :
    (enterCall outer params args).Safe n fun scope m => scope < m := by
  intro s hs hn
  have hadd : (s.add (some outer)).Clean := by
    refine hs.add fun o ho => ?_
    cases ho
    exact Nat.lt_of_lt_of_le houter hn
  have hle : n ≤ (s.add (some outer)).size := by
    rw [Scopes.size_add]
    exact Nat.le_succ_of_le hn
  have hvalues : ∀ b ∈ params.zip args, b.2.Ordinary (s.add (some outer)).size := by
    intro b hb
    have hv := allOrdinary_iff.mp hargs b.2 (List.of_mem_zip hb).2
    exact hv.mono hle
  obtain ⟨hclean, hsize⟩ := hadd.foldl_define s.size hvalues
  rw [Scopes.size_add] at hsize
  refine ⟨hclean, ?_, ?_⟩
  · exact hsize ▸ Nat.le_succ _
  · exact hsize ▸ Nat.lt_succ_self _

end Eval

/-! ## Evaluation of complete trees -/

section

/-- Applying ordinary values to ordinary values is safe. -/
def CallSafe (call : Value → List Value → Eval Value) : Prop :=
  ∀ n f args, Value.Ordinary n f → AllOrdinary n args →
    (call f args).Safe n fun v m => v.Ordinary m

variable {call : Value → List Value → Eval Value}

open Eval

/-- A `return` with a value evaluates it. -/
theorem Stmt.eval_ret {t : Token} {scope : Nat} {e : Expr} (he : e ≠ .absent) :
    (Stmt.ret t e).eval call scope = (do
      let v ← e.eval call scope
      throw (.returning v)) := by
  cases e with
  | absent => exact absurd rfl he
  | _ => rfl

mutual

theorem Expr.eval_safe {scope n : Nat} (hcall : CallSafe call) (hscope : scope < n) :
    {e : Expr} → e.Complete → (e.eval call scope).Safe n fun v m => v.Ordinary m
  | .absent, h => h.elim
  | .ident _ x, _ => safe_readName scope x
  | .int _ _, _ | .str _ _, _ | .bool _ _, _ => safe_pure fun _ _ => trivial
  | .unary _ op e, he => by
    rw [Expr.eval]
    refine (Expr.eval_safe hcall hscope (e := e) he).bind fun v m _ _ => ?_
    exact safe_ofExcept fun w hw _ _ => UnaryOp.ordinary_apply hw
  | .binary _ l op r, ⟨hl, hr⟩ => by
    rw [Expr.eval]
    refine (Expr.eval_safe hcall hscope hl).bind fun a m hm _ => ?_
    refine (Expr.eval_safe hcall (Nat.lt_of_lt_of_le hscope hm) hr).bind fun b k _ _ => ?_
    exact safe_ofExcept fun w hw _ _ => BinaryOp.ordinary_apply hw
  | .cond _ c yes none, ⟨hc, hyes⟩ => by
    rw [Expr.eval]
    refine (Expr.eval_safe hcall hscope hc).bind fun v m hm _ => ?_
    split
    · exact Block.eval_safe hcall (Nat.lt_of_lt_of_le hscope hm) hyes
    · exact safe_pure fun _ _ => trivial
  | .cond _ c yes (some no), ⟨hc, hyes, hno⟩ => by
    rw [Expr.eval]
    refine (Expr.eval_safe hcall hscope hc).bind fun v m hm _ => ?_
    split
    · exact Block.eval_safe hcall (Nat.lt_of_lt_of_le hscope hm) hyes
    · exact Block.eval_safe hcall (Nat.lt_of_lt_of_le hscope hm) hno
  | .func _ params body, hbody => by
    rw [Expr.eval]
    -- the scope that the function keeps is the one we are in
    exact safe_pure fun m hm => ⟨hbody, Nat.lt_of_lt_of_le hscope hm⟩
  | .call _ f args, ⟨hf, hargs⟩ => by
    rw [Expr.eval]
    refine (Expr.eval_safe hcall hscope hf).bind fun f m hm hf => ?_
    refine (evalExprs_safe hcall (Nat.lt_of_lt_of_le hscope hm) hargs).bind fun vs k hk hvs => ?_
    -- `f` was ordinary before the arguments made new scopes
    exact hcall k f vs (hf.mono hk) hvs
  | .array _ es, hes => by
    rw [Expr.eval]
    refine (evalExprs_safe hcall hscope hes).bind fun vs m _ hvs => ?_
    exact safe_pure fun k hk => AllOrdinary.mono hk hvs
  | .index _ l i, ⟨hl, hi⟩ => by
    rw [Expr.eval]
    refine (Expr.eval_safe hcall hscope hl).bind fun v m hm hv => ?_
    refine (Expr.eval_safe hcall (Nat.lt_of_lt_of_le hscope hm) hi).bind fun i k hk _ => ?_
    exact safe_ofExcept fun w hw j hj => ((hv.mono hk).atIndex hw).mono hj
  | .hash _ ps, hps => by
    rw [Expr.eval]
    have hnil : PairsOrdinary n [] := trivial
    refine (evalPairs_safe hcall hscope hnil List.nodup_nil hps).bind fun ps m _ hps => ?_
    exact safe_pure fun k hk => ⟨hps.1.mono hk, hps.2⟩

theorem evalExprs_safe {scope n : Nat} (hcall : CallSafe call) (hscope : scope < n) :
    {es : List Expr} → ExprsComplete es →
      (evalExprs call scope es).Safe n fun vs m => AllOrdinary m vs
  | [], _ => safe_pure fun _ _ => trivial
  | e :: es, ⟨he, hes⟩ => by
    rw [evalExprs]
    refine (Expr.eval_safe hcall hscope he).bind fun v m hm hv => ?_
    refine (evalExprs_safe hcall (Nat.lt_of_lt_of_le hscope hm) hes).bind fun vs k hk hvs => ?_
    exact safe_pure fun j hj => ⟨hv.mono (Nat.le_trans hk hj), hvs.mono hj⟩

theorem evalPairs_safe {scope n : Nat} {table : Table HashKey (Value × Value)}
    (hcall : CallSafe call) (hscope : scope < n) (htable : PairsOrdinary n table)
    (hkeys : table.keys.Nodup) : {ps : List (Expr × Expr)} →
    PairsComplete ps →
      (evalPairs call scope table ps).Safe n fun t m => PairsOrdinary m t ∧ (Table.keys t).Nodup
  | [], _ => safe_pure fun _ hm => ⟨htable.mono hm, hkeys⟩
  | (k, v) :: ps, ⟨hk, hv, hps⟩ => by
    rw [evalPairs]
    refine (Expr.eval_safe hcall hscope hk).bind fun key m hm _ => ?_
    split
    · exact safe_throw fun _ _ => trivial
    · rename_i digest hdigest
      have hscope := Nat.lt_of_lt_of_le hscope hm
      refine (Expr.eval_safe hcall hscope hv).bind fun value j hj hvalue => ?_
      exact evalPairs_safe hcall (Nat.lt_of_lt_of_le hscope hj)
        ((htable.mono (Nat.le_trans hm hj)).insert hdigest hvalue)
        (Table.nodup_keys_insert hkeys digest (key, value)) hps

theorem Stmt.eval_safe {scope n : Nat} (hcall : CallSafe call) (hscope : scope < n) :
    {s : Stmt} → s.Complete → (s.eval call scope).Safe n fun v m => ∀ w ∈ v, w.Ordinary m
  | .bind _ x e, he => by
    rw [Stmt.eval]
    refine (Expr.eval_safe hcall hscope he).bind fun v m _ hv => ?_
    refine (safe_define hv).bind fun _ k _ _ => ?_
    exact safe_pure fun _ _ w hw => nomatch hw
  | .ret _ e, he => by
    rcases he with rfl | he
    · exact safe_throw fun _ _ => trivial
    · have hne : e ≠ .absent := by
        rintro rfl
        exact he
      rw [Stmt.eval_ret hne]
      refine (Expr.eval_safe hcall hscope he).bind fun v m _ hv => ?_
      exact safe_throw fun k hk => hv.mono hk
  | .expr _ e, he => by
    rw [Stmt.eval]
    refine (Expr.eval_safe hcall hscope he).bind fun v m _ hv => ?_
    exact safe_pure fun k hk w hw => (Option.mem_some_iff.mp hw) ▸ hv.mono hk
  | .block b, hb => by
    rw [Stmt.eval]
    refine (Block.eval_safe hcall hscope hb).bind fun v m _ hv => ?_
    exact safe_pure fun k hk w hw => (Option.mem_some_iff.mp hw) ▸ hv.mono hk

theorem evalStmts_safe {scope n : Nat} {last : Option Value} (hcall : CallSafe call)
    (hscope : scope < n) (hlast : ∀ w ∈ last, w.Ordinary n) : {ss : List Stmt} → StmtsComplete ss →
      (evalStmts call scope last ss).Safe n fun v m => ∀ w ∈ v, w.Ordinary m
  | [], _ => safe_pure fun _ hm w hw => (hlast w hw).mono hm
  | s :: ss, ⟨hs, hss⟩ => by
    rw [evalStmts]
    refine (Stmt.eval_safe hcall hscope hs).bind fun v m hm hv => ?_
    exact evalStmts_safe hcall (Nat.lt_of_lt_of_le hscope hm) hv hss

theorem Block.eval_safe {scope n : Nat} (hcall : CallSafe call) (hscope : scope < n) :
    {b : Block} → b.Complete → (b.eval call scope).Safe n fun v m => v.Ordinary m
  | .mk _ ss, hss => by
    rw [Block.eval_mk]
    have hnone : ∀ w ∈ (none : Option Value), w.Ordinary n := fun w hw => nomatch hw
    refine (evalStmts_safe hcall hscope hnone hss).bind fun v m _ hv => ?_
    refine safe_pure fun k hk => ?_
    cases v with
    | none => trivial
    | some v => exact (hv v rfl).mono hk

end

/-- Calls are safe, however deep they may nest. -/
theorem callSafe_applyWithin (depth : Nat) : CallSafe (applyWithin depth) := by
  induction depth with
  | zero =>
    intro n f args hf hargs
    cases f with
    | builtin b => exact safe_ofExcept fun w hw m hm => (Builtin.ordinary_apply hargs hw).mono hm
    | _ => exact safe_throw fun _ _ => trivial
  | succ depth ih =>
    intro n f args hf hargs
    cases f with
    | builtin b => exact safe_ofExcept fun w hw m hm => (Builtin.ordinary_apply hargs hw).mono hm
    | function params body outer =>
      obtain ⟨hbody, houter⟩ := hf
      -- the body is complete because the function is ordinary, and calls in it nest less deep
      refine (safe_enterCall houter hargs).bind fun scope m _ hscope => ?_
      exact (Block.eval_safe ih hscope hbody).catchReturn fun v k hv => hv
    | _ => exact safe_throw fun _ _ => trivial

/-- Evaluation of a complete program in a scope that exists keeps the state clean, and its value is
ordinary if it has one. -/
theorem Program.eval_safe {depth scope n : Nat} {p : Program} (hscope : scope < n)
    (hp : p.Complete) : (p.eval depth scope).Safe n fun v m => ∀ w ∈ v, w.Ordinary m := by
  have hnone : ∀ w ∈ (none : Option Value), w.Ordinary n := fun w hw => nomatch hw
  rw [Program.eval_eq]
  refine (evalStmts_safe (callSafe_applyWithin depth) hscope hnone hp).catchReturn ?_
  intro v m hv w hw
  exact Option.mem_some_iff.mp hw ▸ hv

end

end Monkey

import Mathlib
import Monkey.Proofs.Evaluation.Clean
import Monkey.Proofs.Evaluation.Frame

/-!
# Evaluation in two states that look alike

Two states may differ in the numbers of their scopes and in what some names are bound to, and still
look alike to a program: scopes correspond to scopes, and corresponding scopes bind every name that
the program reads to values that are the same up to the numbers of scopes in functions.

A program that is evaluated in both of them comes to the same end, and leaves two states that look
alike again.  Scopes that are opened on the way correspond to each other in the order in which they
are opened.
-/

namespace Monkey

/-! ## 1. The names that are read -/

mutual

/-- The names of the identifiers of an expression, those in the bodies of functions included. -/
def Expr.names : Expr → List String
  | .absent | .int _ _ | .str _ _ | .bool _ _ => []
  | .ident _ x => [x]
  | .unary _ _ e => e.names
  | .binary _ l _ r => l.names ++ r.names
  | .cond _ c yes none => c.names ++ yes.names
  | .cond _ c yes (some no) => c.names ++ (yes.names ++ no.names)
  | .func _ _ body => body.names
  | .call _ f args => f.names ++ exprsNames args
  | .array _ es => exprsNames es
  | .index _ l i => l.names ++ i.names
  | .hash _ ps => pairsNames ps

def exprsNames : List Expr → List String
  | [] => []
  | e :: es => e.names ++ exprsNames es

def pairsNames : List (Expr × Expr) → List String
  | [] => []
  | (k, v) :: ps => k.names ++ (v.names ++ pairsNames ps)

def Stmt.names : Stmt → List String
  | .bind _ _ e => e.names
  | .ret _ e => e.names
  | .expr _ e => e.names
  | .block b => b.names

def stmtsNames : List Stmt → List String
  | [] => []
  | s :: ss => s.names ++ stmtsNames ss

def Block.names : Block → List String
  | .mk _ ss => stmtsNames ss

end

/-! ## 2. Values -/

/-- A correspondence between the scopes of two states, which are in the same order in both. -/
structure Pairing where
  rel : Nat → Nat → Prop
  lt_iff : ∀ {i j k l : Nat}, rel i j → rel k l → (i < k ↔ j < l)

theorem Pairing.eq_iff (ρ : Pairing) {i j k l : Nat} (hij : ρ.rel i j) (hkl : ρ.rel k l) :
    i = k ↔ j = l := by
  have hlt := ρ.lt_iff hij hkl
  have hgt := ρ.lt_iff hkl hij
  omega

mutual

/-- The values are the same, except that functions may lie in scopes that only correspond to each
other.  No function reads a name of `xs`. -/
inductive Value.Alike (ρ : Pairing) (xs : List String) : Value → Value → Prop where
  | null : Value.Alike ρ xs .null .null
  | int (n : Int64) : Value.Alike ρ xs (.int n) (.int n)
  | bool (b : Bool) : Value.Alike ρ xs (.bool b) (.bool b)
  | str (s : String) : Value.Alike ρ xs (.str s) (.str s)
  | builtin (b : Builtin) : Value.Alike ρ xs (.builtin b) (.builtin b)
  | error (m : String) : Value.Alike ρ xs (.error m) (.error m)
  | array {es fs : List Value} : AllAlike ρ xs es fs → Value.Alike ρ xs (.array es) (.array fs)
  | hash {ps qs : List (HashKey × (Value × Value))} :
      PairsAlike ρ xs ps qs → Value.Alike ρ xs (.hash ps) (.hash qs)
  | function {params : List String} {body : Block} {i j : Nat} :
      body.names.Disjoint xs → ρ.rel i j →
      Value.Alike ρ xs (.function params body i) (.function params body j)
  | returned {v w : Value} : Value.Alike ρ xs v w → Value.Alike ρ xs (.returned v) (.returned w)

inductive AllAlike (ρ : Pairing) (xs : List String) : List Value → List Value → Prop where
  | nil : AllAlike ρ xs [] []
  | cons {v w : Value} {vs ws : List Value} :
      Value.Alike ρ xs v w → AllAlike ρ xs vs ws → AllAlike ρ xs (v :: vs) (w :: ws)

inductive PairsAlike (ρ : Pairing) (xs : List String) :
    List (HashKey × (Value × Value)) → List (HashKey × (Value × Value)) → Prop where
  | nil : PairsAlike ρ xs [] []
  | cons {key : HashKey} {k l v w : Value} {ps qs : List (HashKey × (Value × Value))} :
      Value.Alike ρ xs k l → Value.Alike ρ xs v w → PairsAlike ρ xs ps qs →
      PairsAlike ρ xs ((key, (k, v)) :: ps) ((key, (l, w)) :: qs)

end

section

variable {ρ : Pairing} {xs : List String}

namespace Value.Alike

variable {v w : Value}

theorem kind_eq (h : v.Alike ρ xs w) : v.kind = w.kind := by cases h <;> rfl

theorem truthy_eq (h : v.Alike ρ xs w) : v.truthy = w.truthy := by cases h <;> rfl

theorem hashKey?_eq (h : v.Alike ρ xs w) : v.hashKey? = w.hashKey? := by cases h <;> rfl

end Value.Alike

mutual

/-- Values that look alike are shown by the same text. -/
theorem Value.Alike.inspect_eq {v w : Value} (h : v.Alike ρ xs w) : v.inspect = w.inspect := by
  cases h with
  | array hes => rw [Value.inspect, Value.inspect, hes.inspectAll_eq]
  | hash hps => rw [Value.inspect, Value.inspect, hps.inspectPairs_eq]
  | function _ _ => rw [Value.inspect, Value.inspect]
  | returned hv => rw [Value.inspect, Value.inspect, hv.inspect_eq]
  | _ => rfl

theorem AllAlike.inspectAll_eq {vs ws : List Value} (h : AllAlike ρ xs vs ws) :
    Value.inspectAll vs = Value.inspectAll ws := by
  cases h with
  | nil => rfl
  | cons hv hvs => rw [Value.inspectAll, Value.inspectAll, hv.inspect_eq, hvs.inspectAll_eq]

theorem PairsAlike.inspectPairs_eq {ps qs : List (HashKey × (Value × Value))}
    (h : PairsAlike ρ xs ps qs) : Value.inspectPairs ps = Value.inspectPairs qs := by
  cases h with
  | nil => rfl
  | cons hk hv hps =>
    rw [Value.inspectPairs, Value.inspectPairs, hk.inspect_eq, hv.inspect_eq,
      hps.inspectPairs_eq]

end

theorem AllAlike.length_eq {vs ws : List Value} (h : AllAlike ρ xs vs ws) :
    vs.length = ws.length := by
  induction vs generalizing ws with
  | nil => cases h; rfl
  | cons v vs ih =>
    cases h with
    | cons _ hvs => rw [List.length_cons, List.length_cons, ih hvs]

theorem AllAlike.getElem? {vs ws : List Value} (h : AllAlike ρ xs vs ws) (k : Nat) :
    Option.Rel (Value.Alike ρ xs) vs[k]? ws[k]? := by
  induction vs generalizing ws k with
  | nil => cases h; exact .none
  | cons v vs ih =>
    cases h with
    | cons hv hvs =>
      cases k with
      | zero => exact .some hv
      | succ k => exact ih hvs k

theorem AllAlike.append {us vs ws zs : List Value} (h : AllAlike ρ xs us vs)
    (h' : AllAlike ρ xs ws zs) : AllAlike ρ xs (us ++ ws) (vs ++ zs) := by
  induction us generalizing vs with
  | nil => cases h; exact h'
  | cons u us ih =>
    cases h with
    | cons hu hus => exact .cons hu (ih hus)

theorem PairsAlike.get? {ps qs : List (HashKey × (Value × Value))} (h : PairsAlike ρ xs ps qs)
    (key : HashKey) :
    Option.Rel (fun p q => Value.Alike ρ xs p.2 q.2) (Table.get? ps key) (Table.get? qs key) := by
  induction ps generalizing qs with
  | nil => cases h; exact .none
  | cons p ps ih =>
    cases h with
    | cons _ hv hps =>
      simp only [Table.get?]
      split
      · exact .some hv
      · exact ih hps

theorem PairsAlike.insert {ps qs : List (HashKey × (Value × Value))} {k l v w : Value}
    (h : PairsAlike ρ xs ps qs) (key : HashKey) (hk : k.Alike ρ xs l) (hv : v.Alike ρ xs w) :
    PairsAlike ρ xs (Table.insert ps key (k, v)) (Table.insert qs key (l, w)) := by
  induction ps generalizing qs with
  | nil => cases h; exact .cons hk hv .nil
  | cons p ps ih =>
    cases h with
    | cons hk' hv' hps =>
      simp only [Table.insert]
      split
      · exact .cons hk hv hps
      · exact .cons hk' hv' (ih hps)

/-! ## 3. Operations -/

/-- Both are the same error, or come to values that are related. -/
inductive AttemptsAlike {α β : Type} (R : α → β → Prop) :
    Except Fault α → Except Fault β → Prop where
  | ok {a : α} {b : β} : R a b → AttemptsAlike R (.ok a) (.ok b)
  | error (f : Fault) : AttemptsAlike R (.error f) (.error f)

theorem AttemptsAlike.bind {α β γ δ : Type} {R : α → β → Prop} {Q : γ → δ → Prop}
    {x : Except Fault α} {y : Except Fault β} {f : α → Except Fault γ} {g : β → Except Fault δ}
    (h : AttemptsAlike R x y) (hfg : ∀ a b, R a b → AttemptsAlike Q (f a) (g b)) :
    AttemptsAlike Q (x >>= f) (y >>= g) := by
  cases h with
  | ok hab => exact hfg _ _ hab
  | error e => exact .error e

theorem UnaryOp.apply_alike (op : UnaryOp) {v w : Value} (h : v.Alike ρ xs w) :
    AttemptsAlike (Value.Alike ρ xs) (op.apply v) (op.apply w) := by
  cases op with
  | not =>
    simp only [apply, h.truthy_eq]
    exact .ok (.bool _)
  | neg =>
    cases h with
    | int n => exact .ok (.int _)
    | _ => exact .error _
  | other s =>
    simp only [apply, h.kind_eq]
    exact .error _

namespace BinaryOp

theorem onInts_alike (op : BinaryOp) (a b : Int64) :
    AttemptsAlike (Value.Alike ρ xs) (op.onInts a b) (op.onInts a b) := by
  cases op with
  | add | sub | mul => exact .ok (.int _)
  | lt | gt | eq | ne => exact .ok (.bool _)
  | div =>
    simp only [onInts]
    split
    · exact .error _
    · exact .ok (.int _)
  | other s => exact .error _

theorem onBools_alike (op : BinaryOp) (a b : Bool) :
    AttemptsAlike (Value.Alike ρ xs) (op.onBools a b) (op.onBools a b) := by
  cases op with
  | eq | ne => exact .ok (.bool _)
  | _ => exact .error _

theorem onStrings_alike (op : BinaryOp) (a b : String) :
    AttemptsAlike (Value.Alike ρ xs) (op.onStrings a b) (op.onStrings a b) := by
  cases op with
  | add => exact .ok (.str _)
  | _ => exact .error _

/-- Operands that do not fit are told by their kinds alone. -/
theorem misfit_alike (op : BinaryOp) (k : Value.Kind) {v w : Value} (h : v.Alike ρ xs w) :
    AttemptsAlike (Value.Alike ρ xs)
      (if k = v.kind then .error (.unknownBinary k op v.kind)
        else .error (.typeMismatch k op v.kind))
      (if k = w.kind then .error (.unknownBinary k op w.kind)
        else .error (.typeMismatch k op w.kind)) := by
  rw [h.kind_eq]
  split
  · exact .error _
  · exact .error _

theorem apply_alike (op : BinaryOp) {l l' r r' : Value} (hl : l.Alike ρ xs l')
    (hr : r.Alike ρ xs r') : AttemptsAlike (Value.Alike ρ xs) (op.apply l r) (op.apply l' r') := by
  have hmisfit (k : Value.Kind) := op.misfit_alike k hr
  cases hl with
  | int a =>
    cases hr with
    | int b => exact op.onInts_alike a b
    | _ => exact hmisfit .integer
  | bool a =>
    cases hr with
    | bool b => exact op.onBools_alike a b
    | _ => exact hmisfit .boolean
  | str a =>
    cases hr with
    | str b => exact op.onStrings_alike a b
    | _ => exact hmisfit .string
  | null => exact hmisfit .null
  | builtin b => exact hmisfit .builtin
  | error m => exact hmisfit .error
  | array hes => exact hmisfit .array
  | hash hps => exact hmisfit .hash
  | function hbody hij => exact hmisfit .function
  | returned hv => exact hmisfit .returnValue

end BinaryOp

/-- A value that may be missing is `null` in its place. -/
theorem alike_getD_null {v w : Option Value} (h : Option.Rel (Value.Alike ρ xs) v w) :
    (v.getD .null).Alike ρ xs (w.getD .null) := by
  cases h with
  | none => exact .null
  | some hv => exact hv

namespace Value

theorem elementAt_alike {es fs : List Value} (h : AllAlike ρ xs es fs) (i : Int64) :
    (elementAt es i).Alike ρ xs (elementAt fs i) := by
  unfold elementAt
  split
  · exact .null
  · exact alike_getD_null (h.getElem? _)

theorem atIndex_alike {v w i j : Value} (h : v.Alike ρ xs w) (hi : i.Alike ρ xs j) :
    AttemptsAlike (Value.Alike ρ xs) (v.atIndex i) (w.atIndex j) := by
  cases h with
  | array hes =>
    cases hi with
    | int n => exact .ok (elementAt_alike hes n)
    | _ => exact .error _
  | hash hps =>
    simp only [atIndex, hi.hashKey?_eq, hi.kind_eq]
    split
    · exact .error _
    · rename_i key _
      have hget := hps.get? key
      apply AttemptsAlike.ok
      generalize Table.get? _ key = p at hget ⊢
      generalize Table.get? _ key = q at hget ⊢
      cases hget with
      | none => exact .null
      | some hv => exact hv
  | _ => exact .error _

end Value

namespace Builtin

theorem arrayArgument_alike (b : Builtin) {vs ws : List Value} (h : AllAlike ρ xs vs ws) :
    AttemptsAlike (AllAlike ρ xs) (b.arrayArgument vs) (b.arrayArgument ws) := by
  cases h with
  | nil => exact .error _
  | cons hv hvs =>
    cases hvs with
    | nil =>
      cases hv with
      | array hes => exact .ok hes
      | _ => exact .error _
    | cons hv' hvs =>
      simp only [arrayArgument, List.length_cons, hvs.length_eq]
      exact .error _

theorem lenOf_alike {vs ws : List Value} (h : AllAlike ρ xs vs ws) :
    AttemptsAlike (Value.Alike ρ xs) (lenOf vs) (lenOf ws) := by
  cases h with
  | nil => exact .error _
  | cons hv hvs =>
    cases hvs with
    | nil =>
      cases hv with
      | array hes =>
        simp only [lenOf, hes.length_eq]
        exact .ok (.int _)
      | str s => exact .ok (.int _)
      | _ => exact .error _
    | cons hv' hvs =>
      simp only [lenOf, List.length_cons, hvs.length_eq]
      exact .error _

theorem pushOf_alike {vs ws : List Value} (h : AllAlike ρ xs vs ws) :
    AttemptsAlike (Value.Alike ρ xs) (pushOf vs) (pushOf ws) := by
  cases h with
  | nil => exact .error _
  | cons hv hvs =>
    cases hvs with
    | nil =>
      cases hv <;> exact .error _
    | cons hv' hvs =>
      cases hvs with
      | nil =>
        cases hv with
        | array hes => exact .ok (.array (hes.append (.cons hv' .nil)))
        | _ => exact .error _
      | cons hv'' hvs =>
        have hlength := hvs.length_eq
        cases hv <;> (simp only [pushOf, List.length_cons, hlength]; exact .error _)

theorem apply_alike (b : Builtin) {vs ws : List Value} (h : AllAlike ρ xs vs ws) :
    AttemptsAlike (Value.Alike ρ xs) (b.apply vs) (b.apply ws) := by
  cases b with
  | len => exact lenOf_alike h
  | push => exact pushOf_alike h
  | first =>
    apply (arrayArgument_alike first h).bind
    intro es fs hes
    cases hes with
    | nil => exact .ok .null
    | cons hv _ => exact .ok hv
  | last =>
    apply (arrayArgument_alike last h).bind
    intro es fs hes
    apply AttemptsAlike.ok
    rw [List.getLast?_eq_getElem?, List.getLast?_eq_getElem?, hes.length_eq]
    exact alike_getD_null (hes.getElem? _)
  | rest =>
    apply (arrayArgument_alike rest h).bind
    intro es fs hes
    cases hes with
    | nil => exact .ok .null
    | cons _ hvs => exact .ok (.array hvs)

end Builtin

/-! ## 4. States -/

/-- The scopes bind the names outside `xs` to values that look alike, and lie in corresponding
scopes. -/
structure Scope.Alike (ρ : Pairing) (xs : List String) (a b : Scope) : Prop where
  get? : ∀ x, x ∉ xs →
    Option.Rel (Value.Alike ρ xs) (a.bindings.get? x) (b.bindings.get? x)
  outer : Option.Rel ρ.rel a.outer b.outer

theorem Scope.Alike.insert {a b : Scope} {v w : Value} (h : a.Alike ρ xs b) (x : String)
    (hv : v.Alike ρ xs w) :
    Scope.Alike ρ xs { a with bindings := a.bindings.insert x v }
      { b with bindings := b.bindings.insert x w } where
  get? y hy := by
    by_cases hxy : x = y
    · rw [← hxy, Table.get?_insert_self, Table.get?_insert_self]
      exact .some hv
    · rw [Table.get?_insert_of_ne _ _ hxy, Table.get?_insert_of_ne _ _ hxy]
      exact h.get? y hy
  outer := h.outer

namespace Scopes

/-- Corresponding scopes look alike, or are both not there, and the next scopes to be opened
correspond to each other. -/
structure Alike (ρ : Pairing) (xs : List String) (s t : Scopes) : Prop where
  scope : ∀ {i j : Nat}, ρ.rel i j → Option.Rel (Scope.Alike ρ xs) s.row[i]? t.row[j]?
  fresh : ∀ k : Nat, ρ.rel (s.size + k) (t.size + k)

variable {s t : Scopes}

/-- A name stands for values that look alike. -/
theorem Alike.get? {i j : Nat} (h : s.Alike ρ xs t) (hij : ρ.rel i j) {x : String}
    (hx : x ∉ xs) :
    Option.Rel (Value.Alike ρ xs) (s.get? i x) (t.get? j x) := by
  rw [Scopes.get?, Scopes.get?]
  have hscope := h.scope hij
  generalize s.row[i]? = a at hscope ⊢
  generalize t.row[j]? = b at hscope ⊢
  cases hscope with
  | none => exact .none
  | @some a b hab =>
    have hget := hab.get? x hx
    dsimp only
    generalize a.bindings.get? x = v at hget ⊢
    generalize b.bindings.get? x = w at hget ⊢
    cases hget with
    | some hv => exact .some hv
    | none =>
      have houter := hab.outer
      dsimp only
      generalize a.outer = o at houter ⊢
      generalize b.outer = o' at houter ⊢
      cases houter with
      | none => exact .none
      | @some o o' ho =>
        have hlt := ρ.lt_iff ho hij
        dsimp only
        by_cases hoi : o < i
        · rw [if_pos hoi, if_pos (hlt.mp hoi)]
          -- the outer scope has a smaller number
          exact h.get? ho hx
        · rw [if_neg hoi, if_neg (fun hoj => hoi (hlt.mpr hoj))]
          exact .none
termination_by i

variable {i j : Nat}

theorem Alike.define (h : s.Alike ρ xs t) (hij : ρ.rel i j) (x : String) {v w : Value}
    (hv : v.Alike ρ xs w) : (s.define i x v).Alike ρ xs (t.define j x w) where
  scope {k l} hkl := by
    have hscope := h.scope hkl
    by_cases hki : k = i
    · have hlj : l = j := (ρ.eq_iff hkl hij).mp hki
      subst hki hlj
      rw [row_define_self, row_define_self]
      generalize s.row[k]? = a at hscope ⊢
      generalize t.row[l]? = b at hscope ⊢
      cases hscope with
      | none => exact .none
      | some hab => exact .some (hab.insert x hv)
    · have hlj : l ≠ j := fun h => hki ((ρ.eq_iff hkl hij).mpr h)
      rw [row_define_of_ne _ _ _ hki, row_define_of_ne _ _ _ hlj]
      exact hscope
  fresh k := by
    rw [size_define, size_define]
    exact h.fresh k

theorem Alike.add (h : s.Alike ρ xs t) {o o' : Option Nat} (ho : Option.Rel ρ.rel o o') :
    (s.add o).Alike ρ xs (t.add o') where
  scope {k l} hkl := by
    have hsize : k = s.row.size ↔ l = t.row.size := ρ.eq_iff hkl (h.fresh 0)
    show Option.Rel _ (s.row.push ⟨[], o⟩)[k]? (t.row.push ⟨[], o'⟩)[l]?
    rw [Array.getElem?_push, Array.getElem?_push]
    by_cases hk : k = s.row.size
    · rw [if_pos hk, if_pos (hsize.mp hk)]
      exact .some ⟨fun _ _ => .none, ho⟩
    · rw [if_neg hk, if_neg (fun hl => hk (hsize.mpr hl))]
      exact h.scope hkl
  fresh k := by
    have hk := h.fresh (k + 1)
    rw [size_add, size_add, Nat.add_assoc, Nat.add_assoc, Nat.add_comm 1 k]
    exact hk

/-- Names that are bound one after the other to values that look alike. -/
theorem Alike.foldl_define (h : s.Alike ρ xs t) (hij : ρ.rel i j) (params : List String)
    {vs ws : List Value} (hvs : AllAlike ρ xs vs ws) :
    ((params.zip vs).foldl (fun s (x, v) => s.define i x v) s).Alike ρ xs
      ((params.zip ws).foldl (fun s (x, v) => s.define j x v) t) := by
  induction params generalizing s t vs ws with
  | nil => exact h
  | cons x params ih =>
    cases hvs with
    | nil => exact h
    | cons hv hvs => exact ih (h.define hij x hv) hvs

end Scopes

/-! ## 5. Evaluations -/

/-- The evaluations stop early for the same reason. -/
inductive Halt.Alike (ρ : Pairing) (xs : List String) : Halt → Halt → Prop where
  | fault (f : Fault) : Halt.Alike ρ xs (.fault f) (.fault f)
  | returning {v w : Value} : v.Alike ρ xs w → Halt.Alike ρ xs (.returning v) (.returning w)
  | missing : Halt.Alike ρ xs .missing .missing
  | exhausted : Halt.Alike ρ xs .exhausted .exhausted

namespace Eval

variable {α β γ δ : Type}

/-- The evaluations end in the same way and leave states that look alike. -/
inductive EndsAlike (ρ : Pairing) (xs : List String) (R : α → β → Prop) :
    EStateM.Result Halt Scopes α → EStateM.Result Halt Scopes β → Prop where
  | ok {a : α} {b : β} {s t : Scopes} :
      R a b → s.Alike ρ xs t → EndsAlike ρ xs R (.ok a s) (.ok b t)
  | error {h k : Halt} {s t : Scopes} :
      h.Alike ρ xs k → s.Alike ρ xs t → EndsAlike ρ xs R (.error h s) (.error k t)

/-- Begun in states that look alike, the evaluations end in the same way. -/
def Alike (ρ : Pairing) (xs : List String) (R : α → β → Prop) (x : Eval α) (y : Eval β) : Prop :=
  ∀ s t : Scopes, s.Alike ρ xs t → EndsAlike ρ xs R (x s) (y t)

variable {R : α → β → Prop} {Q : γ → δ → Prop}

theorem alike_pure {a : α} {b : β} (h : R a b) : Alike ρ xs R (pure a) (pure b) :=
  fun _ _ hst => .ok h hst

theorem alike_throw {h k : Halt} (hk : h.Alike ρ xs k) : Alike ρ xs R (throw h) (throw k) :=
  fun _ _ hst => .error hk hst

theorem alike_ofExcept {x : Except Fault α} {y : Except Fault β} (h : AttemptsAlike R x y) :
    Alike ρ xs R (ofExcept x) (ofExcept y) := by
  cases h with
  | ok hab => exact alike_pure hab
  | error f => exact alike_throw (.fault f)

theorem Alike.bind {x : Eval α} {y : Eval β} {f : α → Eval γ} {g : β → Eval δ}
    (h : x.Alike ρ xs R y) (hfg : ∀ a b, R a b → (f a).Alike ρ xs Q (g b)) :
    (x >>= f).Alike ρ xs Q (y >>= g) := by
  intro s t hst
  have hxy := h s t hst
  show EndsAlike ρ xs Q (EStateM.bind x f s) (EStateM.bind y g t)
  unfold EStateM.bind
  generalize x s = p at hxy ⊢
  generalize y t = q at hxy ⊢
  cases hxy with
  | ok hab hst' => exact hfg _ _ hab _ _ hst'
  | error hhk hst' => exact .error hhk hst'

/-- A `return` that ends here hands over values that look alike. -/
theorem Alike.catchReturn {x : Eval α} {y : Eval β} {accept : Value → α} {accept' : Value → β}
    (h : x.Alike ρ xs R y) (haccept : ∀ v w, v.Alike ρ xs w → R (accept v) (accept' w)) :
    (x.catchReturn accept).Alike ρ xs R (y.catchReturn accept') := by
  intro s t hst
  have hxy := h s t hst
  unfold Eval.catchReturn
  generalize x s = p at hxy ⊢
  generalize y t = q at hxy ⊢
  cases hxy with
  | ok hab hst' => exact .ok hab hst'
  | error hhk hst' =>
    cases hhk with
    | returning hv => exact .ok (haccept _ _ hv) hst'
    | fault f => exact .error (.fault f) hst'
    | missing => exact .error .missing hst'
    | exhausted => exact .error .exhausted hst'

variable {i j : Nat}

theorem alike_readName (hij : ρ.rel i j) {x : String} (hx : x ∉ xs) :
    (readName i x).Alike ρ xs (Value.Alike ρ xs) (readName j x) := by
  have hget : (get : Eval Scopes).Alike ρ xs (Scopes.Alike ρ xs) get := fun _ _ hst => .ok hst hst
  unfold readName
  apply hget.bind
  intro s t hst
  have hvalue := hst.get? hij hx
  generalize s.get? i x = v at hvalue ⊢
  generalize t.get? j x = w at hvalue ⊢
  cases hvalue with
  | some hv => exact alike_pure hv
  | none =>
    dsimp only
    split
    · exact alike_pure (.builtin _)
    · exact alike_throw (.fault _)

theorem alike_define (hij : ρ.rel i j) (x : String) {v w : Value} (hv : v.Alike ρ xs w) :
    Alike ρ xs (fun _ _ => True) (modify fun s => s.define i x v)
      (modify fun s => s.define j x w) :=
  fun _ _ hst => .ok trivial (hst.define hij x hv)

/-- The scopes that are opened for a call correspond to each other. -/
theorem alike_enterCall (hij : ρ.rel i j) (params : List String) {vs ws : List Value}
    (hvs : AllAlike ρ xs vs ws) :
    (enterCall i params vs).Alike ρ xs ρ.rel (enterCall j params ws) := by
  intro s t hst
  have hfresh := hst.fresh 0
  exact .ok hfresh ((hst.add (.some hij)).foldl_define hfresh params hvs)

end Eval

/-! ## 6. Trees -/

/-- Functions that look alike, applied to arguments that look alike, do the same. -/
def CallAlike (ρ : Pairing) (xs : List String) (call : Value → List Value → Eval Value) : Prop :=
  ∀ {f g : Value} {vs ws : List Value}, f.Alike ρ xs g → AllAlike ρ xs vs ws →
    (call f vs).Alike ρ xs (Value.Alike ρ xs) (call g ws)

section

open Eval

variable {call : Value → List Value → Eval Value} {i j : Nat}

mutual

theorem Expr.eval_alike (hcall : CallAlike ρ xs call) (hij : ρ.rel i j) :
    (e : Expr) → e.names.Disjoint xs →
      (e.eval call i).Alike ρ xs (Value.Alike ρ xs) (e.eval call j)
  | .absent, _ => alike_throw .missing
  | .ident _ x, he => by
    have hx : x ∉ xs := fun hmem => he (List.mem_singleton_self x) hmem
    rw [Expr.eval, Expr.eval]
    exact alike_readName hij hx
  | .int _ n, _ => alike_pure (.int n)
  | .str _ s, _ => alike_pure (.str s)
  | .bool _ b, _ => alike_pure (.bool b)
  | .unary _ op e, he => by
    rw [Expr.eval, Expr.eval]
    apply (e.eval_alike hcall hij he).bind
    intro v w hv
    exact alike_ofExcept (op.apply_alike hv)
  | .binary _ l op r, he => by
    obtain ⟨hl, hr⟩ := List.disjoint_append_left.mp he
    rw [Expr.eval, Expr.eval]
    apply (l.eval_alike hcall hij hl).bind
    intro a a' ha
    apply (r.eval_alike hcall hij hr).bind
    intro b b' hb
    exact alike_ofExcept (op.apply_alike ha hb)
  | .cond _ c yes none, he => by
    obtain ⟨hc, hyes⟩ := List.disjoint_append_left.mp he
    rw [Expr.eval, Expr.eval]
    apply (c.eval_alike hcall hij hc).bind
    intro v w hv
    rw [hv.truthy_eq]
    split
    · exact yes.eval_alike hcall hij hyes
    · exact alike_pure .null
  | .cond _ c yes (some no), he => by
    obtain ⟨hc, hbranches⟩ := List.disjoint_append_left.mp he
    obtain ⟨hyes, hno⟩ := List.disjoint_append_left.mp hbranches
    rw [Expr.eval, Expr.eval]
    apply (c.eval_alike hcall hij hc).bind
    intro v w hv
    -- both go the same way
    rw [hv.truthy_eq]
    split
    · exact yes.eval_alike hcall hij hyes
    · exact no.eval_alike hcall hij hno
  | .func _ params body, he => by
    rw [Expr.eval, Expr.eval]
    exact alike_pure (.function he hij)
  | .call _ f args, he => by
    obtain ⟨hf, hargs⟩ := List.disjoint_append_left.mp he
    rw [Expr.eval, Expr.eval]
    apply (f.eval_alike hcall hij hf).bind
    intro g g' hg
    apply (evalExprs_alike hcall hij args hargs).bind
    intro vs ws hvs
    exact hcall hg hvs
  | .array _ es, he => by
    rw [Expr.eval, Expr.eval]
    apply (evalExprs_alike hcall hij es he).bind
    intro vs ws hvs
    exact alike_pure (.array hvs)
  | .index _ l k, he => by
    obtain ⟨hl, hk⟩ := List.disjoint_append_left.mp he
    rw [Expr.eval, Expr.eval]
    apply (l.eval_alike hcall hij hl).bind
    intro v w hv
    apply (k.eval_alike hcall hij hk).bind
    intro n m hn
    exact alike_ofExcept (Value.atIndex_alike hv hn)
  | .hash _ ps, he => by
    rw [Expr.eval, Expr.eval]
    apply (evalPairs_alike hcall hij .nil ps he).bind
    intro table table' htable
    exact alike_pure (.hash htable)

theorem evalExprs_alike (hcall : CallAlike ρ xs call) (hij : ρ.rel i j) :
    (es : List Expr) → (exprsNames es).Disjoint xs →
      (evalExprs call i es).Alike ρ xs (AllAlike ρ xs) (evalExprs call j es)
  | [], _ => alike_pure .nil
  | e :: es, he => by
    obtain ⟨he, hes⟩ := List.disjoint_append_left.mp he
    rw [evalExprs, evalExprs]
    apply (e.eval_alike hcall hij he).bind
    intro v w hv
    apply (evalExprs_alike hcall hij es hes).bind
    intro vs ws hvs
    exact alike_pure (.cons hv hvs)

theorem evalPairs_alike (hcall : CallAlike ρ xs call) (hij : ρ.rel i j)
    {table table' : Table HashKey (Value × Value)} (htable : PairsAlike ρ xs table table') :
    (ps : List (Expr × Expr)) → (pairsNames ps).Disjoint xs →
      (evalPairs call i table ps).Alike ρ xs (PairsAlike ρ xs) (evalPairs call j table' ps)
  | [], _ => alike_pure htable
  | (k, v) :: ps, he => by
    obtain ⟨hk, hothers⟩ := List.disjoint_append_left.mp he
    obtain ⟨hv, hps⟩ := List.disjoint_append_left.mp hothers
    rw [evalPairs, evalPairs]
    apply (k.eval_alike hcall hij hk).bind
    intro key key' hkey
    rw [hkey.hashKey?_eq, hkey.kind_eq]
    split
    · exact alike_throw (.fault _)
    · apply (v.eval_alike hcall hij hv).bind
      intro value value' hvalue
      exact evalPairs_alike hcall hij (htable.insert _ hkey hvalue) ps hps

theorem Stmt.eval_alike (hcall : CallAlike ρ xs call) (hij : ρ.rel i j) :
    (st : Stmt) → st.names.Disjoint xs →
      (st.eval call i).Alike ρ xs (Option.Rel (Value.Alike ρ xs)) (st.eval call j)
  | .bind _ x e, he => by
    rw [Stmt.eval, Stmt.eval]
    apply (e.eval_alike hcall hij he).bind
    intro v w hv
    apply (alike_define hij x hv).bind
    intro _ _ _
    exact alike_pure .none
  | .ret _ e, he => by
    by_cases habsent : e = .absent
    · subst habsent
      rw [Stmt.eval, Stmt.eval]
      exact alike_throw (.returning .null)
    · rw [Stmt.eval_ret habsent, Stmt.eval_ret habsent]
      apply (e.eval_alike hcall hij he).bind
      intro v w hv
      exact alike_throw (.returning hv)
  | .expr _ e, he => by
    rw [Stmt.eval, Stmt.eval]
    apply (e.eval_alike hcall hij he).bind
    intro v w hv
    exact alike_pure (.some hv)
  | .block b, hb => by
    rw [Stmt.eval, Stmt.eval]
    apply (b.eval_alike hcall hij hb).bind
    intro v w hv
    exact alike_pure (.some hv)

theorem evalStmts_alike (hcall : CallAlike ρ xs call) (hij : ρ.rel i j) {v w : Option Value}
    (hv : Option.Rel (Value.Alike ρ xs) v w) : (ss : List Stmt) → (stmtsNames ss).Disjoint xs →
      (evalStmts call i v ss).Alike ρ xs (Option.Rel (Value.Alike ρ xs)) (evalStmts call j w ss)
  | [], _ => alike_pure hv
  | st :: ss, hss => by
    obtain ⟨hst, hss⟩ := List.disjoint_append_left.mp hss
    rw [evalStmts, evalStmts]
    apply (st.eval_alike hcall hij hst).bind
    intro v w hv
    exact evalStmts_alike hcall hij hv ss hss

theorem Block.eval_alike (hcall : CallAlike ρ xs call) (hij : ρ.rel i j) :
    (b : Block) → b.names.Disjoint xs →
      (b.eval call i).Alike ρ xs (Value.Alike ρ xs) (b.eval call j)
  | .mk _ ss, hss => by
    rw [Block.eval_mk, Block.eval_mk]
    apply (evalStmts_alike hcall hij .none ss hss).bind
    intro v w hv
    exact alike_pure (alike_getD_null hv)

end

end

/-! ## 7. Calls and programs -/

open Eval

/-- By induction on how deep calls may nest: the bodies of functions that look alike are the same,
and are evaluated in the scopes opened for the call. -/
theorem callAlike_applyWithin (depth : Nat) : CallAlike ρ xs (applyWithin depth) := by
  induction depth with
  | zero =>
    intro f g vs ws hf hvs
    cases hf with
    | builtin b => exact alike_ofExcept (b.apply_alike hvs)
    | function _ _ => exact alike_throw .exhausted
    | _ => exact alike_throw (.fault _)
  | succ depth ih =>
    intro f g vs ws hf hvs
    cases hf with
    | builtin b => exact alike_ofExcept (b.apply_alike hvs)
    | @function params body i j hbody hij =>
      rw [applyWithin, applyWithin]
      apply (alike_enterCall hij params hvs).bind
      intro k l hkl
      exact (body.eval_alike ih hkl hbody).catchReturn fun _ _ hv => hv
    | _ => exact alike_throw (.fault _)

/-- A program that reads no name of `xs` does the same in states that look alike. -/
theorem Program.eval_alike (depth : Nat) {i j : Nat} (hij : ρ.rel i j) (p : Program)
    (hp : (stmtsNames p.statements).Disjoint xs) :
    (p.eval depth i).Alike ρ xs (Option.Rel (Value.Alike ρ xs)) (p.eval depth j) := by
  rw [Program.eval_eq, Program.eval_eq]
  exact (evalStmts_alike (callAlike_applyWithin depth) hij .none p.statements hp).catchReturn
    fun _ _ hv => .some hv

end

end Monkey

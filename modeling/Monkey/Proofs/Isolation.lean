import Mathlib
import Monkey.Proofs.Evaluation.Alike
import Monkey.Proofs.Interpreter

/-!
# Sources in unrelated scopes

Two interpreters take turns on one state, each in a scope of its own that is empty at first and lies
in no other.  Neither notices the other: the answers of each, and what it leaves in its scope, are
those of a session that it has for itself.

The numbers of the scopes that calls open do depend on the turns of both.  So the two sessions are
compared up to a correspondence of scopes, which is laid anew from the next free number on whenever
the other interpreter has had its turn.
-/

namespace Monkey

/-! ## 1. Laying a correspondence anew -/

namespace Pairing

/-- Keeps what corresponds among the first `n` and the first `m` scopes.  The scopes after them
correspond in order. -/
def regrow (ρ : Pairing) (n m : Nat) : Pairing where
  rel i j := (i < n ∧ j < m ∧ ρ.rel i j) ∨ ∃ k, i = n + k ∧ j = m + k
  lt_iff := by
    rintro i j k l (⟨hi, hj, hij⟩ | ⟨a, rfl, rfl⟩) (⟨hk, hl, hkl⟩ | ⟨b, rfl, rfl⟩)
    · exact ρ.lt_iff hij hkl
    all_goals omega

/-- The first scope corresponds to the scope `r`, and no other to any. -/
def ofFirst (r : Nat) : Pairing where
  rel i j := i = 0 ∧ j = r
  lt_iff := by
    rintro i j k l ⟨rfl, rfl⟩ ⟨rfl, rfl⟩
    omega

/-- The correspondence of the first `n` scopes is kept. -/
def KeptBelow (n : Nat) (ρ σ : Pairing) : Prop := ∀ ⦃i j : Nat⦄, i < n → ρ.rel i j → σ.rel i j

variable {m n : Nat} {ρ σ τ : Pairing}

theorem KeptBelow.refl (n : Nat) (ρ : Pairing) : ρ.KeptBelow n ρ := fun _ _ _ h => h

theorem KeptBelow.trans (h : KeptBelow n ρ σ) (h' : KeptBelow n σ τ) : KeptBelow n ρ τ :=
  fun _ _ hi hij => h' hi (h hi hij)

theorem KeptBelow.mono (h : KeptBelow n ρ σ) (hm : m ≤ n) : KeptBelow m ρ σ :=
  fun _ _ hi hij => h (Nat.lt_of_lt_of_le hi hm) hij

end Pairing

section

variable {n : Nat} {ρ σ : Pairing} {xs : List String}

mutual

/-- An ordinary value lies in the first `n` scopes only. -/
theorem Value.Alike.transport (hρ : ρ.KeptBelow n σ) {v w : Value} (h : v.Alike ρ xs w)
    (hv : v.Ordinary n) : v.Alike σ xs w := by
  cases h with
  | null => exact .null
  | int n => exact .int n
  | bool b => exact .bool b
  | str s => exact .str s
  | builtin b => exact .builtin b
  | error m => exact .error m
  | array hes => exact .array (hes.transport hρ hv)
  | hash hps => exact .hash (hps.transport hρ hv.1)
  | function hbody hij => exact .function hbody (hρ hv.2 hij)
  | returned _ => exact hv.elim

theorem AllAlike.transport (hρ : ρ.KeptBelow n σ) {vs ws : List Value} (h : AllAlike ρ xs vs ws)
    (hvs : AllOrdinary n vs) : AllAlike σ xs vs ws := by
  cases h with
  | nil => exact .nil
  | cons hv hws => exact .cons (hv.transport hρ hvs.1) (hws.transport hρ hvs.2)

theorem PairsAlike.transport (hρ : ρ.KeptBelow n σ) {ps qs : List (HashKey × (Value × Value))}
    (h : PairsAlike ρ xs ps qs) (hps : PairsOrdinary n ps) : PairsAlike σ xs ps qs := by
  cases h with
  | nil => exact .nil
  | cons hk hv hqs =>
    obtain ⟨hkey, hv', hps⟩ := hps
    -- a value with a key is not made of other values
    refine .cons ?_ (hv.transport hρ hv') (hqs.transport hρ hps)
    cases hk with
    | int n => exact .int n
    | bool b => exact .bool b
    | str s => exact .str s
    | _ => cases hkey

end

namespace Scopes

variable {s t u : Scopes}

theorem Alike.lt_size {i j : Nat} (h : s.Alike ρ xs t) (hij : ρ.rel i j) :
    i < s.size ↔ j < t.size :=
  ρ.lt_iff hij (h.fresh 0)

theorem Alike.keptBelow_regrow (h : s.Alike ρ xs t) (hsize : t.size ≤ u.size) :
    ρ.KeptBelow s.size (ρ.regrow s.size u.size) := by
  intro i j hi hij
  have hj : j < t.size := (h.lt_size hij).mp hi
  exact .inl ⟨hi, Nat.lt_of_lt_of_le hj hsize, hij⟩

/-- Scopes that correspond to none may be changed and added, if the correspondence is laid anew from
the next free number on. -/
theorem Alike.regrow (h : s.Alike ρ xs t) (hs : s.Clean) (hsize : t.size ≤ u.size)
    (hrow : ∀ {i j : Nat}, i < s.size → ρ.rel i j → u.row[j]? = t.row[j]?) :
    s.Alike (ρ.regrow s.size u.size) xs u where
  scope {i j} hij := by
    have hkept := h.keptBelow_regrow hsize
    rcases hij with ⟨hi, hj, hij⟩ | ⟨k, rfl, rfl⟩
    · -- a scope that was there: all that it names lies among the first scopes too
      rw [hrow hi hij]
      have hscope := h.scope hij
      have hordinary := hs.ordinary i
      have houter := hs.outer_lt i
      rw [Scopes.outer?] at houter
      generalize s.row[i]? = a at hscope hordinary houter ⊢
      generalize t.row[j]? = b at hscope ⊢
      cases hscope with
      | none => exact .none
      | @some a b hab =>
        refine .some ⟨fun x hx => ?_, ?_⟩
        · have hget := hab.get? x hx
          have hmem (v : Value) (hv : a.bindings.get? x = some v) : v.Ordinary s.size :=
            hordinary a rfl x v (Table.mem_of_get? hv)
          generalize a.bindings.get? x = v at hget hmem ⊢
          generalize b.bindings.get? x = w at hget ⊢
          cases hget with
          | none => exact .none
          | some hvw => exact .some (hvw.transport hkept (hmem _ rfl))
        · have ho := hab.outer
          have hlt (o : Nat) (h : a.outer = some o) : o < s.size := houter o h
          generalize a.outer = o at ho hlt ⊢
          generalize b.outer = o' at ho ⊢
          cases ho with
          | none => exact .none
          | some hoo => exact .some (hkept (hlt _ rfl) hoo)
    · -- scopes that neither state has yet
      have hs : s.row[s.size + k]? = none := Array.getElem?_eq_none (Nat.le_add_right _ _)
      have hu : u.row[u.size + k]? = none := Array.getElem?_eq_none (Nat.le_add_right _ _)
      rw [hs, hu]
      exact .none
  fresh k := .inr ⟨k, rfl, rfl⟩

/-- A state of one empty scope looks like any empty scope that lies in no other. -/
theorem alike_fresh {r : Nat} (hr : t.row[r]? = some ⟨[], none⟩) :
    fresh.Alike ((Pairing.ofFirst r).regrow 1 t.size) xs t where
  scope {i j} hij := by
    rcases hij with ⟨-, -, rfl, rfl⟩ | ⟨k, rfl, rfl⟩
    · rw [hr]
      exact .some ⟨fun _ _ => .none, .none⟩
    · have hs : fresh.row[1 + k]? = none := Array.getElem?_eq_none (Nat.le_add_right _ _)
      have ht : t.row[t.size + k]? = none := Array.getElem?_eq_none (Nat.le_add_right _ _)
      rw [hs, ht]
      exact .none
  fresh k := .inr ⟨k, rfl, rfl⟩

end Scopes

end

/-! ## 2. Answers -/

/-- The answers are the same up to the scopes that functions lie in. -/
inductive Answer.Alike (ρ : Pairing) : Answer → Answer → Prop where
  | value {v w : Option Value} : Option.Rel (Value.Alike ρ []) v w →
      Answer.Alike ρ (.value v) (.value w)
  | parseErrors (errors : List ParseError) :
      Answer.Alike ρ (.parseErrors errors) (.parseErrors errors)
  | runtimeError (m : String) : Answer.Alike ρ (.runtimeError m) (.runtimeError m)
  | unread (reason : String) : Answer.Alike ρ (.unread reason) (.unread reason)
  | missing : Answer.Alike ρ .missing .missing
  | exhausted : Answer.Alike ρ .exhausted .exhausted

/-- The text of the value, if there is one. -/
def Answer.inspect? : Answer → Option String
  | .value v => v.map Value.inspect
  | _ => none

def Answer.Ordinary (n : Nat) (a : Answer) : Prop := ∀ v, a = .value (some v) → v.Ordinary n

section

variable {n : Nat} {ρ σ : Pairing} {a b : Answer}

theorem Answer.Alike.inspect?_eq (h : a.Alike ρ b) : a.inspect? = b.inspect? := by
  cases h with
  | value hv =>
    cases hv with
    | none => rfl
    | some hv => exact congrArg some hv.inspect_eq
  | _ => rfl

theorem Answer.Alike.transport (hρ : ρ.KeptBelow n σ) (h : a.Alike ρ b) (ha : a.Ordinary n) :
    a.Alike σ b := by
  cases h with
  | value hv =>
    cases hv with
    | none => exact .value .none
    | some hv => exact .value (.some (hv.transport hρ (ha _ rfl)))
  | parseErrors errors => exact .parseErrors errors
  | runtimeError m => exact .runtimeError m
  | unread reason => exact .unread reason
  | missing => exact .missing
  | exhausted => exact .exhausted

theorem Answer.alike_ofOutcome {v w : Option Value} (h : Option.Rel (Value.Alike ρ []) v w) :
    (ofOutcome (.value v)).Alike ρ (ofOutcome (.value w)) := by
  cases h with
  | none => exact .value .none
  | some hv =>
    cases hv with
    | error m => exact .runtimeError m
    | null => exact .value (.some .null)
    | int n => exact .value (.some (.int n))
    | bool b => exact .value (.some (.bool b))
    | str s => exact .value (.some (.str s))
    | builtin b => exact .value (.some (.builtin b))
    | array hes => exact .value (.some (.array hes))
    | hash hps => exact .value (.some (.hash hps))
    | function hbody hij => exact .value (.some (.function hbody hij))
    | returned hv => exact .value (.some (.returned hv))

theorem Answer.ordinary_of_ne_value (h : ∀ v, a ≠ .value v) : a.Ordinary n :=
  fun v hv => absurd hv (h (some v))

theorem Answer.ordinary_ofOutcome {v : Option Value} (hv : ∀ w ∈ v, w.Ordinary n) :
    (ofOutcome (.value v)).Ordinary n := by
  intro w hw
  apply hv
  unfold ofOutcome at hw
  split at hw <;> cases hw
  rename_i h
  cases h
  rfl

end

/-! ## 3. One source -/

namespace Eval

variable {ρ : Pairing} {x y : Eval (Option Value)} {s t : Scopes}

theorem outcome_snd (x : Eval (Option Value)) (s : Scopes) : (x.outcome s).2 = x.final s := by
  unfold outcome final
  split <;> simp_all

theorem Alike.outcome (h : x.Alike ρ [] (Option.Rel (Value.Alike ρ [])) y)
    (hst : s.Alike ρ [] t) :
    (Answer.ofOutcome (x.outcome s).1).Alike ρ (Answer.ofOutcome (y.outcome t).1) ∧
    (x.outcome s).2.Alike ρ [] (y.outcome t).2 := by
  have hend := h s t hst
  unfold Eval.outcome
  generalize x s = p at hend ⊢
  generalize y t = q at hend ⊢
  cases hend with
  | ok hv hst' => exact ⟨Answer.alike_ofOutcome hv, hst'⟩
  | error hk hst' =>
    cases hk with
    | fault f => exact ⟨.runtimeError f.message, hst'⟩
    | returning hv => exact ⟨Answer.alike_ofOutcome (.some hv), hst'⟩
    | missing => exact ⟨.missing, hst'⟩
    | exhausted => exact ⟨.exhausted, hst'⟩

end Eval

namespace Interpreter

variable {i : Interpreter} {s t : Scopes} (source : String)

theorem eval_framed (i : Interpreter) (s : Scopes) :
    s.Framed i.scope (stmtsLets (Monkey.parse i.tracing source).program.statements)
      (i.eval source s).2 := by
  by_cases herrors : (Monkey.parse i.tracing source).errors = []
  · rw [(eval_of_errors_eq_nil herrors).2, Eval.outcome_snd]
    exact Program.eval_framed i.depth i.scope _ s
  · rw [(eval_of_errors_ne_nil herrors).2]
    exact .refl s

theorem eval_ordinary (hs : s.Clean) (hscope : i.scope < s.size) :
    (i.eval source s).2.Clean ∧ (i.eval source s).1.result.Ordinary (i.eval source s).2.size := by
  by_cases herrors : (Monkey.parse i.tracing source).errors = []
  · have hp := (parse_wellFormed i.tracing source).complete
    obtain ⟨hanswer, hstate⟩ := eval_of_errors_eq_nil (s := s) herrors
    rw [hanswer, hstate]
    rcases Program.eval_cases i.depth hp hs hscope with
      ⟨v, s', heval, hs', hv⟩ | ⟨f, s', heval, hs'⟩ | ⟨s', heval, hs'⟩
    · rw [Eval.outcome_of_ok heval]
      exact ⟨hs', Answer.ordinary_ofOutcome hv⟩
    · rw [Eval.outcome_of_fault heval]
      exact ⟨hs', Answer.ordinary_of_ne_value (by simp [Answer.ofOutcome])⟩
    · rw [Eval.outcome, heval]
      exact ⟨hs', Answer.ordinary_of_ne_value (by simp [Answer.ofOutcome])⟩
  · obtain ⟨hanswer, hstate⟩ := eval_of_errors_ne_nil (s := s) herrors
    rw [hanswer, hstate]
    exact ⟨hs, Answer.ordinary_of_ne_value (by simp)⟩

theorem eval_alike {ρ : Pairing} {r : Nat} (hr : ρ.rel r i.scope) (h : s.Alike ρ [] t) :
    ({ i with scope := r }.eval source s).1.result.Alike ρ (i.eval source t).1.result ∧
    ({ i with scope := r }.eval source s).2.Alike ρ [] (i.eval source t).2 := by
  by_cases herrors : (Monkey.parse i.tracing source).errors = []
  · obtain ⟨hanswer, hstate⟩ := eval_of_errors_eq_nil (i := i) (s := t) herrors
    obtain ⟨hanswer', hstate'⟩ :=
      eval_of_errors_eq_nil (i := { i with scope := r }) (s := s) herrors
    rw [hanswer, hanswer', hstate, hstate']
    exact (Program.eval_alike i.depth hr _ (List.disjoint_nil_right _)).outcome h
  · obtain ⟨hanswer, hstate⟩ := eval_of_errors_ne_nil (i := i) (s := t) herrors
    obtain ⟨hanswer', hstate'⟩ :=
      eval_of_errors_ne_nil (i := { i with scope := r }) (s := s) herrors
    rw [hanswer, hanswer', hstate, hstate']
    exact ⟨.parseErrors _, h⟩

end Interpreter

/-! ## 4. Taking turns -/

def Interpreter.evalAll (i : Interpreter) : List String → Scopes → List Answer × Scopes
  | [], s => ([], s)
  | source :: sources, s =>
    let (first, s) := i.eval source s
    let (others, s) := i.evalAll sources s
    (first.result :: others, s)

/-- Two interpreters take turns on one state: each source is for one of them. -/
def evalTurns (i : Bool → Interpreter) :
    List (Bool × String) → Scopes → List (Bool × Answer) × Scopes
  | [], s => ([], s)
  | (b, source) :: turns, s =>
    let (first, s) := (i b).eval source s
    let (others, s) := evalTurns i turns s
    ((b, first.result) :: others, s)

/-- What is for one of two. -/
def ofSide {α : Type} (b : Bool) : List (Bool × α) → List α
  | [] => []
  | (c, a) :: turns => if c = b then a :: ofSide b turns else ofSide b turns

/-- The state `t` has scopes that look like those of `s`, and the scope `r` is not one of them. -/
structure Scopes.Mirrored (ρ : Pairing) (r : Nat) (s t : Scopes) : Prop where
  alike : s.Alike ρ [] t
  clean : s.Clean
  nonempty : 0 < s.size
  apart : ∀ k, ¬ρ.rel k r
  lt_size : r < t.size

namespace Scopes.Mirrored

variable {ρ : Pairing} {r : Nat} {s t : Scopes} {i : Interpreter}

theorem own (h : s.Mirrored ρ r t) (hi : ρ.rel 0 i.scope) (source : String) :
    (({ i with scope := 0 }.eval source s).2).Mirrored ρ r (i.eval source t).2 where
  alike := (i.eval_alike source hi h.alike).2
  clean := (Interpreter.eval_ordinary (i := { i with scope := 0 }) source h.clean h.nonempty).1
  nonempty :=
    Nat.lt_of_lt_of_le h.nonempty (Interpreter.eval_framed source { i with scope := 0 } s).size_le
  apart := h.apart
  lt_size := Nat.lt_of_lt_of_le h.lt_size (i.eval_framed source t).size_le

theorem other (h : s.Mirrored ρ i.scope t) (source : String) :
    s.Mirrored (ρ.regrow s.size (i.eval source t).2.size) i.scope (i.eval source t).2 := by
  -- nothing changes but the other's own scope, and the scopes that it opens
  have hframed := i.eval_framed source t
  have hrow {k l : Nat} (hk : k < s.size) (hkl : ρ.rel k l) :
      (i.eval source t).2.row[l]? = t.row[l]? := by
    have hl : l < t.size := (h.alike.lt_size hkl).mp hk
    have hne : l ≠ i.scope := fun heq => h.apart k (heq ▸ hkl)
    exact hframed.row_eq l hl hne
  have hlt : i.scope < (i.eval source t).2.size := Nat.lt_of_lt_of_le h.lt_size hframed.size_le
  refine ⟨h.alike.regrow h.clean hframed.size_le hrow, h.clean, h.nonempty, ?_, hlt⟩
  rintro k (⟨-, -, hk⟩ | ⟨k, -, heq⟩)
  · exact h.apart _ hk
  · omega

end Scopes.Mirrored

theorem evalTurns_mirrored {i : Bool → Interpreter} {b : Bool} {ρ : Pairing} {s t : Scopes}
    (h : s.Mirrored ρ (i !b).scope t) (hb : ρ.rel 0 (i b).scope) (turns : List (Bool × String)) :
    ∃ σ, ρ.KeptBelow s.size σ ∧
      List.Forall₂ (Answer.Alike σ) ({ i b with scope := 0 }.evalAll (ofSide b turns) s).1
        (ofSide b (evalTurns i turns t).1) ∧
      ({ i b with scope := 0 }.evalAll (ofSide b turns) s).2.Alike σ []
        (evalTurns i turns t).2 := by
  -- every turn keeps the correspondence of the scopes that are there, so earlier answers agree
  induction turns generalizing ρ s t with
  | nil => exact ⟨ρ, .refl _ ρ, .nil, h.alike⟩
  | cons turn turns ih =>
    obtain ⟨c, source⟩ := turn
    by_cases hc : c = b
    · subst hc
      have hsize := (Interpreter.eval_framed source { i c with scope := 0 } s).size_le
      have hanswer := ((i c).eval_alike source hb h.alike).1
      have hordinary :=
        (Interpreter.eval_ordinary (i := { i c with scope := 0 }) source h.clean h.nonempty).2
      obtain ⟨σ, hσ, hanswers, hend⟩ := ih (h.own hb source) hb
      simp only [evalTurns, ofSide, if_true, Interpreter.evalAll]
      exact ⟨σ, hσ.mono hsize, .cons (hanswer.transport hσ hordinary) hanswers, hend⟩
    · have hother : c = !b := by revert hc; cases b <;> cases c <;> decide
      subst hother
      have hkept := h.alike.keptBelow_regrow ((i !b).eval_framed source t).size_le
      obtain ⟨σ, hσ, hanswers, hend⟩ := ih (h.other source) (hkept h.nonempty hb)
      simp only [evalTurns, ofSide, if_neg hc]
      exact ⟨σ, hkept.trans hσ, hanswers, hend⟩

/-- Two interpreters, each with an empty scope of its own that lies in no other, take turns on a
state.  However the turns are dealt out, each of them gives the answers that it gives to its own
sources in a session for itself, and leaves the same bindings.  Scopes correspond one to one, and in
corresponding scopes names are bound to the same values, up to the numbers of the scopes in which
functions lie. -/
theorem eval_isolated (i : Bool → Interpreter) (s : Scopes)
    (hne : (i false).scope ≠ (i true).scope)
    (hempty : ∀ b, s.row[(i b).scope]? = some ⟨[], none⟩)
    (turns : List (Bool × String)) (b : Bool) :
    let alone := { i b with scope := 0 }.evalAll (ofSide b turns) .fresh
    let together := evalTurns i turns s
    (∃ ρ : Pairing, ρ.rel 0 (i b).scope ∧
      List.Forall₂ (Answer.Alike ρ) alone.1 (ofSide b together.1) ∧
      alone.2.Alike ρ [] together.2) ∧
    alone.1.map Answer.inspect? = (ofSide b together.1).map Answer.inspect? := by
  intro alone together
  have hlt (c : Bool) : (i c).scope < s.size := Scopes.lt_size_of_getElem? (hempty c)
  have hother : (i b).scope ≠ (i !b).scope := by
    cases b with
    | false => exact hne
    | true => exact hne.symm
  have hstart : Scopes.fresh.Mirrored ((Pairing.ofFirst (i b).scope).regrow 1 s.size)
      (i !b).scope s := by
    refine ⟨Scopes.alike_fresh (hempty b), Scopes.clean_fresh, Nat.zero_lt_one, ?_, hlt _⟩
    rintro k (⟨-, -, -, heq⟩ | ⟨k, -, heq⟩)
    · exact hother heq.symm
    · have := hlt !b
      omega
  have hfirst : ((Pairing.ofFirst (i b).scope).regrow 1 s.size).rel 0 (i b).scope :=
    .inl ⟨Nat.zero_lt_one, hlt b, rfl, rfl⟩
  obtain ⟨ρ, hρ, hanswers, hend⟩ := evalTurns_mirrored hstart hfirst turns
  refine ⟨⟨ρ, hρ Nat.zero_lt_one hfirst, hanswers, hend⟩, ?_⟩
  exact List.forall₂_eq_eq_eq ▸ (List.forall₂_map_left_iff.mpr
    (List.forall₂_map_right_iff.mpr (hanswers.imp fun _ _ h => h.inspect?_eq)))

/-- Interpreters for the first two scopes. -/
def neighbour (b : Bool) : Interpreter := ⟨if b then 1 else 0, false, 8⟩

/-- Both bind `f` and open scopes by calls; one of them keeps a function that lies in such a scope.
-/
def neighbourTurns : List (Bool × String) :=
  [(true, "let f = fn(x) \x7b x + 1 \x7d; f(1)"),
    (false, "let f = fn(x) \x7b fn(y) \x7b x - y \x7d \x7d;"),
    (false, "let g = f(1);"), (true, "f(f(2))"), (false, "g(3)")]

theorem eval_isolated_neighbours :
    (neighbour false).scope ≠ (neighbour true).scope ∧
    (∀ b, (Scopes.fresh.add none).row[(neighbour b).scope]? = some ⟨[], none⟩) ∧
    (ofSide false (evalTurns neighbour neighbourTurns (Scopes.fresh.add none)).1).map
      Answer.inspect? = [none, none, some "-2"] := by
  have hne : (neighbour false).scope ≠ (neighbour true).scope := by decide
  have hempty (b : Bool) :
      (Scopes.fresh.add none).row[(neighbour b).scope]? = some ⟨[], none⟩ := by
    cases b <;> rfl
  have halone : (Interpreter.evalAll { neighbour false with scope := 0 }
      (ofSide false neighbourTurns) .fresh).1.map Answer.inspect? = [none, none, some "-2"] := by
    cbv
  have htexts := (eval_isolated neighbour (Scopes.fresh.add none) hne hempty neighbourTurns false).2
  exact ⟨hne, hempty, htexts.symm.trans halone⟩

end Monkey

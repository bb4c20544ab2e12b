import Mathlib
import Monkey.Proofs.Isolation

/-!
# Bindings that nobody reads

A program can read the names that stand in it, and through the functions it gets hold of also the
names that stand in their bodies.  Which functions these are depends on the scope it is evaluated
in: they are bound there or further out, lie in arrays and hashes, or are bound in the scopes that
other such functions were made in.

Binding any other name beforehand makes no difference.  The program comes to the same end with the
same value, and leaves the same bindings apart from this name.
-/

namespace Monkey

/-! ## 1. What can be reached from a scope -/

/-- The second value is the first or lies in it. -/
inductive Value.Holds : Value → Value → Prop where
  | self (v : Value) : v.Holds v
  | element {es : List Value} {v w : Value} : v ∈ es → v.Holds w → (Value.array es).Holds w
  | key {ps : List (HashKey × (Value × Value))} {key : HashKey} {k v w : Value} :
      (key, (k, v)) ∈ ps → k.Holds w → (Value.hash ps).Holds w
  | value {ps : List (HashKey × (Value × Value))} {key : HashKey} {k v w : Value} :
      (key, (k, v)) ∈ ps → v.Holds w → (Value.hash ps).Holds w
  | returned {v w : Value} : v.Holds w → (Value.returned v).Holds w

namespace Scopes

/-- What a scope itself binds a name to. -/
def bound? (s : Scopes) (i : Nat) (y : String) : Option Value :=
  s.row[i]?.bind fun scope => scope.bindings.get? y

/-- The scope can be reached from the scope `r`: it is `r`, it lies around a scope that can be
reached, or it is the scope of a function that is bound in such a scope. -/
inductive Reaches (s : Scopes) (r : Nat) : Nat → Prop where
  | here : s.Reaches r r
  | outer {i o : Nat} : s.Reaches r i → s.outer? i = some o → s.Reaches r o
  | function {i j : Nat} {y : String} {v : Value} {params : List String} {body : Block} :
      s.Reaches r i → s.bound? i y = some v → v.Holds (.function params body j) → s.Reaches r j

/-- No function that can be reached from the scope `r` reads the name. -/
def Unread (s : Scopes) (r : Nat) (x : String) : Prop :=
  ∀ {i j : Nat} {y : String} {v : Value} {params : List String} {body : Block},
    s.Reaches r i → s.bound? i y = some v → v.Holds (.function params body j) → x ∉ body.names

end Scopes

/-! ## 2. Looking alike with the same numbers -/

section

variable {ρ : Pairing} {xs : List String}

mutual

theorem Value.alike_self : (v : Value) →
    (∀ {params body j}, v.Holds (.function params body j) →
      body.names.Disjoint xs ∧ ρ.rel j j) → v.Alike ρ xs v
  | .null, _ => .null
  | .int n, _ => .int n
  | .bool b, _ => .bool b
  | .str s, _ => .str s
  | .builtin b, _ => .builtin b
  | .error m, _ => .error m
  | .array es, h => .array (allAlike_self es fun hv hf => h (.element hv hf))
  | .hash ps, h =>
    .hash (pairsAlike_self ps (fun hp hf => h (.key hp hf)) fun hp hf => h (.value hp hf))
  | .function params body j, h => by
    obtain ⟨hbody, hj⟩ := h (.self (.function params body j))
    exact .function hbody hj
  | .returned v, h => .returned (v.alike_self fun hf => h (.returned hf))

theorem allAlike_self : (vs : List Value) →
    (∀ {v params body j}, v ∈ vs → v.Holds (.function params body j) →
      body.names.Disjoint xs ∧ ρ.rel j j) → AllAlike ρ xs vs vs
  | [], _ => .nil
  | v :: vs, h =>
    .cons (v.alike_self fun hf => h List.mem_cons_self hf)
      (allAlike_self vs fun hv hf => h (List.mem_cons_of_mem _ hv) hf)

theorem pairsAlike_self : (ps : List (HashKey × (Value × Value))) →
    (∀ {key k v params body j}, (key, (k, v)) ∈ ps → k.Holds (.function params body j) →
      body.names.Disjoint xs ∧ ρ.rel j j) →
    (∀ {key k v params body j}, (key, (k, v)) ∈ ps → v.Holds (.function params body j) →
      body.names.Disjoint xs ∧ ρ.rel j j) → PairsAlike ρ xs ps ps
  | [], _, _ => .nil
  | (_, (k, v)) :: ps, hk, hv =>
    .cons (k.alike_self fun hf => hk List.mem_cons_self hf)
      (v.alike_self fun hf => hv List.mem_cons_self hf)
      (pairsAlike_self ps (fun hp hf => hk (List.mem_cons_of_mem _ hp) hf)
        fun hp hf => hv (List.mem_cons_of_mem _ hp) hf)

end

/-- Every scope corresponds to the scope with its own number, or to none. -/
def Pairing.Within (ρ : Pairing) : Prop := ∀ ⦃i j : Nat⦄, ρ.rel i j → i = j

mutual

theorem Value.Alike.eq (hρ : ρ.Within) {v w : Value} (h : v.Alike ρ xs w) : v = w := by
  cases h with
  | array hes => rw [hes.eq hρ]
  | hash hps => rw [hps.eq hρ]
  -- only here do the numbers of scopes come in
  | function _ hij => rw [hρ hij]
  | returned hv => rw [hv.eq hρ]
  | _ => rfl

theorem AllAlike.eq (hρ : ρ.Within) {vs ws : List Value} (h : AllAlike ρ xs vs ws) : vs = ws := by
  cases h with
  | nil => rfl
  | cons hv hvs => rw [hv.eq hρ, hvs.eq hρ]

theorem PairsAlike.eq (hρ : ρ.Within) {ps qs : List (HashKey × (Value × Value))}
    (h : PairsAlike ρ xs ps qs) : ps = qs := by
  cases h with
  | nil => rfl
  | cons hk hv hps => rw [hk.eq hρ, hv.eq hρ, hps.eq hρ]

end

theorem optionAlike_eq (hρ : ρ.Within) {v w : Option Value}
    (h : Option.Rel (Value.Alike ρ xs) v w) : v = w := by
  cases h with
  | none => rfl
  | some hv => rw [hv.eq hρ]

theorem Eval.EndsAlike.outcome_eq (hρ : ρ.Within) {x y : Eval (Option Value)} {s t : Scopes}
    (h : Eval.EndsAlike ρ xs (Option.Rel (Value.Alike ρ xs)) (x s) (y t)) :
    (x.outcome s).1 = (y.outcome t).1 ∧ (x.outcome s).2.Alike ρ xs (y.outcome t).2 := by
  unfold Eval.outcome
  generalize x s = p at h ⊢
  generalize y t = q at h ⊢
  cases h with
  | ok hv hst => exact ⟨congrArg Outcome.value (optionAlike_eq hρ hv), hst⟩
  | error hk hst =>
    cases hk with
    | fault f => exact ⟨rfl, hst⟩
    | returning hv => exact ⟨congrArg (Outcome.value ∘ some) (hv.eq hρ), hst⟩
    | missing => exact ⟨rfl, hst⟩
    | exhausted => exact ⟨rfl, hst⟩

end

/-! ## 3. A binding more -/

namespace Scopes

variable {s t : Scopes} {r : Nat} {x : String}

/-- The scopes that can be reached from the scope `r`, and those that are not there yet, correspond
to themselves. -/
def reached (s : Scopes) (r : Nat) : Pairing where
  rel i j := i = j ∧ (s.Reaches r i ∨ s.size ≤ i)
  lt_iff := by
    rintro i j k l ⟨rfl, -⟩ ⟨rfl, -⟩
    exact Iff.rfl

theorem reached_within (s : Scopes) (r : Nat) : (s.reached r).Within := fun _ _ h => h.1

theorem Reaches.rel {i : Nat} (h : s.Reaches r i) : (s.reached r).rel i i := ⟨rfl, .inl h⟩

/-- What is bound in a scope that can be reached looks like itself. -/
theorem Reaches.alike_bound {i : Nat} (h : s.Reaches r i) (hx : s.Unread r x) {y : String}
    {v : Value} (hv : s.bound? i y = some v) : v.Alike (s.reached r) [x] v := by
  apply v.alike_self
  intro params body j hf
  exact ⟨List.disjoint_singleton.mpr (hx h hv hf), (h.function hv hf).rel⟩

theorem Reaches.alike_scope {i : Nat} (h : s.Reaches r i) (hx : s.Unread r x) {a : Scope}
    (ha : s.row[i]? = some a) : a.Alike (s.reached r) [x] a where
  get? y _ := by
    have hbound : s.bound? i y = a.bindings.get? y := by rw [bound?, ha, Option.bind_some]
    cases hget : a.bindings.get? y with
    | none => exact .none
    | some v => exact .some (h.alike_bound hx (hbound.trans hget))
  outer := by
    have houter : s.outer? i = a.outer := by rw [outer?, ha, Option.bind_some]
    cases ho : a.outer with
    | none => exact .none
    | some o => exact .some (h.outer (houter.trans ho)).rel

/-- A state looks like itself with a name bound that nobody reads. -/
theorem Unread.alike_define (hx : s.Unread r x) (v : Value) :
    s.Alike (s.reached r) [x] (s.define r x v) where
  scope {i j} hij := by
    obtain ⟨rfl, hi⟩ := hij
    have hsame (h : s.Reaches r i) :
        Option.Rel (Scope.Alike (s.reached r) [x]) s.row[i]? s.row[i]? := by
      cases ha : s.row[i]? with
      | none => exact .none
      | some a => exact .some (h.alike_scope hx ha)
    by_cases hir : i = r
    · -- the scope of the new binding, which differs in the name `x` alone
      subst hir
      have hself := hsame .here
      rw [row_define_self]
      cases ha : s.row[i]? with
      | none => exact .none
      | some a =>
        rw [ha] at hself
        cases hself with
        | some haa =>
          refine .some ⟨fun y hy => ?_, haa.outer⟩
          have hyx : x ≠ y := fun h => hy (List.mem_singleton.mpr h.symm)
          rw [Table.get?_insert_of_ne _ _ hyx]
          exact haa.get? y hy
    · rw [row_define_of_ne _ _ _ hir]
      rcases hi with hi | hi
      · exact hsame hi
      · rw [Array.getElem?_eq_none hi]
        exact .none
  fresh k := by
    rw [size_define]
    exact ⟨rfl, .inr (Nat.le_add_right _ _)⟩

/-- The scopes lie in each other in the same way and bind all names but `x` alike. -/
structure SameBut (x : String) (s t : Scopes) : Prop where
  size_eq : s.size = t.size
  outer?_eq : ∀ i, s.outer? i = t.outer? i
  bound?_eq : ∀ i y, y ≠ x → s.bound? i y = t.bound? i y

/-- Scopes that correspond to themselves agree in all but the name. -/
theorem Alike.agree {ρ : Pairing} (h : s.Alike ρ [x] t) (hρ : ρ.Within) {i : Nat}
    (hi : ρ.rel i i) :
    s.outer? i = t.outer? i ∧ ∀ y, y ≠ x → s.bound? i y = t.bound? i y := by
  have hscope := h.scope hi
  unfold outer? bound?
  generalize s.row[i]? = a at hscope ⊢
  generalize t.row[i]? = b at hscope ⊢
  cases hscope with
  | none => exact ⟨rfl, fun _ _ => rfl⟩
  | @some a b hab =>
    refine ⟨?_, fun y hy => optionAlike_eq hρ (hab.get? y (by simpa using hy))⟩
    have houter := hab.outer
    show a.outer = b.outer
    generalize a.outer = o at houter ⊢
    generalize b.outer = o' at houter ⊢
    cases houter with
    | none => rfl
    | some ho => rw [hρ ho]

end Scopes

/-- Of the scopes that are there, a program changes only the one it is evaluated in. -/
theorem Program.row_outcome (depth : Nat) (p : Program) {s : Scopes} {i r : Nat} (hi : i < s.size)
    (hne : i ≠ r) : ((p.eval depth r).outcome s).2.row[i]? = s.row[i]? := by
  have hframed : s.Framed r (stmtsLets p.statements) ((p.eval depth r).final s) :=
    p.eval_framed depth r s
  rw [Eval.outcome_snd]
  exact hframed.row_eq i hi hne

/-- At any limit of depth, the two runs come to the same outcome. -/
theorem Scopes.Unread.outcome_define {s : Scopes} {r : Nat} {x : String} (hs : s.Unread r x)
    {p : Program} (hp : x ∉ stmtsNames p.statements) (v : Value) (depth : Nat) :
    ((p.eval depth r).outcome (s.define r x v)).1 = ((p.eval depth r).outcome s).1 ∧
    ((p.eval depth r).outcome s).2.SameBut x ((p.eval depth r).outcome (s.define r x v)).2 := by
  have hwithin := s.reached_within r
  have hrel : (s.reached r).rel r r := Scopes.Reaches.here.rel
  obtain ⟨houtcome, hend⟩ := Eval.EndsAlike.outcome_eq hwithin
    (p.eval_alike depth hrel (List.disjoint_singleton.mpr hp) s (s.define r x v)
      (hs.alike_define v))
  have hagree (i : Nat) :
      ((p.eval depth r).outcome s).2.outer? i =
        ((p.eval depth r).outcome (s.define r x v)).2.outer? i ∧
      ∀ y, y ≠ x → ((p.eval depth r).outcome s).2.bound? i y =
        ((p.eval depth r).outcome (s.define r x v)).2.bound? i y := by
    by_cases hi : (s.reached r).rel i i
    · exact hend.agree hwithin hi
    · -- a scope that cannot be reached: both runs leave it as it was
      have hne : i ≠ r := fun h => hi (h ▸ hrel)
      have hlt : i < s.size := Nat.lt_of_not_le fun h => hi ⟨rfl, .inr h⟩
      have hlt' : i < (s.define r x v).size := by rwa [Scopes.size_define]
      unfold Scopes.outer? Scopes.bound?
      rw [p.row_outcome depth hlt hne, p.row_outcome depth hlt' hne,
        Scopes.row_define_of_ne _ _ _ hne]
      exact ⟨rfl, fun _ _ => rfl⟩
  exact ⟨houtcome.symm, hwithin (hend.fresh 0), fun i => (hagree i).1, fun i => (hagree i).2⟩

/-- The evaluation ends if calls may nest deeply enough. -/
def Program.Terminates (p : Program) (r : Nat) (s : Scopes) : Prop :=
  ∃ depth, ((p.eval depth r).outcome s).1 ≠ .exhausted

/-- A name is bound in the scope of a program that does not read it, and no function reads it that
can be reached from this scope.  Then the program ends exactly if it ends without the binding, and
comes to the same value or error.  The states that are left have the same scopes, and these bind
every other name to the same values. -/
theorem Program.eval_define_unread (p : Program) (s : Scopes) (r : Nat) (x : String) (v : Value)
    (hp : x ∉ stmtsNames p.statements) (hs : s.Unread r x) :
    (p.Terminates r (s.define r x v) ↔ p.Terminates r s) ∧
    ∀ depth,
      let bound := (p.eval depth r).outcome (s.define r x v)
      let without := (p.eval depth r).outcome s
      bound.1 = without.1 ∧ without.2.SameBut x bound.2 := by
  have hsame := hs.outcome_define hp v
  refine ⟨?_, hsame⟩
  simp only [Program.Terminates, (hsame _).1]

/-- The function `fn(a) { a + b }`, made in the first scope. -/
def adder : Value :=
  .function ["a"] (.mk ⟨.lbrace, "\x7b"⟩ [.expr ⟨.ident, "a"⟩
    (.binary ⟨.plus, "+"⟩ (.ident ⟨.ident, "a"⟩ "a") .add (.ident ⟨.ident, "b"⟩ "b"))]) 0

/-- One scope, in which an array of this function is bound. -/
def adderScopes : Scopes := (Scopes.fresh.define 0 "fs" (.array [adder])).define 0 "b" (.int 1)

theorem Program.eval_define_unread_adder :
    "len" ∉ stmtsNames (parse false "let c = fs[0](2); c").program.statements ∧
    adderScopes.Unread 0 "len" ∧
    (((parse false "let c = fs[0](2); c").program.eval 1 0).outcome
      (adderScopes.define 0 "len" .null)).1 = .value (some (.int 3)) := by
  have hp : "len" ∉ stmtsNames (parse false "let c = fs[0](2); c").program.statements := by
    have hnames : stmtsNames (parse false "let c = fs[0](2); c").program.statements =
        ["fs", "c"] := by cbv
    rw [hnames]
    decide
  have hbound {i : Nat} {y : String} {w : Value} (h : adderScopes.bound? i y = some w) :
      w = .array [adder] ∨ w = .int 1 := by
    cases i with
    | succ i => cases h
    | zero =>
      have hget : Table.get? [("fs", .array [adder]), ("b", .int 1)] y = some w := h
      simp only [Table.get?] at hget
      split_ifs at hget
      · exact .inl (Option.some.inj hget).symm
      · exact .inr (Option.some.inj hget).symm
  have hs : adderScopes.Unread 0 "len" := by
    intro i j y w params body _ hw hf
    rcases hbound hw with rfl | rfl
    · cases hf with
      | element hmem hf =>
        rw [List.mem_singleton.mp hmem] at hf
        cases hf with
        | self => decide
    · cases hf
  have hwithout : (((parse false "let c = fs[0](2); c").program.eval 1 0).outcome
      adderScopes).1 = .value (some (.int 3)) := by cbv
  exact ⟨hp, hs, ((Program.eval_define_unread _ _ 0 "len" .null hp hs).2 1).1.trans hwithout⟩

end Monkey

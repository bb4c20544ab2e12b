import Mathlib
import Monkey.Proofs.Interpreter

/-!
# Integer arithmetic

Integers are 64-bit words, and every operation wraps around.  A tree of signs, sums, differences and
products also has a value over the unbounded integers.  Reducing an integer to a word commutes with
each of these operations, so the word that the tree comes to depends on the unbounded value alone,
however often a result on the way wraps around.  With division it does not commute: a quotient is a
quotient of words.
-/

namespace Monkey

/-- The tree is built from integer literals, names of integers, signs, sums, differences and
products, and `a` is its value over the unbounded integers. -/
inductive Expr.Exact (s : Scopes) (scope : Nat) : Expr → Int → Prop where
  | int (t : Token) (n : Int64) : Exact s scope (.int t n) n.toInt
  | ident (t : Token) {x : String} {n : Int64} :
      s.get? scope x = some (.int n) → Exact s scope (.ident t x) n.toInt
  | neg (t : Token) {e : Expr} {a : Int} :
      Exact s scope e a → Exact s scope (.unary t .neg e) (-a)
  | add (t : Token) {l r : Expr} {a b : Int} :
      Exact s scope l a → Exact s scope r b → Exact s scope (.binary t l .add r) (a + b)
  | sub (t : Token) {l r : Expr} {a b : Int} :
      Exact s scope l a → Exact s scope r b → Exact s scope (.binary t l .sub r) (a - b)
  | mul (t : Token) {l r : Expr} {a b : Int} :
      Exact s scope l a → Exact s scope r b → Exact s scope (.binary t l .mul r) (a * b)

/-- A word counts up to `2 ^ 64` before it comes back to 0. -/
theorem ofNat_eq_zero_iff {n : Nat} (hn : n < 2 ^ 64) : Int64.ofNat n = 0 ↔ n = 0 := by
  constructor
  · intro h
    have hzero : (Int64.ofNat n).toInt = 0 := by rw [h]; rfl
    rw [Int64.toInt_ofNat'] at hzero
    have hdvd : 2 ^ 64 ∣ n := Int.natCast_dvd_natCast.mp (Int.dvd_of_bmod_eq_zero hzero)
    exact Nat.eq_zero_of_dvd_of_lt hdvd hn
  · rintro rfl
    rfl

section

variable {call : Value → List Value → Eval Value} {s : Scopes} {scope : Nat}

theorem readName_of_get? {x : String} {v : Value} (hx : s.get? scope x = some v) :
    readName scope x s = .ok v s := by
  have hget : (get : Eval Scopes) s = .ok s s := rfl
  rw [readName, Eval.bind_of_ok hget, hx]
  rfl

theorem Expr.eval_binary {t : Token} {l r : Expr} {op : BinaryOp} {v w : Value} {s₁ s₂ : Scopes}
    (hl : l.eval call scope s = .ok v s₁) (hr : r.eval call scope s₁ = .ok w s₂) :
    (Expr.binary t l op r).eval call scope s = Eval.ofExcept (op.apply v w) s₂ := by
  rw [Expr.eval, Eval.bind_of_ok hl, Eval.bind_of_ok hr]

/-- The induction is on the tree: at each node the words of the parts are put together, and the
reduction of the whole is what comes out. -/
theorem Expr.Exact.eval {e : Expr} {a : Int} (h : e.Exact s scope a) :
    e.eval call scope s = .ok (.int (Int64.ofInt a)) s := by
  induction h with
  | int t n =>
    rw [Int64.ofInt_toInt, Expr.eval]
    rfl
  | ident t hx =>
    rw [Int64.ofInt_toInt, Expr.eval]
    exact readName_of_get? hx
  | neg t _ ih =>
    rw [Int64.ofInt_neg, Expr.eval, Eval.bind_of_ok ih]
    rfl
  | add t _ _ ihl ihr =>
    rw [Int64.ofInt_add, Expr.eval_binary ihl ihr]
    rfl
  | sub t _ _ ihl ihr =>
    rw [Int64.ofInt_sub, Expr.eval_binary ihl ihr]
    rfl
  | mul t _ _ ihl ihr =>
    rw [Int64.ofInt_mul, Expr.eval_binary ihl ihr]
    rfl

/-- A quotient is taken of the words, and only by a word other than zero. -/
theorem Expr.Exact.eval_div (t : Token) {l r : Expr} {a b : Int} (hl : l.Exact s scope a)
    (hr : r.Exact s scope b) :
    (Expr.binary t l .div r).eval call scope s =
      if b.bmod (2 ^ 64) = 0 then .error (.fault .divisionByZero) s
      else .ok (.int (Int64.ofInt a / Int64.ofInt b)) s := by
  have hzero : Int64.ofInt b = 0 ↔ b.bmod (2 ^ 64) = 0 := by
    rw [← Int64.toInt_inj, Int64.toInt_ofInt]
    rfl
  rw [Expr.eval_binary hl.eval hr.eval]
  show Eval.ofExcept (if Int64.ofInt b = 0 then _ else _) s = _
  by_cases hb : b.bmod (2 ^ 64) = 0
  · rw [if_pos hb, if_pos (hzero.mpr hb)]
    rfl
  · rw [if_neg hb, if_neg (mt hzero.mp hb)]
    rfl

theorem outcome_expr_of_ok {depth : Nat} {e : Expr} {v : Value} {s' : Scopes}
    (he : e.eval (applyWithin depth) scope s = .ok v s') :
    ((Node.expr e).eval depth scope).outcome s = (.value (some v), s') := by
  apply Eval.outcome_of_ok
  rw [Node.eval, Eval.bind_of_ok he]
  rfl

theorem outcome_expr_of_fault {depth : Nat} {e : Expr} {f : Fault} {s' : Scopes}
    (he : e.eval (applyWithin depth) scope s = .error (.fault f) s') :
    ((Node.expr e).eval depth scope).outcome s = (.value (some (.error f.message)), s') := by
  apply Eval.outcome_of_fault
  rw [Node.eval, Eval.bind_of_error he]

end

/-- A tree of signs, sums, differences and products comes to the word of its unbounded value, taken
modulo `2 ^ 64` into the range from `-2 ^ 63` to `2 ^ 63`, and changes nothing.  A quotient of two
such trees is an error exactly if the word of the divisor is zero.  Otherwise it is the quotient of
the two words, toward zero and back in the range; the least integer divided by `-1` is itself. -/
theorem Expr.eval_exact (depth scope : Nat) (s : Scopes) :
    (∀ (e : Expr) (a : Int), e.Exact s scope a →
      ∃ n : Int64, n.toInt = a.bmod (2 ^ 64) ∧
        ((Node.expr e).eval depth scope).outcome s = (.value (some (.int n)), s)) ∧
    ∀ (t : Token) (l r : Expr) (a b : Int), l.Exact s scope a → r.Exact s scope b →
      let outcome := ((Node.expr (.binary t l .div r)).eval depth scope).outcome s
      (outcome = (.value (some (.error "division by zero")), s) ↔ b.bmod (2 ^ 64) = 0) ∧
      (b.bmod (2 ^ 64) ≠ 0 →
        ∃ q : Int64, q.toInt = ((a.bmod (2 ^ 64)).tdiv (b.bmod (2 ^ 64))).bmod (2 ^ 64) ∧
          outcome = (.value (some (.int q)), s)) ∧
      (a.bmod (2 ^ 64) = -2 ^ 63 → b.bmod (2 ^ 64) = -1 →
        outcome = (.value (some (.int Int64.minValue)), s)) := by
  constructor
  · intro e a he
    exact ⟨Int64.ofInt a, Int64.toInt_ofInt, outcome_expr_of_ok he.eval⟩
  intro t l r a b hl hr
  have hdiv : (Expr.binary t l .div r).eval (applyWithin depth) scope s = _ :=
    Exact.eval_div t hl hr
  by_cases hb : b.bmod (2 ^ 64) = 0
  · rw [if_pos hb] at hdiv
    have houtcome := outcome_expr_of_fault hdiv
    refine ⟨⟨fun _ => hb, fun _ => houtcome⟩, fun hne => absurd hb hne, fun _ hone => ?_⟩
    rw [hb] at hone
    omega
  · rw [if_neg hb] at hdiv
    have houtcome := outcome_expr_of_ok hdiv
    have hquotient : (Int64.ofInt a / Int64.ofInt b).toInt =
        ((a.bmod (2 ^ 64)).tdiv (b.bmod (2 ^ 64))).bmod (2 ^ 64) := by
      rw [Int64.toInt_div, Int64.toInt_ofInt, Int64.toInt_ofInt]
      rfl
    refine ⟨?_, fun _ => ⟨_, hquotient, houtcome⟩, fun ha hone => ?_⟩
    · rw [houtcome]
      constructor
      · intro h
        cases h
      · intro h
        exact absurd h hb
    · -- the one quotient that leaves the range
      have hleast : Int64.ofInt a / Int64.ofInt b = Int64.minValue := by
        rw [← Int64.toInt_inj, hquotient, ha, hone]
        decide
      rw [houtcome, hleast]

/-- One scope, in which `x` is the greatest integer. -/
def greatestBound : Scopes := Scopes.fresh.define 0 "x" (.int Int64.maxValue)

/-- The tree of `x + 1`. -/
def greatestPlusOne : Expr :=
  .binary ⟨.plus, "+"⟩ (.ident ⟨.ident, "x"⟩ "x") .add (.int ⟨.int, "1"⟩ 1)

/-- The tree of `-1`. -/
def minusOne : Expr := .unary ⟨.minus, "-"⟩ .neg (.int ⟨.int, "1"⟩ 1)

theorem Expr.eval_exact_greatestPlusOne :
    greatestPlusOne.Exact greatestBound 0 (2 ^ 63) ∧ minusOne.Exact greatestBound 0 (-1) ∧
    ((Node.expr (.binary ⟨.slash, "/"⟩ greatestPlusOne .div minusOne)).eval 0 0).outcome
      greatestBound = (.value (some (.int Int64.minValue)), greatestBound) := by
  have hx : greatestBound.get? 0 "x" = some (.int Int64.maxValue) := by cbv
  have hsum : greatestPlusOne.Exact greatestBound 0 (2 ^ 63) := .add _ (.ident _ hx) (.int _ 1)
  have hone : minusOne.Exact greatestBound 0 (-1) := .neg _ (.int _ 1)
  have hquotient := (Expr.eval_exact 0 0 greatestBound).2 ⟨.slash, "/"⟩ _ _ _ _ hsum hone
  exact ⟨hsum, hone, hquotient.2.2 (by decide) (by decide)⟩

end Monkey

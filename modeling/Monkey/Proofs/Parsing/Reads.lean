import Monkey.Parsing

/-!
# Parsing without errors

`r.Reads v rest` says that the result `r` is the value `v`, that `rest` is left, and that no error
was met.  There is one lemma for each way to put results together, so what a rule of the grammar
reads follows from what its parts read.
-/

namespace Monkey

/-- How tightly the next token binds what stands before it. -/
def nextRank (ts : List Token) : Nat := (nextKind ts).level.rank

@[simp] theorem nextRank_cons (t : Token) (ts : List Token) :
    nextRank (t :: ts) = t.kind.level.rank := rfl

/-- A token that is expected next, and is not the end, can be split off. -/
theorem exists_cons_of_nextKind {ts : List Token} {k : Token.Kind} (h : nextKind ts = k)
    (hk : k ≠ .eof) : ∃ t us, ts = t :: us ∧ t.kind = k := by
  cases ts with
  | nil => exact absurd h.symm hk
  | cons t us => exact ⟨t, us, rfl, h⟩

/-- The end of the text continues nothing. -/
theorem exists_cons_of_nextRank {ts : List Token} {n : Nat} (h : n < nextRank ts) :
    ∃ t us, ts = t :: us := by
  cases ts with
  | nil => exact absurd h (Nat.not_lt_zero n)
  | cons t us => exact ⟨t, us, rfl⟩

namespace Parsed

variable {α β : Type} {m n : Nat}

/-- The value is `v`, the tokens `rest` are left, and no error was met. -/
def Reads (r : Parsed α n) (v : α) (rest : List Token) : Prop :=
  r.value = v ∧ r.rest = rest ∧ r.errors = []

theorem reads_of_errors_eq_nil {r : Parsed α n} (h : r.errors = []) : r.Reads r.value r.rest :=
  ⟨rfl, rfl, h⟩

theorem Reads.length_le {r : Parsed α n} {v : α} {rest : List Token} (h : r.Reads v rest) :
    rest.length ≤ n := by
  rw [← h.2.1]
  exact r.bound

/-! ## Putting results together -/

@[simp] theorem reads_done {a v : α} {us rest : List Token} {h : us.length ≤ n} :
    (done a us h).Reads v rest ↔ a = v ∧ us = rest := by
  simp [Reads, done]

@[simp] theorem reads_failed {e : ParseError} {v : Option α} {us rest : List Token}
    {h : us.length ≤ n} : (failed e us h).Reads v rest ↔ False := by
  simp [Reads, failed]

@[simp] theorem reads_andThen {r : Parsed α m}
    {next : α → (ts : List Token) → ts.length ≤ m → Parsed β n} {v : β} {rest : List Token} :
    (r.andThen next).Reads v rest ↔
      ∃ a us, ∃ h : us.length ≤ m, r.Reads a us ∧ (next a us h).Reads v rest := by
  constructor
  · rintro ⟨hv, hr, he⟩
    obtain ⟨h1, h2⟩ := List.append_eq_nil_iff.mp he
    exact ⟨r.value, r.rest, r.bound, ⟨rfl, rfl, h1⟩, hv, hr, h2⟩
  · rintro ⟨a, us, h, ⟨rfl, rfl, h1⟩, hv, hr, h2⟩
    exact ⟨hv, hr, List.append_eq_nil_iff.mpr ⟨h1, h2⟩⟩

@[simp] theorem reads_map {f : α → β} {r : Parsed α n} {v : β} {rest : List Token} :
    (r.map f).Reads v rest ↔ ∃ a, r.Reads a rest ∧ f a = v := by
  constructor
  · rintro ⟨hv, hr, he⟩
    exact ⟨r.value, ⟨rfl, hr, he⟩, hv⟩
  · rintro ⟨a, ⟨rfl, hr, he⟩, hv⟩
    exact ⟨hv, hr, he⟩

@[simp] theorem reads_widen {r : Parsed α m} {h : m ≤ n} {v : α} {rest : List Token} :
    (r.widen h).Reads v rest ↔ r.Reads v rest := Iff.rfl

@[simp] theorem reads_traced {tracing : Bool} {rule : Rule} {r : Parsed α n} {v : α}
    {rest : List Token} : (traced tracing rule r).Reads v rest ↔ r.Reads v rest := Iff.rfl

@[simp] theorem reads_ite {c : Prop} [Decidable c] {r s : Parsed α n} {v : α} {rest : List Token} :
    (if c then r else s).Reads v rest ↔ (c ∧ r.Reads v rest) ∨ (¬c ∧ s.Reads v rest) := by
  by_cases hc : c
  · simp only [hc, if_true, true_and, not_true_eq_false, false_and, or_false]
  · simp only [hc, if_false, false_and, not_false_eq_true, true_and, false_or]

@[simp] theorem reads_expecting {want : Token.Kind} {ts : List Token} {h : ts.length ≤ n}
    {next : Token → (rest : List Token) → rest.length < ts.length → Parsed (Option α) n}
    {v : Option α} {rest : List Token} :
    (expecting want ts h next).Reads v rest ↔
      ∃ t us, ∃ hu : us.length < ts.length,
        ts = t :: us ∧ t.kind = want ∧ (next t us hu).Reads v rest := by
  cases ts with
  | nil => simp [expecting]
  | cons t us =>
    simp only [expecting]
    by_cases hk : t.kind = want
    · rw [if_pos hk]
      constructor
      · intro hr
        exact ⟨t, us, Nat.lt_succ_self _, rfl, hk, hr⟩
      · rintro ⟨t', us', hu, he, -, hr⟩
        cases he
        exact hr
    · rw [if_neg hk]
      simp only [reads_failed, false_iff]
      rintro ⟨t', us', hu, he, hk', -⟩
      cases he
      exact hk hk'

/-! ## Lists -/

section

variable {close : Token.Kind}
  {element : (ts : List Token) → ts.length ≤ m → Parsed (Option α) (ts.length - 1)}

/-- What a list reads, given what its elements read: `P` says it of an element, `Q` of one or more
elements up to the closing token. -/
theorem exists_of_reads_items {P : List Token → α → List Token → Prop}
    {Q : List Token → List α → List Token → Prop}
    (helement : ∀ ts h v us, (element ts h).Reads v us → ∃ a, v = some a ∧ P ts a us)
    (hlast : ∀ ts a c rest, P ts a (c :: rest) → c.kind = close → Q ts [a] rest)
    (hmore : ∀ ts a c us as rest, P ts a (c :: us) → c.kind = .comma → Q us as rest →
      Q ts (a :: as) rest)
    (ts : List Token) (h : ts.length ≤ m) {v : Option (List α)} {rest : List Token}
    (hr : (items close element ts h).Reads v rest) : ∃ as, v = some as ∧ Q ts as rest := by
  rw [items] at hr
  obtain ⟨first, us, hu, hfirst, hr⟩ := reads_andThen.mp hr
  obtain ⟨a, rfl, ha⟩ := helement ts h first us hfirst
  -- after an element stands a comma and more of them, or else the closing token
  split at hr
  · rename_i hc
    obtain ⟨c, us, rfl, hk⟩ := exists_cons_of_nextKind hc (by decide)
    rw [reads_widen, reads_map] at hr
    obtain ⟨others, hothers, hv⟩ := hr
    obtain ⟨as, rfl, has⟩ := exists_of_reads_items helement hlast hmore us _ hothers
    exact ⟨a :: as, hv.symm, hmore ts a c us as rest ha hk has⟩
  · obtain ⟨c, vs, hv, rfl, hk, hd⟩ := reads_expecting.mp hr
    obtain ⟨hv, rfl⟩ := reads_done.mp hd
    exact ⟨[a], hv.symm, hlast ts a c vs ha hk⟩
termination_by ts.length
decreasing_by simp only [List.length_cons] at hu; omega

theorem reads_items_last {ts rest : List Token} {h : ts.length ≤ m} {a : α} {c : Token}
    (ha : (element ts h).Reads (some a) (c :: rest)) (hc : c.kind = close)
    (hclose : close ≠ .comma) : (items close element ts h).Reads (some [a]) rest := by
  rw [items, reads_andThen]
  refine ⟨some a, c :: rest, ha.length_le, ha, ?_⟩
  rw [dif_neg (by rw [nextKind_cons, hc]; exact hclose), reads_expecting]
  exact ⟨c, rest, Nat.lt_succ_self _, rfl, hc, reads_done.mpr ⟨rfl, rfl⟩⟩

theorem reads_items_more {ts us rest : List Token} {h : ts.length ≤ m} {h' : us.length ≤ m} {a : α}
    {c : Token} {as : List α} (ha : (element ts h).Reads (some a) (c :: us))
    (hc : c.kind = .comma) (has : (items close element us h').Reads (some as) rest) :
    (items close element ts h).Reads (some (a :: as)) rest := by
  rw [items, reads_andThen]
  refine ⟨some a, c :: us, ha.length_le, ha, ?_⟩
  rw [dif_pos (by rw [nextKind_cons, hc]), reads_widen, reads_map]
  exact ⟨some as, has, rfl⟩

end

end Parsed

/-! ## Expressions and the operators after them -/

section

open Parsed Grammar

variable {tracing : Bool} {level : Level}

theorem reads_expression {ts rest : List Token} {v : Option Expr} :
    (expression tracing level ts).Reads v rest ↔
      ∃ t us first ws, ts = t :: us ∧ t.kind.startsExpr = true ∧
        (operand tracing t us).Reads first ws ∧
        (operators tracing level first ws).Reads v rest := by
  cases ts with
  | nil =>
    rw [expression.eq_def]
    simp
  | cons t us =>
    rw [expression.eq_def]
    simp only [reads_traced, reads_ite, reads_andThen, reads_widen, reads_failed, and_false,
      or_false]
    constructor
    · rintro ⟨hs, first, ws, hw, hfirst, hr⟩
      exact ⟨t, us, first, ws, rfl, hs, hfirst, hr⟩
    · rintro ⟨t', us', first, ws, he, hs, hfirst, hr⟩
      cases he
      exact ⟨hs, first, ws, hfirst.length_le, hfirst, hr⟩

/-- The operators end where the next token does not bind tightly enough. -/
theorem reads_operators_of_le {left v : Option Expr} {ts rest : List Token}
    (h : nextRank ts ≤ level.rank) :
    (operators tracing level left ts).Reads v rest ↔ left = v ∧ ts = rest := by
  cases ts with
  | nil =>
    rw [operators.eq_def]
    exact reads_done
  | cons t us =>
    rw [operators.eq_def]
    rw [nextRank_cons] at h
    simp only [if_neg (Nat.not_lt.mpr h), reads_done]

/-- A token that binds tightly enough goes with the operand before it. -/
theorem reads_operators_of_lt {left v : Option Expr} {t : Token} {us rest : List Token}
    (h : level.rank < t.kind.level.rank) :
    (operators tracing level left (t :: us)).Reads v rest ↔
      ∃ whole ws, (operator tracing left t us).Reads whole ws ∧
        (operators tracing level whole ws).Reads v rest := by
  rw [operators.eq_def]
  simp only [if_pos h, reads_andThen, reads_widen]
  constructor
  · rintro ⟨whole, ws, hw, hwhole, hr⟩
    exact ⟨whole, ws, hwhole, hr⟩
  · rintro ⟨whole, ws, hwhole, hr⟩
    exact ⟨whole, ws, hwhole.length_le, hwhole, hr⟩

end

end Monkey

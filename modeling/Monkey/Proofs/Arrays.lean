import Mathlib
import Monkey.Proofs.Evaluation.Arithmetic

/-!
# Arrays

An array can be looked into by indexing and by the built-in functions `first`, `last`, `rest` and
`len`, and it grows by `push`.  Each of them does its own arithmetic at the ends: some give `null`
for the empty array, `rest` of one element is an empty array, and an index is a word that may lie
anywhere.  Here they are tied to one another: they all describe one list.
-/

namespace Monkey

open Builtin (first last len push rest)

/-! ## 1. Elements from the front -/

/-- `rest` applied `n` times, each time to what it gave before. -/
def restTimes : Nat → Value → Except Fault Value
  | 0, v => .ok v
  | n + 1, v => do restTimes n (← rest.apply [v])

theorem restTimes_array (n : Nat) (es : List Value) (h : n ≤ es.length) :
    restTimes n (.array es) = .ok (.array (es.drop n)) := by
  induction n generalizing es with
  | zero => rfl
  | succ n ih =>
    cases es with
    | nil => simp at h
    | cons e es =>
      show restTimes n (.array es) = _
      rw [ih es (by simpa using h), List.drop_succ_cons]

namespace Value

theorem elementAt_of_nonneg {es : List Value} {i : Int64} (hi : 0 ≤ i.toInt) :
    elementAt es i = es[i.toInt.toNat]?.getD null := by
  unfold elementAt
  rw [if_neg (by omega)]

theorem elementAt_of_outside {es : List Value} {i : Int64}
    (hi : ¬(0 ≤ i.toInt ∧ i.toInt < es.length)) : elementAt es i = null := by
  by_cases hneg : i.toInt < 0
  · unfold elementAt
    rw [if_pos hneg]
  · rw [elementAt_of_nonneg (by omega), List.getElem?_eq_none (by omega)]
    rfl

/-- Between the two ends, what stands at an index is `first` of what `rest` leaves after as many
steps. -/
theorem atIndex_eq_first {es : List Value} {i : Int64} (hlow : 0 ≤ i.toInt)
    (hhigh : i.toInt < es.length) :
    ∃ a v, restTimes i.toInt.toNat (array es) = .ok a ∧ first.apply [a] = .ok v ∧
      (array es).atIndex (int i) = .ok v := by
  refine ⟨_, elementAt es i, restTimes_array _ es (by omega), ?_, rfl⟩
  show Except.ok ((es.drop i.toInt.toNat).head?.getD null) = _
  rw [List.head?_drop, elementAt_of_nonneg hlow]

/-! ## 2. A new element at the end -/

/-- One index comes to the new element, and every other one to what it came to before. -/
theorem elementAt_push (es : List Value) (x : Value) (i : Int64) :
    elementAt (es ++ [x]) i = if i.toInt = es.length then x else elementAt es i := by
  by_cases hneg : i.toInt < 0
  · rw [elementAt_of_outside (by omega), elementAt_of_outside (by omega), if_neg (by omega)]
  rw [elementAt_of_nonneg (by omega), elementAt_of_nonneg (by omega)]
  by_cases hend : i.toInt = es.length
  · have hlast : i.toInt.toNat = es.length := by omega
    rw [if_pos hend, hlast, List.getElem?_concat_length]
    rfl
  rw [if_neg hend]
  by_cases hin : i.toInt.toNat < es.length
  · rw [List.getElem?_append_left hin]
  · have hout : (es ++ [x]).length ≤ i.toInt.toNat := by
      simp only [List.length_append, List.length_singleton]
      omega
    rw [List.getElem?_eq_none hout, List.getElem?_eq_none (by omega)]

end Value

/-- `push` of the element to the first array gives the second one, as indexing and the other
built-in functions see them. -/
structure Pushed (es : List Value) (x : Value) (fs : List Value) : Prop where
  apply_push : push.apply [.array es, x] = .ok (.array fs)
  length_eq : fs.length = es.length + 1
  atIndex_eq : ∀ i : Int64, i.toInt ≠ es.length →
    (Value.array fs).atIndex (.int i) = (Value.array es).atIndex (.int i)
  last_eq : last.apply [.array fs] = .ok x
  first_eq : first.apply [.array fs] = if es = [] then .ok x else first.apply [.array es]
  rest_eq : es ≠ [] → ∃ a, rest.apply [.array es] = .ok a ∧
    rest.apply [.array fs] = push.apply [a, x]

theorem pushed_concat (es : List Value) (x : Value) : Pushed es x (es ++ [x]) where
  apply_push := rfl
  length_eq := List.length_append
  atIndex_eq i hi := by
    show Except.ok (Value.elementAt (es ++ [x]) i) = _
    rw [Value.elementAt_push, if_neg hi]
    rfl
  last_eq := by
    show Except.ok ((es ++ [x]).getLast?.getD .null) = _
    rw [List.getLast?_concat]
    rfl
  first_eq := by
    cases es with
    | nil => rfl
    | cons e es => rfl
  rest_eq hne := by
    cases es with
    | nil => exact absurd rfl hne
    | cons e es => exact ⟨.array es, rfl, rfl⟩

/-! ## 3. Copying an array -/

/-- A loop that takes an array apart: while `len` of what is left is not 0, `first` of it is pushed
to the copy, and `rest` of it is left. -/
inductive Copies : (left copy result : Value) → Prop where
  | done {left copy : Value} : len.apply [left] = .ok (.int 0) → Copies left copy copy
  | next {left left' copy copy' e result : Value} {n : Int64} :
      len.apply [left] = .ok (.int n) → n ≠ 0 → first.apply [left] = .ok e →
      push.apply [copy, e] = .ok copy' → rest.apply [left] = .ok left' →
      Copies left' copy' result → Copies left copy result

/-- The loop ends, and only with the copy. -/
theorem copies_iff {es : List Value} (hes : es.length < 2 ^ 64) (fs : List Value) (r : Value) :
    Copies (.array es) (.array fs) r ↔ r = .array (fs ++ es) := by
  induction es generalizing fs with
  | nil =>
    rw [List.append_nil]
    constructor
    · intro h
      cases h with
      | done _ => rfl
      | next hlen hn =>
        cases hlen
        exact absurd rfl hn
    · rintro rfl
      exact .done rfl
  | cons e es ih =>
    have hne : Int64.ofNat (e :: es).length ≠ 0 := by
      rw [Ne, ofNat_eq_zero_iff hes]
      exact Nat.succ_ne_zero es.length
    have ih := ih (Nat.lt_trans (Nat.lt_succ_self _) hes) (fs ++ [e])
    rw [List.append_assoc, List.singleton_append] at ih
    rw [← ih]
    constructor
    · intro h
      cases h with
      | done hlen => exact absurd (by injection hlen with hlen; injection hlen) hne
      | next _ _ hfirst hpush hrest h =>
        cases hfirst
        cases hpush
        cases hrest
        exact h
    · exact .next rfl hne rfl rfl rfl

/-- Indexing and the built-in functions of arrays describe one list, for an array of any length and
any word as an index.  `len` is the number of elements.  An index from 0 up to `len` comes to
`first` of what as many applications of `rest` leave, and any other one to `null`, never to an
error.  After `push` there is one more element, at the end, and the others are where they were.
Pushing `first` of what is left to an array that was empty, until `len` of what is left is 0, makes
the array again.  A word stands for `len`, so this needs an array of less than `2 ^ 64` elements. -/
theorem array_functions_agree (es : List Value) :
    (∃ n : Int64, len.apply [.array es] = .ok (.int n) ∧
      (es.length < 2 ^ 63 → n.toInt = es.length)) ∧
    (∀ i : Int64,
      (0 ≤ i.toInt → i.toInt < es.length →
        ∃ a v, restTimes i.toInt.toNat (.array es) = .ok a ∧ first.apply [a] = .ok v ∧
          (Value.array es).atIndex (.int i) = .ok v) ∧
      (¬(0 ≤ i.toInt ∧ i.toInt < es.length) →
        (Value.array es).atIndex (.int i) = .ok .null)) ∧
    (∀ x : Value, ∃ fs, Pushed es x fs) ∧
    (es.length < 2 ^ 64 → ∀ r, Copies (.array es) (.array []) r ↔ r = .array es) := by
  refine ⟨⟨_, rfl, ?_⟩, fun i => ⟨?_, ?_⟩, ?_, ?_⟩
  · intro hes
    exact Int64.toInt_ofNat_of_lt hes
  · intro hlow hhigh
    exact Value.atIndex_eq_first hlow hhigh
  · intro hi
    show Except.ok (Value.elementAt es i) = _
    rw [Value.elementAt_of_outside hi]
  · intro x
    exact ⟨es ++ [x], pushed_concat es x⟩
  · intro hes r
    exact copies_iff hes [] r

/-- Three elements of different kinds. -/
def threeValues : List Value := [.int 7, .str "a", .array []]

theorem array_functions_agree_three :
    (∃ a v, restTimes 2 (.array threeValues) = .ok a ∧ first.apply [a] = .ok v ∧
      (Value.array threeValues).atIndex (.int 2) = .ok v) ∧
    (Value.array threeValues).atIndex (.int (-1)) = .ok .null ∧
    ∀ r, Copies (.array threeValues) (.array []) r ↔ r = .array threeValues := by
  obtain ⟨-, hindex, -, hcopies⟩ := array_functions_agree threeValues
  exact ⟨(hindex 2).1 (by decide) (by decide), (hindex (-1)).2 (by decide), hcopies (by decide)⟩

end Monkey

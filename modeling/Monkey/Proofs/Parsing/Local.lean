import Monkey.Parsing

/-!
# Parsing with more tokens behind

A rule of the grammar that stops before the end of the text has seen all that it depends on: with
more tokens behind, it gives the same value and the same errors, and leaves those tokens as well.

There is one lemma for each way to put results together and one for each rule.  The rules call each
other on ever fewer tokens, so the induction is on the number of tokens.
-/

namespace Monkey

theorem nextKind_append {ts : List Token} (h : ts ≠ []) (us : List Token) :
    nextKind (ts ++ us) = nextKind ts := by
  cases ts with
  | nil => exact absurd rfl h
  | cons t ts => rfl

theorem skipSemicolon_append {ts : List Token} (h : ts ≠ []) (us : List Token) :
    skipSemicolon (ts ++ us) = skipSemicolon ts ++ us := by
  unfold skipSemicolon
  rw [nextKind_append h, List.tail_append_of_ne_nil h]
  split <;> rfl

namespace Parsed

variable {α β : Type} {m m' n n' : Nat} {more : List Token}

/-- `r'` is the result `r`, with `more` left behind what `r` leaves. -/
structure Extended (more : List Token) (r : Parsed α m) (r' : Parsed α m') : Prop where
  value : r'.value = r.value
  rest : r'.rest = r.rest ++ more
  errors : r'.errors = r.errors

/-- Unless `r` leaves nothing, `r'` is the same with `more` left as well. -/
def Local (more : List Token) (r : Parsed α m) (r' : Parsed α m') : Prop :=
  r.rest ≠ [] → Extended more r r'

/-! ## Putting results together -/

theorem extended_done {a : α} {ts ts' : List Token} {h : ts.length ≤ n} {h' : ts'.length ≤ n'}
    (hts : ts' = ts ++ more) : Extended more (done a ts h) (done a ts' h') :=
  ⟨rfl, hts, rfl⟩

theorem local_done {a : α} {ts : List Token} {h : ts.length ≤ n} {h' : (ts ++ more).length ≤ n'} :
    Local more (done a ts h) (done a (ts ++ more) h') :=
  fun _ => extended_done rfl

theorem local_failed {e : ParseError} {ts : List Token} {h : ts.length ≤ n}
    {h' : (ts ++ more).length ≤ n'} :
    Local more (failed (α := α) e ts h) (failed e (ts ++ more) h') :=
  fun _ => ⟨rfl, rfl, rfl⟩

theorem Extended.andThen {r : Parsed α m} {r' : Parsed α m'}
    {next : α → (ts : List Token) → ts.length ≤ m → Parsed β n}
    {next' : α → (ts : List Token) → ts.length ≤ m' → Parsed β n'} (hr : Extended more r r')
    (hnext : ∀ h',
      Extended more (next r.value r.rest r.bound) (next' r.value (r.rest ++ more) h')) :
    Extended more (r.andThen next) (r'.andThen next') := by
  obtain ⟨value', rest', errors', trace', bound'⟩ := r'
  obtain ⟨hvalue, hrest, herrors⟩ := hr
  dsimp only at hvalue hrest herrors
  subst hvalue hrest herrors
  obtain ⟨hv, hr, he⟩ := hnext bound'
  exact ⟨hv, hr, congrArg (r.errors ++ ·) he⟩

/-- What comes next is read from tokens, or else there is nothing left after it either. -/
theorem Local.andThen {r : Parsed α m} {r' : Parsed α m'}
    {next : α → (ts : List Token) → ts.length ≤ m → Parsed β n}
    {next' : α → (ts : List Token) → ts.length ≤ m' → Parsed β n'} (hr : Local more r r')
    (hnil : ∀ a h, (next a [] h).rest = [])
    (hnext : ∀ a ts h h', ts ≠ [] → Local more (next a ts h) (next' a (ts ++ more) h')) :
    Local more (r.andThen next) (r'.andThen next') := by
  intro hrest
  have hne : r.rest ≠ [] := by
    obtain ⟨value, rest, errors, trace, bound⟩ := r
    rintro rfl
    exact hrest (hnil value bound)
  exact (hr hne).andThen fun h' => hnext r.value r.rest r.bound h' hne hrest

theorem Local.map {r : Parsed α m} {r' : Parsed α m'} (h : Local more r r') (f : α → β) :
    Local more (r.map f) (r'.map f) := by
  intro hrest
  obtain ⟨hv, hr, he⟩ := h hrest
  exact ⟨congrArg f hv, hr, he⟩

theorem Local.widen {r : Parsed α m} {r' : Parsed α m'} (h : Local more r r') {hn : m ≤ n}
    {hn' : m' ≤ n'} : Local more (r.widen hn) (r'.widen hn') := by
  intro hrest
  obtain ⟨hv, hr, he⟩ := h hrest
  exact ⟨hv, hr, he⟩

theorem Local.traced {r : Parsed α m} {r' : Parsed α m'} (h : Local more r r') {tracing : Bool}
    {rule : Rule} : Local more (traced tracing rule r) (traced tracing rule r') := by
  intro hrest
  obtain ⟨hv, hr, he⟩ := h hrest
  exact ⟨hv, hr, he⟩

/-- A choice that does not depend on what stands behind. -/
theorem Local.ite {c c' : Prop} [Decidable c] [Decidable c'] {r s : Parsed α m}
    {r' s' : Parsed α m'} (hc : c' ↔ c) (hr : c → Local more r r') (hs : ¬c → Local more s s') :
    Local more (if c then r else s) (if c' then r' else s') := by
  by_cases h : c
  · rw [if_pos h, if_pos (hc.mpr h)]
    exact hr h
  · rw [if_neg h, if_neg (mt hc.mp h)]
    exact hs h

theorem local_expecting {want : Token.Kind} {ts : List Token} {h : ts.length ≤ n}
    {h' : (ts ++ more).length ≤ n'}
    {next : Token → (us : List Token) → us.length < ts.length → Parsed (Option α) n}
    {next' : Token → (us : List Token) → us.length < (ts ++ more).length → Parsed (Option α) n'}
    (hnext : ∀ t us hu hu', Local more (next t us hu) (next' t (us ++ more) hu')) :
    Local more (expecting want ts h next) (expecting want (ts ++ more) h' next') := by
  cases ts with
  | nil => exact fun hrest => absurd rfl hrest
  | cons t us =>
    simp only [expecting, List.cons_append]
    apply Local.ite Iff.rfl
    · exact fun _ => hnext t us _ _
    · exact fun _ => local_failed

theorem rest_eq_nil (r : Parsed α n) (h : n = 0) : r.rest = [] := by
  subst h
  exact List.eq_nil_of_length_eq_zero (Nat.le_zero.mp r.bound)

/-- Of no tokens nothing is left. -/
theorem local_of_eq_zero {r : Parsed α n} {r' : Parsed α n'} (h : n = 0) : Local more r r' :=
  fun hrest => absurd (rest_eq_nil r h) hrest

section

variable {close : Token.Kind}
  {element : (ts : List Token) → ts.length ≤ m → Parsed (Option α) (ts.length - 1)}
  {element' : (ts : List Token) → ts.length ≤ m' → Parsed (Option α) (ts.length - 1)}

theorem local_items
    (helement : ∀ ts h h', Local more (element ts h) (element' (ts ++ more) h'))
    (ts : List Token) (h : ts.length ≤ m) (h' : (ts ++ more).length ≤ m') :
    Local more (items close element ts h) (items close element' (ts ++ more) h') := by
  rw [items, items]
  apply (helement ts h h').andThen
  · intro a _
    rfl
  intro first us hu hu' hne
  obtain ⟨c, vs, rfl⟩ := List.exists_cons_of_ne_nil hne
  -- a token is left, so with more tokens behind the same way is taken
  have hsame : nextKind (c :: vs ++ more) = nextKind (c :: vs) := rfl
  by_cases hc : nextKind (c :: vs) = .comma
  · rw [dif_pos hc, dif_pos (hsame.trans hc)]
    apply Local.widen
    apply Local.map
    exact local_items helement vs _ _
  · rw [dif_neg hc, dif_neg (by rw [hsame]; exact hc)]
    apply local_expecting
    intro t ws _ _
    exact local_done
termination_by ts.length
decreasing_by simp only [List.length_cons] at hu; omega

theorem local_separated {ts : List Token} {h : ts.length ≤ m} {h' : (ts ++ more).length ≤ m'}
    (helement : ∀ us hu hu', Local more (element us hu) (element' (us ++ more) hu')) :
    Local more (separated close element ts h) (separated close element' (ts ++ more) h') := by
  cases ts with
  | nil => exact local_of_eq_zero rfl
  | cons t us =>
    unfold separated
    apply Local.ite Iff.rfl
    · exact fun _ => local_done
    · exact fun _ => local_items helement (t :: us) _ _

end

end Parsed

/-! ## The rules of the grammar -/

open Parsed Grammar

section

variable {tracing : Bool} {more : List Token} {n : Nat}

theorem local_parameter (ts : List Token) :
    Local more (parameter ts) (parameter (ts ++ more)) := by
  cases ts with
  | nil => exact fun hrest => absurd rfl hrest
  | cons t us =>
    simp only [parameter, List.cons_append]
    apply Local.ite Iff.rfl
    · exact fun _ => local_done
    · exact fun _ => local_failed

/-- On at most `n` tokens, an expression that leaves some of them is read without what follows. -/
def ExpressionLocal (tracing : Bool) (more : List Token) (n : Nat) : Prop :=
  ∀ (level : Level) (ts : List Token), ts.length ≤ n →
    Local more (expression tracing level ts) (expression tracing level (ts ++ more))

/-- On at most `n` tokens, a block that leaves some of them is read without what follows. -/
def BlockLocal (tracing : Bool) (more : List Token) (n : Nat) : Prop :=
  ∀ ts : List Token, ts.length ≤ n → Local more (block tracing ts) (block tracing (ts ++ more))

theorem local_unary (hexpr : ExpressionLocal tracing more n) {t : Token} {op : UnaryOp}
    {us : List Token} (hus : us.length ≤ n) :
    Local more (unary tracing t op us) (unary tracing t op (us ++ more)) := by
  rw [unary, unary]
  apply Local.traced
  apply Local.widen
  apply Local.map
  exact hexpr .unary us hus

theorem local_conditional (hexpr : ExpressionLocal tracing more n)
    (hblock : BlockLocal tracing more n) {t : Token} {us : List Token} (hus : us.length ≤ n) :
    Local more (conditional tracing t us) (conditional tracing t (us ++ more)) := by
  rw [conditional, conditional]
  apply local_expecting
  intro o vs hv _
  apply (hexpr .lowest vs (by omega)).andThen
  · intro c _
    cases c <;> rfl
  intro c ws hw _ _
  cases c with
  | none => exact local_done
  | some c =>
    apply local_expecting
    intro p xs hx _
    apply local_expecting
    intro b ys hy _
    apply (hblock ys (by omega)).andThen
    · intro yes _
      rfl
    intro yes zs hz _ hne
    -- whether `else` follows is seen at a token that the block leaves
    obtain ⟨e, zs, rfl⟩ := List.exists_cons_of_ne_nil hne
    simp only [List.length_cons] at hz
    apply Local.ite Iff.rfl
    · intro _
      apply local_expecting
      intro b' us' hu' _
      simp only [List.tail_cons] at hu'
      apply Local.widen
      apply Local.map
      exact hblock us' (by omega)
    · intro _
      exact local_done

theorem local_function (hblock : BlockLocal tracing more n) {t : Token} {us : List Token}
    (hus : us.length ≤ n) :
    Local more (function tracing t us) (function tracing t (us ++ more)) := by
  rw [function, function]
  apply local_expecting
  intro o vs hv _
  have hparams : Local more
      (separated .rparen (fun ts _ => parameter ts) vs (Nat.le_refl _))
      (separated .rparen (fun ts _ => parameter ts) (vs ++ more) (Nat.le_refl _)) :=
    local_separated fun us _ _ => local_parameter us
  apply hparams.andThen
  · intro ps _
    cases ps <;> rfl
  intro ps ws hw _ _
  cases ps with
  | none => exact local_done
  | some ps =>
    apply local_expecting
    intro b xs hx _
    apply Local.widen
    apply Local.map
    exact hblock xs (by omega)

theorem local_hashPairs (hexpr : ExpressionLocal tracing more n) (ts : List Token)
    (hts : ts.length ≤ n) : Local more (hashPairs tracing ts) (hashPairs tracing (ts ++ more)) := by
  by_cases hne : ts = []
  · exact local_of_eq_zero (by rw [hne]; rfl)
  rw [hashPairs, hashPairs]
  apply Local.ite (by rw [nextKind_append hne])
  · intro _
    simp only [List.tail_append_of_ne_nil hne]
    exact local_done
  intro _
  apply (hexpr .lowest ts hts).andThen
  · intro _ _
    rfl
  intro key us hu _ _
  apply local_expecting
  intro d vs hv _
  apply (hexpr .lowest vs (by omega)).andThen
  · intro value _
    cases key <;> cases value <;> rfl
  intro value ws hw _ hws
  cases key with
  | none => exact local_done
  | some k =>
    cases value with
    | none => exact local_done
    | some v =>
      apply Local.ite (by rw [nextKind_append hws])
      · intro _
        simp only [List.tail_append_of_ne_nil hws]
        exact local_done
      · intro _
        apply local_expecting
        intro c xs hx _
        apply Local.widen
        apply Local.map
        exact local_hashPairs hexpr xs (by omega)
termination_by ts.length
decreasing_by omega

theorem local_expressions (hexpr : ExpressionLocal tracing more n) {close : Token.Kind}
    {ts : List Token} (hts : ts.length ≤ n) :
    Local more
      (separated close (fun ts _ => expression tracing .lowest ts) ts (Nat.le_refl _))
      (separated close (fun ts _ => expression tracing .lowest ts) (ts ++ more) (Nat.le_refl _)) :=
  local_separated fun us hu _ => hexpr .lowest us (Nat.le_trans hu hts)

theorem local_operand (hexpr : ExpressionLocal tracing more n)
    (hblock : BlockLocal tracing more n) {t : Token} {us : List Token} (hus : us.length ≤ n) :
    Local more (operand tracing t us) (operand tracing t (us ++ more)) := by
  rw [operand.eq_def, operand.eq_def]
  split
  · exact local_done
  · apply Local.traced
    split
    · exact local_done
    · exact local_failed
  · exact local_done
  · exact local_done
  · exact local_done
  · exact local_unary hexpr hus
  · exact local_unary hexpr hus
  · apply (hexpr .lowest us hus).andThen
    · intro _ _
      rfl
    intro inner vs _ _ _
    apply local_expecting
    intro c ws _ _
    exact local_done
  · exact local_conditional hexpr hblock hus
  · exact local_function hblock hus
  · exact (local_expressions hexpr hus).map _
  · exact (local_hashPairs hexpr us hus).map _
  · exact local_failed

theorem local_operator (hexpr : ExpressionLocal tracing more n) {left : Option Expr} {t : Token}
    {us : List Token} (hus : us.length ≤ n) :
    Local more (operator tracing left t us) (operator tracing left t (us ++ more)) := by
  rw [operator.eq_def, operator.eq_def]
  split
  · exact (local_expressions hexpr hus).map _
  · apply (hexpr .lowest us hus).andThen
    · intro _ _
      rfl
    intro i vs _ _ _
    apply local_expecting
    intro c ws _ _
    exact local_done
  · apply Local.traced
    apply Local.widen
    apply Local.map
    exact hexpr _ us hus

theorem local_operators (hexpr : ExpressionLocal tracing more n) {level : Level}
    (left : Option Expr) (ts : List Token) (hts : ts.length ≤ n) :
    Local more (operators tracing level left ts) (operators tracing level left (ts ++ more)) := by
  match ts, hts with
  | [], _ => exact local_of_eq_zero rfl
  | t :: us, hts =>
    rw [List.length_cons] at hts
    rw [operators.eq_def, List.cons_append, operators.eq_def tracing level left (t :: (us ++ more))]
    apply Local.ite Iff.rfl
    · intro _
      apply (local_operator hexpr (by omega)).andThen
      · intro whole _
        exact rest_eq_nil (operators tracing level whole []) rfl
      intro whole vs hv _ _
      apply Local.widen
      exact local_operators hexpr whole vs (by omega)
    · intro _
      exact local_done
termination_by ts.length
decreasing_by simp only [List.length_cons]; omega

theorem local_statement (hexpr : ExpressionLocal tracing more n) {t : Token} {us : List Token}
    (hus : us.length < n) :
    Local more (statement tracing t us) (statement tracing t (us ++ more)) := by
  by_cases hne : us = []
  · exact local_of_eq_zero (by rw [hne]; rfl)
  rw [statement.eq_def, statement.eq_def]
  split
  · apply local_expecting
    intro x vs hv _
    apply local_expecting
    intro a ws hw _
    apply (hexpr .lowest ws (by omega)).andThen
    · intro e _
      cases e <;> rfl
    intro e xs _ _ hxs
    -- the semicolon that may follow is among the tokens that the expression leaves
    cases e with
    | none => exact local_done
    | some e => exact fun _ => extended_done (skipSemicolon_append hxs more)
  · apply Local.ite (by rw [nextKind_append hne])
    · intro _
      simp only [List.tail_append_of_ne_nil hne]
      exact local_done
    intro _
    apply Local.ite (by rw [nextKind_append hne])
    · intro _
      exact local_done
    intro _
    apply (hexpr .lowest us (by omega)).andThen
    · intro e _
      cases e <;> rfl
    intro e vs _ _ hvs
    cases e with
    | none => exact local_done
    | some e => exact fun _ => extended_done (skipSemicolon_append hvs more)
  · apply Local.traced
    have htus : (t :: us).length ≤ n := hus
    apply (hexpr .lowest (t :: us) htus).andThen
    · intro e _
      cases e <;> rfl
    intro e vs _ _ hvs
    cases e with
    | none => exact local_done
    | some e => exact fun _ => extended_done (skipSemicolon_append hvs more)

theorem local_block (hexpr : ExpressionLocal tracing more n) : BlockLocal tracing more n
  | [], _ => local_of_eq_zero rfl
  | t :: us, hts => by
    rw [List.length_cons] at hts
    rw [block.eq_def, List.cons_append, block.eq_def tracing (t :: (us ++ more))]
    apply Local.ite Iff.rfl
    · intro _
      exact local_done
    · intro _
      apply (local_statement hexpr hts).andThen
      · intro s _
        exact rest_eq_nil ((block tracing []).map (s.toList ++ ·)) rfl
      intro s vs hv _ _
      apply Local.widen
      apply Local.map
      exact local_block hexpr vs (by omega)
termination_by ts => ts.length
decreasing_by simp only [List.length_cons]; omega

theorem local_expression (n : Nat) : ExpressionLocal tracing more n := by
  induction n with
  | zero =>
    intro level ts hts
    exact local_of_eq_zero (by omega)
  | succ n ih =>
    intro level ts hts
    cases ts with
    | nil => exact local_of_eq_zero rfl
    | cons t us =>
      have hus : us.length ≤ n := Nat.le_of_succ_le_succ hts
      rw [expression.eq_def, List.cons_append, expression.eq_def tracing level (t :: (us ++ more))]
      apply Local.traced
      apply Local.ite Iff.rfl
      · intro _
        apply (local_operand ih (local_block ih) hus).andThen
        · intro first _
          exact rest_eq_nil (operators tracing level first []) rfl
        intro first vs hv _ _
        apply Local.widen
        exact local_operators ih first vs (by omega)
      · intro _
        exact local_failed

end

end Monkey

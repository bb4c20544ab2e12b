import Mathlib
import Monkey.Proofs.Parsing.Reader
import Monkey.Proofs.Parsing.Reads
import Monkey.Proofs.Token.Lexeme

/-!
# Parsing ends

The parser with a cursor returns on every list of tokens.  It gives what the grammar gives, and
stands at the end of the text.  In no routine does the number of tokens that are left grow; an
expression inside another one begins with fewer tokens than that one, and a loop comes back to its
head with fewer tokens than before.

The grammar is a function on lists of tokens, where a rule that begins with a token it was handed
sees the tokens after that one.  So a routine is compared with a rule by the tokens at its cursor:
those from the current one on, or those after it.
-/

namespace Monkey.Reader

/-! ## 1. Routines and rules -/

/-- What must be true of an event. -/
def Event.Descends : Event → Prop
  | nested outer inner => ∀ n ∈ outer, inner < n
  | returned before after => after ≤ before
  | round before after => after < before

/-- All that was recorded so far is in order. -/
def Descending (s : Reader) : Prop := ∀ e ∈ s.log, e.Descends

theorem Descending.record {s : Reader} {e : Event} (h : s.Descending) (he : e.Descends) :
    (s.record e).Descending := by
  intro d hd
  rcases List.mem_cons.mp hd with rfl | hd
  · exact he
  · exact h d hd

inductive Position where
  /-- From the current token on. -/
  | here
  /-- After the current token. -/
  | ahead

/-- The tokens that a rule sees. -/
def Position.tokens : Position → Reader → List Token
  | here, s => s.left
  | ahead, s => s.left.tail

section

variable {α β : Type} {m n : Nat}

/-- From one state, the result of a rule leads to another state. -/
structure Yields (q : Position) (s : Reader) (r : Parsed α n) (s' : Reader) : Prop where
  tokens : q.tokens s' = r.rest
  errors : s'.errors = s.errors ++ r.errors
  trace : s'.trace = s.trace ++ r.trace
  enclosing : s'.enclosing = s.enclosing
  length_le : s'.left.length ≤ s.left.length
  descending : s.Descending → s'.Descending

/-- With the tokens `ts` at its cursor, of which there are fewer than at the beginning of the
expression around it, the routine returns and gives the result of the rule. -/
def Realizes (p q : Position) (x : Read α) (ts : List Token) (r : Parsed α n) : Prop :=
  ∀ s : Reader, p.tokens s = ts → (∀ c ∈ s.enclosing, ts.length < c) →
    ∃ s', x s = some (r.value, s') ∧ Yields q s r s'

variable {p q q' : Position} {ts us : List Token} {x : Read α}

theorem Realizes.congr {r : Parsed α m} {r' : Parsed α n} (h : Realizes p q x ts r)
    (hvalue : r'.value = r.value) (hrest : r'.rest = r.rest) (herrors : r'.errors = r.errors)
    (htrace : r'.trace = r.trace) : Realizes p q x ts r' := by
  intro s hs hroom
  obtain ⟨s', hx, hl⟩ := h s hs hroom
  rw [hvalue]
  exact ⟨s', hx, hrest ▸ hl.tokens, herrors ▸ hl.errors, htrace ▸ hl.trace, hl.enclosing,
    hl.length_le, hl.descending⟩

theorem Realizes.widen {r : Parsed α m} (h : Realizes p q x ts r) {hm : m ≤ n} :
    Realizes p q x ts (r.widen hm) := h.congr rfl rfl rfl rfl

theorem bind_of_eq_some {x : Read α} {f : α → Read β} {s s' : Reader} {a : α}
    (h : x s = some (a, s')) : (x >>= f) s = f a s' := by
  show (x s).bind (fun y => f y.1 y.2) = f a s'
  rw [h]
  rfl

theorem Realizes.bind {f : α → Read β} {r : Parsed α m}
    {k : α → (us : List Token) → us.length ≤ m → Parsed β n} (hx : Realizes p q x ts r)
    (hm : m ≤ ts.length)
    (hf : Realizes q q' (f r.value) r.rest (k r.value r.rest r.bound)) :
    Realizes p q' (x >>= f) ts (r.andThen k) := by
  intro s hs hroom
  obtain ⟨u, hxs, hu⟩ := hx s hs hroom
  have hroom' (c : Nat) (hc : c ∈ u.enclosing) : r.rest.length < c := by
    rw [hu.enclosing] at hc
    have := hroom c hc
    have := r.bound
    omega
  obtain ⟨s', hfu, hs'⟩ := hf u hu.tokens hroom'
  refine ⟨s', (bind_of_eq_some hxs).trans hfu, hs'.tokens, ?_, ?_, ?_, ?_, ?_⟩
  · rw [hs'.errors, hu.errors, List.append_assoc]
    rfl
  · rw [hs'.trace, hu.trace, List.append_assoc]
    rfl
  · rw [hs'.enclosing, hu.enclosing]
  · exact Nat.le_trans hs'.length_le hu.length_le
  · exact fun h => hs'.descending (hu.descending h)

/-- A step without errors and traces is not seen in the result. -/
theorem Realizes.step {f : α → Read β} {r : Parsed β n} {a : α} {h : us.length ≤ ts.length}
    (hx : Realizes p q x ts (.done a us h)) (hf : Realizes q q' (f a) us r) :
    Realizes p q' (x >>= f) ts r :=
  (hx.bind (k := fun _ _ _ => r) (Nat.le_refl _) hf).congr rfl rfl rfl rfl

theorem realizes_of_eq_some {a : α} (h : ts.length ≤ n)
    (hx : ∀ s : Reader, p.tokens s = ts → x s = some (a, s)) :
    Realizes p p x ts (.done a ts h) :=
  fun s hs _ => ⟨s, hx s hs, hs, (List.append_nil _).symm, (List.append_nil _).symm, rfl,
    Nat.le_refl _, id⟩

theorem realizes_pure {a : α} {h : ts.length ≤ n} : Realizes p p (pure a) ts (.done a ts h) :=
  realizes_of_eq_some h fun _ _ => rfl

theorem Realizes.map {r : Parsed α n} (h : Realizes p q x ts r) (f : α → β) :
    Realizes p q (do return f (← x)) ts (r.map f) := by
  intro s hs hroom
  obtain ⟨s', hx, hl⟩ := h s hs hroom
  exact ⟨s', bind_of_eq_some hx, hl.tokens, hl.errors, hl.trace, hl.enclosing, hl.length_le,
    hl.descending⟩

theorem Realizes.of_tail {r : Parsed α n} (h : Realizes .ahead q x ts.tail r) :
    Realizes .here q x ts r := by
  -- the current token is not looked at
  intro s hs hroom
  refine h s (congrArg List.tail hs) fun c hc => ?_
  have hc := hroom c hc
  rw [List.length_tail]
  omega

theorem Realizes.of_cons {r : Parsed α n} {t : Token} (h : Realizes .ahead q x ts r) :
    Realizes .here q x (t :: ts) r := .of_tail h

theorem realizes_of_ne_eof {r : Parsed α n}
    (h : (∀ t ∈ ts, t.kind ≠ .eof) → Realizes p q x ts r) : Realizes p q x ts r := by
  intro s hs hroom
  refine h (fun t ht => ?_) s hs hroom
  subst hs
  cases p with
  | here => exact s.ne_eof t ht
  | ahead => exact s.ne_eof t (List.mem_of_mem_tail ht)

/-! ## 2. Moves -/

variable {r : Parsed α n}

theorem realizes_advance (h : Realizes .here q x ts r) :
    Realizes .ahead q (do advance; x) ts r := by
  have hnext : Realizes .ahead .here advance ts (.done () ts (Nat.le_refl _)) := by
    intro s hs _
    have hle : s.left.tail.length ≤ s.left.length := by simp
    exact ⟨s.next, rfl, hs, (List.append_nil _).symm, (List.append_nil _).symm, rfl, hle, id⟩
  exact hnext.step h

theorem realizes_current {f : Token → Read α}
    (h : Realizes .here q (f (ts.headD .endOfText)) ts r) :
    Realizes .here q (current >>= f) ts r := by
  refine (realizes_of_eq_some (Nat.le_refl _) fun s hs => ?_).step h
  cases hs
  rfl

theorem realizes_peek {f : Token.Kind → Read α} (h : Realizes .ahead q (f (nextKind ts)) ts r) :
    Realizes .ahead q (peek >>= f) ts r := by
  refine (realizes_of_eq_some (Nat.le_refl _) fun s hs => ?_).step h
  cases hs
  rfl

/-- Before the end of the text, there is one more token than there are after the current one. -/
theorem length_left_of_ahead {s : Reader} (hs : Position.ahead.tokens s = ts) :
    ts.length ≤ s.left.length ∧ s.left.length ≤ ts.length + 1 ∧
      (ts ≠ [] → ts.length < s.left.length) := by
  subst hs
  show s.left.tail.length ≤ _ ∧ _ ≤ s.left.tail.length + 1 ∧
    (s.left.tail ≠ [] → s.left.tail.length < _)
  cases s.left with
  | nil => simp
  | cons t rest => simp

theorem realizes_count_here {f : Nat → Read α} (h : Realizes .here q (f ts.length) ts r) :
    Realizes .here q (count >>= f) ts r := by
  refine (realizes_of_eq_some (Nat.le_refl _) fun s hs => ?_).step h
  cases hs
  rfl

theorem realizes_count_ahead {f : Nat → Read α}
    (h : ∀ c, ts.length ≤ c → (ts ≠ [] → ts.length < c) → Realizes .ahead q (f c) ts r) :
    Realizes .ahead q (count >>= f) ts r := by
  intro s hs hroom
  obtain ⟨hle, -, hlt⟩ := length_left_of_ahead hs
  exact h s.left.length hle hlt s hs hroom

theorem realizes_comeBack {c : Nat} (hc : ∀ s, p.tokens s = ts → s.left.length < c)
    (h : Realizes p q x ts r) : Realizes p q (do comeBack c; x) ts r := by
  have hround : Realizes p p (comeBack c) ts (.done () ts (Nat.le_refl _)) := by
    intro s hs _
    refine ⟨s.record (.round c s.left.length), rfl, ?_, (List.append_nil _).symm,
      (List.append_nil _).symm, rfl, Nat.le_refl _, fun hlog => hlog.record (hc s hs)⟩
    cases p <;> exact hs
  exact hround.step h

theorem realizes_comeBack_here {c : Nat} (hc : ts.length < c) (h : Realizes .here q x ts r) :
    Realizes .here q (do comeBack c; x) ts r := by
  refine realizes_comeBack (fun s hs => ?_) h
  cases hs
  exact hc

theorem realizes_comeBack_ahead {c : Nat} (hc : ts.length + 1 < c) (h : Realizes .ahead q x ts r) :
    Realizes .ahead q (do comeBack c; x) ts r :=
  realizes_comeBack (fun _ hs => Nat.lt_of_le_of_lt (length_left_of_ahead hs).2.1 hc) h

theorem report_yields {s : Reader} (e : ParseError) (hs : s.left.tail = ts) {h : ts.length ≤ n} :
    ∃ s', (do report e; return (none : Option α) : Read (Option α)) s = some (none, s') ∧
      Yields .ahead s (Parsed.failed e ts h : Parsed (Option α) n) s' :=
  ⟨{ s with errors := s.errors ++ [e] }, rfl, hs, rfl, (List.append_nil _).symm, rfl,
    Nat.le_refl _, id⟩

theorem realizes_failed {e : ParseError} {h : ts.length ≤ n} :
    Realizes .ahead .ahead (do report e; return (none : Option α)) ts (.failed e ts h) :=
  fun _ hs _ => report_yields e hs

theorem expectPeek_bind_eq (want : Token.Kind) (y : Read (Option α)) :
    (do if ← expectPeek want then y else return none) = (do
      let got ← peek
      if got = want then
        advance
        y
      else
        report (.expected want got)
        return none) := by
  simp only [expectPeek, bind_assoc]
  congr 1
  funext got
  by_cases hkind : got = want
  · simp [hkind]
  · simp [hkind]

theorem realizes_expectPeek {want : Token.Kind} (hwant : want ≠ .eof) {y : Read (Option α)}
    {hle : ts.length ≤ n}
    {next : Token → (rest : List Token) → rest.length < ts.length → Parsed (Option α) n}
    (h : ∀ t rest (hlt : rest.length < ts.length),
      Realizes .here .ahead y (t :: rest) (next t rest hlt)) :
    Realizes .ahead .ahead (do if ← expectPeek want then y else return none) ts
      (Parsed.expecting want ts hle next) := by
  rw [expectPeek_bind_eq]
  apply realizes_peek
  cases ts with
  | nil =>
    rw [nextKind_nil, if_neg hwant.symm]
    exact realizes_failed
  | cons t rest =>
    rw [nextKind_cons, Parsed.expecting]
    by_cases hkind : t.kind = want
    · -- the token that is needed becomes the current one
      rw [if_pos hkind, if_pos hkind]
      apply realizes_advance
      exact h t rest _
    · rw [if_neg hkind, if_neg hkind]
      exact realizes_failed

theorem realizes_expecting {want : Token.Kind} (hwant : want ≠ .eof)
    {go : Token → Read (Option α)} {hle : ts.length ≤ n}
    {next : Token → (rest : List Token) → rest.length < ts.length → Parsed (Option α) n}
    (h : ∀ t rest (hlt : rest.length < ts.length),
      Realizes .ahead .ahead (go t) rest (next t rest hlt)) :
    Realizes .ahead .ahead (expecting want go) ts (Parsed.expecting want ts hle next) := by
  apply realizes_expectPeek hwant
  intro t rest hlt
  apply realizes_current
  exact (h t rest hlt).of_cons

theorem realizes_skipSemicolon (h : Realizes .ahead q x (Monkey.skipSemicolon ts) r) :
    Realizes .ahead q (do skipSemicolon; x) ts r := by
  rw [Monkey.skipSemicolon] at h
  simp only [skipSemicolon, bind_assoc]
  apply realizes_peek
  by_cases hkind : nextKind ts = .semicolon
  · rw [if_pos hkind] at h
    rw [if_pos hkind]
    apply realizes_advance
    exact h.of_tail
  · rw [if_neg hkind] at h
    rw [if_neg hkind, pure_bind]
    exact h

/-! ## 3. What is recorded -/

theorem Realizes.called (h : Realizes p q x ts r) : Realizes p q (called x) ts r := by
  intro s hs hroom
  obtain ⟨s', hx, hl⟩ := h s hs hroom
  refine ⟨s'.record (.returned s.left.length s'.left.length), ?_, ?_⟩
  · show (count >>= _) s = _
    rw [bind_of_eq_some (show count s = some (s.left.length, s) from rfl), bind_of_eq_some hx]
    rfl
  · exact ⟨by cases q <;> exact hl.tokens, hl.errors, hl.trace, hl.enclosing, hl.length_le,
      fun h => (hl.descending h).record hl.length_le⟩

theorem Realizes.traced (tracing : Bool) (rule : Rule) (h : Realizes p q x ts r) :
    Realizes p q (traced tracing rule x) ts (r.traced tracing rule) := by
  intro s hs hroom
  cases tracing with
  | false =>
    obtain ⟨s', hx, hl⟩ := h s hs hroom
    have hnote : note false (.enter rule) s = some ((), s) := rfl
    exact ⟨s', (bind_of_eq_some hnote).trans (bind_of_eq_some hx), hl.tokens, hl.errors, hl.trace,
      hl.enclosing, hl.length_le, hl.descending⟩
  | true =>
    obtain ⟨s', hx, hl⟩ :=
      h { s with trace := s.trace ++ [.enter rule] } (by cases p <;> exact hs) hroom
    have hnote : note true (.enter rule) s =
      some ((), { s with trace := s.trace ++ [.enter rule] }) := rfl
    have htrace : s'.trace ++ [.leave rule] =
        s.trace ++ .enter rule :: (r.trace ++ [.leave rule]) := by
      rw [hl.trace, List.append_assoc, List.append_assoc, List.singleton_append]
    exact ⟨{ s' with trace := s'.trace ++ [.leave rule] },
      (bind_of_eq_some hnote).trans (bind_of_eq_some hx), by cases q <;> exact hl.tokens,
      hl.errors, htrace, hl.enclosing, hl.length_le, hl.descending⟩

/-- An expression begins with fewer tokens than the expression around it. -/
theorem realizes_nesting
    (h : ∀ s : Reader, s.left = ts → s.enclosing = some ts.length →
      ∃ s', x s = some (r.value, s') ∧ Yields q s r s') :
    Realizes .here q (nesting x) ts r := by
  intro s hs hroom
  have hleft : s.left = ts := hs
  have hnested : (Event.nested s.enclosing s.left.length).Descends := by
    rw [hleft]
    exact hroom
  have henclosing : s.inside.enclosing = some ts.length := by
    show some s.left.length = _
    rw [hleft]
  obtain ⟨s', hx, hl⟩ := h s.inside hs henclosing
  have hget : (get : Read Reader) s = some (s, s) := rfl
  have hmodify : (modify inside : Read PUnit) s = some ((), s.inside) := rfl
  exact ⟨{ s' with enclosing := s.enclosing },
    (bind_of_eq_some hget).trans ((bind_of_eq_some hmodify).trans (bind_of_eq_some hx)),
    by cases q <;> exact hl.tokens, hl.errors, hl.trace, rfl, hl.length_le,
    fun h => hl.descending (h.record hnested)⟩

end

/-! ## 4. Lists -/

section

variable {α : Type} {call : Routines} {m n : Nat} {close : Token.Kind}

/-- The part of a list after an element. -/
def itemsTail (close : Token.Kind)
    (g : (ts : List Token) → ts.length ≤ m → Parsed (Option α) (ts.length - 1))
    (ts : List Token) (hm : ts.length ≤ m) (hn : ts.length ≤ n) : Parsed (Option (List α)) n :=
  if nextKind ts = .comma then
    (Parsed.items close g ts.tail (by simp; omega)).widen (by simp; omega)
  else .expecting close ts hn fun _ rest hlt => .done (some []) rest (by omega)

theorem items_eq_andThen
    {g : (ts : List Token) → ts.length ≤ m → Parsed (Option α) (ts.length - 1)}
    {ts : List Token} {h : ts.length ≤ m} :
    Parsed.items close g ts h = (g ts h).andThen fun first us hu =>
      (itemsTail close g us (Nat.le_trans (Nat.le_trans hu (Nat.sub_le _ _)) h)
        (Nat.le_trans hu (Nat.sub_le _ _))).map fun others => do
          return (← first) :: (← others) := by
  rw [Parsed.items]
  congr 1
  funext first us hu
  rw [itemsTail]
  by_cases hcomma : nextKind us = .comma
  · rw [dif_pos hcomma, if_pos hcomma]
    rfl
  · rw [dif_neg hcomma, if_neg hcomma]
    cases us with
    | nil => cases first <;> rfl
    | cons t rest =>
      by_cases hclose : t.kind = close
      · simp only [Parsed.expecting, hclose, if_true]
        cases first <;> rfl
      · simp only [Parsed.expecting, hclose, if_false]
        cases first <;> rfl

end

/-! ## 5. The routines -/

def Element.rule (tracing : Bool) :
    (e : Element) → (ts : List Token) → Parsed (Option e.Result) (ts.length - 1)
  | expression, ts => Grammar.expression tracing .lowest ts
  | parameter, ts => Grammar.parameter ts

/-- With fewer than `n` calls open, the routines give the results of the rules.  A routine needs at
most three calls for each token at its cursor, and a few to get to the first: those of an operand,
a list and an expression, say. -/
structure Realized (tracing : Bool) (call : Routines) (n : Nat) : Prop where
  expression : ∀ level ts, 3 * ts.length < n →
    Realizes .here .ahead (call.expression level) ts (Grammar.expression tracing level ts)
  operand : ∀ t rest, 3 * rest.length + 2 < n →
    Realizes .ahead .ahead (call.operand t) rest (Grammar.operand tracing t rest)
  operators : ∀ level left ts, 3 * ts.length < n →
    Realizes .ahead .ahead (call.operators level left) ts (Grammar.operators tracing level left ts)
  operator : ∀ left t rest, 3 * rest.length + 2 < n →
    Realizes .ahead .ahead (call.operator left t) rest (Grammar.operator tracing left t rest)
  hashPairs : ∀ ts, 3 * ts.length + 1 < n →
    Realizes .ahead .ahead call.hashPairs ts (Grammar.hashPairs tracing ts)
  list : ∀ close e ts, close ≠ .eof → 3 * ts.length + 1 < n →
    Realizes .ahead .ahead (call.list close e) ts
      (.separated close (fun us _ => e.rule tracing us) ts (Nat.le_refl _))
  listRest : ∀ close e {k m : Nat} ts (hm : ts.length ≤ m) (hk : ts.length ≤ k), close ≠ .eof →
    3 * ts.length < n → Realizes .ahead .ahead (call.listRest close e) ts
      (itemsTail close (fun us _ => e.rule tracing us) ts hm hk)
  block : ∀ ts, 3 * ts.length + 3 < n →
    Realizes .ahead .ahead call.block ts (Grammar.block tracing ts)
  blockStatements : ∀ ts, 3 * ts.length + 2 < n →
    Realizes .here .ahead call.blockStatements ts (Grammar.block tracing ts)
  statement : ∀ t rest, 3 * (t :: rest).length + 1 < n →
    Realizes .here .ahead call.statement (t :: rest) (Grammar.statement tracing t rest)
  statements : ∀ ts, 3 * ts.length + 2 < n →
    Realizes .here .here call.statements ts (Grammar.statements tracing ts)

section

variable {tracing : Bool} {call : Routines} {n : Nat}

theorem realizes_element (hcall : Realized tracing call n) (e : Element) {ts : List Token}
    (hts : 3 * ts.length < n) :
    Realizes .here .ahead (element call e) ts (e.rule tracing ts) := by
  cases e with
  | expression => exact hcall.expression .lowest ts hts
  | parameter =>
    apply realizes_current
    cases ts with
    | nil => exact realizes_failed.of_tail
    | cons t rest =>
      rw [Element.rule, Grammar.parameter, List.headD_cons]
      by_cases hident : t.kind = .ident
      · rw [if_pos hident, if_pos hident]
        exact realizes_pure.of_tail
      · rw [if_neg hident, if_neg hident]
        exact realizes_failed.of_tail

theorem realizes_listRest (hcall : Realized tracing call n) {close : Token.Kind} (e : Element)
    (hclose : close ≠ .eof) {k m : Nat} {ts : List Token} (hm : ts.length ≤ m)
    (hk : ts.length ≤ k) (hts : 3 * ts.length < n + 1) :
    Realizes .ahead .ahead (listRest call close e) ts
      (itemsTail close (fun us _ => e.rule tracing us) ts hm hk) := by
  rw [listRest, itemsTail]
  apply realizes_peek
  by_cases hcomma : nextKind ts = .comma
  · rw [if_pos hcomma, if_pos hcomma]
    obtain ⟨t, rest, rfl, -⟩ := exists_cons_of_nextKind hcomma (by decide)
    have hrest : (t :: rest).length = rest.length + 1 := List.length_cons
    apply realizes_count_ahead
    intro c _ hc
    have hc := hc (List.cons_ne_nil t rest)
    -- over the comma, and on to the element after it
    apply realizes_advance
    apply Realizes.of_cons
    apply realizes_advance
    apply Realizes.widen
    show Realizes _ _ _ rest (Parsed.items close (fun us _ => e.rule tracing us) rest (by omega))
    rw [items_eq_andThen]
    have hbound := (e.rule tracing rest).bound
    apply (realizes_element hcall e (by omega)).bind (by omega)
    -- back at the head, at least the comma is gone
    apply realizes_comeBack_ahead (by omega)
    exact (hcall.listRest close e _ _ _ hclose (by omega)).map _
  · rw [if_neg hcomma, if_neg hcomma]
    apply realizes_expecting hclose
    intro t rest _
    exact realizes_pure

theorem realizes_list (hcall : Realized tracing call n) {close : Token.Kind} (e : Element)
    (hclose : close ≠ .eof) {ts : List Token} (hts : 3 * ts.length < n) :
    Realizes .ahead .ahead (list call close e) ts
      (.separated close (fun us _ => e.rule tracing us) ts (Nat.le_refl _)) := by
  rw [list, Parsed.separated]
  apply Realizes.called
  apply realizes_peek
  by_cases hempty : nextKind ts = close
  · rw [if_pos hempty, if_pos hempty]
    apply realizes_advance
    exact realizes_pure.of_tail
  · rw [if_neg hempty, if_neg hempty, items_eq_andThen]
    have hbound := (e.rule tracing ts).bound
    apply realizes_advance
    apply (realizes_element hcall e hts).bind (by omega)
    exact (hcall.listRest close e _ _ _ hclose (by omega)).map _

theorem realizes_ending {f : Expr → Stmt} {e : Option Expr} {ts : List Token} {m : Nat}
    {h : ts.length ≤ m} {h' : (Monkey.skipSemicolon ts).length ≤ m} :
    Realizes .ahead .ahead
      (match e with
        | none => pure none
        | some e => do
          skipSemicolon
          pure (some (f e)) : Read (Option Stmt)) ts
      (match e with
        | none => .done none ts h
        | some e => .done (some (f e)) (Monkey.skipSemicolon ts) h' : Parsed (Option Stmt) m) := by
  cases e with
  | none => exact realizes_pure
  | some e => exact realizes_skipSemicolon realizes_pure

theorem realizes_binding (hcall : Realized tracing call n) {t : Token} {rest : List Token}
    (hkind : t.kind = .letWord) (hrest : 3 * rest.length < n) :
    Realizes .ahead .ahead (binding call t) rest (Grammar.statement tracing t rest) := by
  rw [binding, Grammar.statement.eq_def]
  simp only [hkind]
  apply realizes_expecting (by decide)
  intro name us hus
  apply realizes_expecting (by decide)
  intro _ vs hvs
  apply realizes_advance
  apply (hcall.expression .lowest vs (by omega)).bind (by omega)
  exact realizes_ending

theorem realizes_returning (hcall : Realized tracing call n) {t : Token} {rest : List Token}
    (hkind : t.kind = .returnWord) (hrest : 3 * rest.length < n) :
    Realizes .ahead .ahead (returning call t) rest (Grammar.statement tracing t rest) := by
  rw [returning, Grammar.statement.eq_def]
  simp only [hkind]
  apply realizes_peek
  by_cases hsemicolon : nextKind rest = .semicolon
  · rw [if_pos hsemicolon, if_pos hsemicolon]
    apply realizes_advance
    exact realizes_pure.of_tail
  · rw [if_neg hsemicolon, if_neg hsemicolon]
    by_cases hbare : nextKind rest = .rbrace ∨ nextKind rest = .eof
    · rw [if_pos hbare, if_pos hbare]
      exact realizes_pure
    · rw [if_neg hbare, if_neg hbare]
      apply realizes_advance
      apply (hcall.expression .lowest rest hrest).bind (by omega)
      exact realizes_ending

theorem realizes_statement (hcall : Realized tracing call n) {t : Token} {rest : List Token}
    (hts : 3 * (t :: rest).length < n) :
    Realizes .here .ahead (statement tracing call) (t :: rest)
      (Grammar.statement tracing t rest) := by
  have hrest : 3 * rest.length < n := by
    rw [List.length_cons] at hts
    omega
  rw [statement]
  apply Realizes.called
  apply realizes_current
  rw [List.headD_cons]
  cases hkind : t.kind with
  | letWord => exact (realizes_binding hcall hkind hrest).of_cons
  | returnWord => exact (realizes_returning hcall hkind hrest).of_cons
  | _ =>
    rw [Grammar.statement.eq_def]
    simp only [hkind]
    apply Realizes.traced
    apply (hcall.expression .lowest (t :: rest) hts).bind (by omega)
    exact realizes_ending

theorem realizes_blockStatements (hcall : Realized tracing call n) {ts : List Token}
    (hts : 3 * ts.length + 1 < n) :
    Realizes .here .ahead (blockStatements call) ts (Grammar.block tracing ts) := by
  rw [blockStatements]
  apply realizes_of_ne_eof
  intro heof
  apply realizes_current
  cases ts with
  | nil =>
    rw [Grammar.block]
    exact realizes_pure.of_tail
  | cons t rest =>
    have hrest : (t :: rest).length = rest.length + 1 := List.length_cons
    rw [Grammar.block, List.headD_cons]
    by_cases hclose : t.kind = .rbrace
    · rw [if_pos (.inl hclose), if_pos hclose]
      exact realizes_pure.of_tail
    · have hopen : ¬(t.kind = .rbrace ∨ t.kind = .eof) := by
        have := heof t List.mem_cons_self
        tauto
      rw [if_neg hopen, if_neg hclose]
      have hbound := (Grammar.statement tracing t rest).bound
      apply realizes_count_here
      apply (hcall.statement t rest hts).bind (by omega)
      apply realizes_advance
      -- even a statement that failed at its first token is passed
      apply realizes_comeBack_here (by omega)
      exact ((hcall.blockStatements _ (by omega)).map _).widen

theorem realizes_block (hcall : Realized tracing call n) {ts : List Token}
    (hts : 3 * ts.length + 2 < n) :
    Realizes .ahead .ahead (block call) ts (Grammar.block tracing ts) := by
  rw [block]
  apply Realizes.called
  apply realizes_advance
  exact hcall.blockStatements ts hts

theorem realizes_statements (hcall : Realized tracing call n) {ts : List Token}
    (hts : 3 * ts.length + 1 < n) :
    Realizes .here .here (statements call) ts (Grammar.statements tracing ts) := by
  rw [statements]
  apply realizes_of_ne_eof
  intro heof
  apply realizes_current
  cases ts with
  | nil =>
    -- the loop ends here only, with no token left
    rw [Grammar.statements]
    exact realizes_pure
  | cons t rest =>
    have hrest : (t :: rest).length = rest.length + 1 := List.length_cons
    rw [Grammar.statements, List.headD_cons, if_neg (heof t List.mem_cons_self)]
    have hbound := (Grammar.statement tracing t rest).bound
    apply realizes_count_here
    apply (hcall.statement t rest hts).bind (by omega)
    apply realizes_advance
    apply realizes_comeBack_here (by omega)
    exact ((hcall.statements _ (by omega)).map _).widen

theorem realizes_unary (hcall : Realized tracing call n) {t : Token} {op : UnaryOp}
    {rest : List Token} (hrest : 3 * rest.length < n) :
    Realizes .ahead .ahead (unary tracing call t op) rest (Grammar.unary tracing t op rest) := by
  rw [unary, Grammar.unary]
  apply Realizes.traced
  apply realizes_advance
  exact ((hcall.expression .unary rest hrest).map _).widen

theorem realizes_conditional (hcall : Realized tracing call n) {t : Token} {rest : List Token}
    (hrest : 3 * rest.length < n) :
    Realizes .ahead .ahead (conditional call t) rest (Grammar.conditional tracing t rest) := by
  rw [conditional, Grammar.conditional]
  apply realizes_expecting (by decide)
  intro _ us hus
  apply realizes_advance
  apply (hcall.expression .lowest us (by omega)).bind (by omega)
  have hvs := (Grammar.expression tracing .lowest us).bound
  generalize (Grammar.expression tracing .lowest us).value = c
  cases c with
  | none => exact realizes_pure
  | some c =>
    apply realizes_expecting (by decide)
    intro _ ws hws
    apply realizes_expecting (by decide)
    intro brace xs hxs
    apply (hcall.block xs (by omega)).bind (by omega)
    have hys := (Grammar.block tracing xs).bound
    apply realizes_peek
    by_cases helse : nextKind (Grammar.block tracing xs).rest = .elseWord
    · rw [if_pos helse, if_pos helse]
      apply realizes_advance
      apply Realizes.of_tail
      apply realizes_expecting (by decide)
      intro brace' zs hzs
      rw [List.length_tail] at hzs
      exact ((hcall.block zs (by omega)).map _).widen
    · rw [if_neg helse, if_neg helse]
      exact realizes_pure

theorem realizes_function (hcall : Realized tracing call n) {t : Token} {rest : List Token}
    (hrest : 3 * rest.length < n) :
    Realizes .ahead .ahead (function call t) rest (Grammar.function tracing t rest) := by
  rw [function, Grammar.function]
  apply realizes_expecting (by decide)
  intro _ us hus
  apply (hcall.list .rparen .parameter us (by decide) (by omega)).bind (Nat.le_refl _)
  generalize hparams : Parsed.separated .rparen (fun ts _ => Element.rule tracing .parameter ts) us
    (Nat.le_refl _) = params
  have hvs := params.bound
  cases params.value with
  | none => exact realizes_pure
  | some ps =>
    apply realizes_expecting (by decide)
    intro brace ws hws
    exact ((hcall.block ws (by omega)).map _).widen

theorem pairEnd_bind_eq {α : Type} (y : Read (Option α)) :
    (do if ← pairEnd then y else return none) = (do
      let kind ← peek
      if kind = .rbrace then y
      else if ← expectPeek .comma then y else return none) := by
  simp only [pairEnd, bind_assoc]
  congr 1
  funext kind
  by_cases hkind : kind = .rbrace
  · simp [hkind]
  · simp [hkind]

theorem realizes_hashPairs (hcall : Realized tracing call n) {ts : List Token}
    (hts : 3 * ts.length < n) :
    Realizes .ahead .ahead (hashPairs call) ts (Grammar.hashPairs tracing ts) := by
  rw [hashPairs, Grammar.hashPairs]
  apply realizes_peek
  by_cases hclose : nextKind ts = .rbrace
  · rw [if_pos hclose, if_pos hclose]
    apply realizes_advance
    exact realizes_pure.of_tail
  · rw [if_neg hclose, if_neg hclose]
    apply realizes_count_ahead
    intro c hc _
    apply realizes_advance
    have hus := (Grammar.expression tracing .lowest ts).bound
    apply (hcall.expression .lowest ts hts).bind (by omega)
    generalize (Grammar.expression tracing .lowest ts).value = key
    apply realizes_expecting (by decide)
    intro _ vs hvs
    apply realizes_advance
    have hws := (Grammar.expression tracing .lowest vs).bound
    apply (hcall.expression .lowest vs (by omega)).bind (by omega)
    generalize (Grammar.expression tracing .lowest vs).value = value
    cases key with
    | none => exact realizes_pure
    | some k =>
      cases value with
      | none => exact realizes_pure
      | some v =>
        dsimp only
        rw [pairEnd_bind_eq]
        apply realizes_peek
        by_cases hlast : nextKind (Grammar.expression tracing .lowest vs).rest = .rbrace
        · -- back at its head, the loop finds the brace
          rw [if_pos hlast, if_pos hlast]
          have hpairs := (hcall.hashPairs (Grammar.expression tracing .lowest vs).rest
            (by omega)).map fun ps => ps.map ((k, v) :: ·)
          rw [Grammar.hashPairs, if_pos hlast] at hpairs
          apply realizes_comeBack_ahead (by omega)
          exact hpairs.congr rfl rfl rfl rfl
        · rw [if_neg hlast, if_neg hlast]
          apply realizes_expectPeek (by decide)
          intro _ xs hxs
          apply Realizes.of_cons
          -- the colon is gone: without one, the rule has given up before
          apply realizes_comeBack_ahead (by omega)
          exact ((hcall.hashPairs xs (by omega)).map _).widen

theorem realizes_operand (hcall : Realized tracing call n) {t : Token} {rest : List Token}
    (hrest : 3 * rest.length + 1 < n) :
    Realizes .ahead .ahead (operand tracing call t) rest (Grammar.operand tracing t rest) := by
  rw [operand, Grammar.operand.eq_def]
  apply Realizes.called
  cases t.kind with
  | ident => exact realizes_pure
  | int =>
    apply Realizes.traced
    cases decimal? t.literal with
    | some k => exact realizes_pure
    | none => exact realizes_failed
  | string => exact realizes_pure
  | trueWord => exact realizes_pure
  | falseWord => exact realizes_pure
  | bang => exact realizes_unary hcall (by omega)
  | minus => exact realizes_unary hcall (by omega)
  | lparen =>
    show Realizes _ _ (grouped call) _ _
    rw [grouped]
    apply realizes_advance
    apply (hcall.expression .lowest rest (by omega)).bind (by omega)
    apply realizes_expecting (by decide)
    intro _ vs _
    exact realizes_pure
  | ifWord => exact realizes_conditional hcall (by omega)
  | fnWord => exact realizes_function hcall (by omega)
  | lbracket => exact (hcall.list .rbracket .expression rest (by decide) hrest).map _
  | lbrace => exact (hcall.hashPairs rest hrest).map _
  | _ => exact realizes_failed

theorem realizes_operator (hcall : Realized tracing call n) {left : Option Expr} {t : Token}
    {rest : List Token} (hrest : 3 * rest.length + 1 < n) :
    Realizes .ahead .ahead (operator tracing call left t) rest
      (Grammar.operator tracing left t rest) := by
  rw [operator, Grammar.operator.eq_def]
  apply Realizes.called
  cases t.kind with
  | lparen => exact (hcall.list .rparen .expression rest (by decide) hrest).map _
  | lbracket =>
    apply realizes_advance
    apply (hcall.expression .lowest rest (by omega)).bind (by omega)
    apply realizes_expecting (by decide)
    intro _ vs _
    exact realizes_pure
  | _ =>
    apply Realizes.traced
    apply realizes_advance
    exact ((hcall.expression _ rest (by omega)).map _).widen

theorem realizes_operators (hcall : Realized tracing call n) {level : Level} {left : Option Expr}
    {ts : List Token} (hts : 3 * ts.length < n + 1) :
    Realizes .ahead .ahead (operators call level left) ts
      (Grammar.operators tracing level left ts) := by
  rw [operators]
  apply realizes_peek
  cases ts with
  | nil =>
    -- the end of the text binds no tighter than any level
    have hend : ¬(Token.Kind.eof ≠ .semicolon ∧ level.rank < Token.Kind.eof.level.rank) :=
      fun h => Nat.not_lt_zero _ h.2
    rw [nextKind_nil, if_neg hend, Grammar.operators]
    exact realizes_pure
  | cons t rest =>
    have hrest : (t :: rest).length = rest.length + 1 := List.length_cons
    rw [nextKind_cons, Grammar.operators]
    by_cases hlevel : level.rank < t.kind.level.rank
    · have hsemicolon : t.kind ≠ .semicolon := by
        intro hkind
        rw [hkind] at hlevel
        exact Nat.not_lt_zero _ hlevel
      rw [if_pos ⟨hsemicolon, hlevel⟩, if_pos hlevel]
      apply realizes_count_ahead
      intro c _ hc
      have hc := hc (List.cons_ne_nil t rest)
      apply realizes_advance
      apply realizes_current
      rw [List.headD_cons]
      apply Realizes.of_cons
      have hbound := (Grammar.operator tracing left t rest).bound
      apply (hcall.operator left t rest (by omega)).bind (by omega)
      apply realizes_comeBack_ahead (by omega)
      exact (hcall.operators _ _ _ (by omega)).widen
    · rw [if_neg (fun h => hlevel h.2), if_neg hlevel]
      exact realizes_pure

theorem realizes_expression (hcall : Realized tracing call n) {level : Level} {ts : List Token}
    (hts : 3 * ts.length < n + 1) :
    Realizes .here .ahead (expression tracing call level) ts
      (Grammar.expression tracing level ts) := by
  rw [expression, Grammar.expression.eq_def]
  apply Realizes.called
  apply Realizes.traced
  apply realizes_nesting
  intro s hs hinside
  have hcurrent : current s = some (ts.headD .endOfText, s) := by
    rw [← hs]
    rfl
  rw [bind_of_eq_some hcurrent]
  cases ts with
  | nil => exact report_yields (.noExpression .eof) (congrArg List.tail hs)
  | cons t rest =>
    rw [List.length_cons] at hts hinside
    rw [List.headD_cons]
    dsimp only
    by_cases hstarts : t.kind.startsExpr
    · rw [if_pos hstarts, if_pos hstarts]
      have hbound := (Grammar.operand tracing t rest).bound
      -- the body begins after the first token, so expressions in it have fewer tokens
      have hroom (c : Nat) (hc : c ∈ s.enclosing) : rest.length < c := by
        rw [hinside] at hc
        cases hc
        exact Nat.lt_succ_self _
      refine (hcall.operand t rest (by omega)).bind (Nat.le_refl _) ?_ s
        (congrArg List.tail hs) hroom
      exact (hcall.operators _ _ _ (by omega)).widen
    · rw [if_neg hstarts, if_neg hstarts]
      exact report_yields (.noExpression t.kind) (congrArg List.tail hs)

/-! ## 6. Unrolled calls -/

theorem Realized.unroll (h : Realized tracing call n) :
    Realized tracing (call.unroll tracing) (n + 1) where
  expression _ _ hts := realizes_expression h hts
  operand _ _ hrest := realizes_operand h (by omega)
  operators _ _ _ hts := realizes_operators h hts
  operator _ _ _ hrest := realizes_operator h (by omega)
  hashPairs _ hts := realizes_hashPairs h (by omega)
  list _ e _ hclose hts := realizes_list h e hclose (by omega)
  listRest _ e _ _ _ hm hk hclose hts := realizes_listRest h e hclose hm hk hts
  block _ hts := realizes_block h (by omega)
  blockStatements _ hts := realizes_blockStatements h (by omega)
  statement _ _ hts := realizes_statement h (by omega)
  statements _ hts := realizes_statements h (by omega)

theorem realized_within (tracing : Bool) (n : Nat) :
    Realized tracing (Routines.within tracing n) n := by
  induction n with
  | zero => constructor <;> (intros; omega)
  | succ n ih => exact ih.unroll

end

theorem rest_statements (tracing : Bool) (ts : List Token) :
    (Grammar.statements tracing ts).rest = [] := by
  induction ts using (measure List.length).wf.induction with
  | _ ts ih =>
    cases ts with
    | nil =>
      rw [Grammar.statements]
      rfl
    | cons t rest =>
      have hbound := (Grammar.statement tracing t rest).bound
      rw [Grammar.statements]
      exact ih _ (Nat.lt_succ_of_le hbound)

/-- No token of a text is the end of the text. -/
theorem takeWhile_scan (cs : List Char) :
    (Token.scan cs).takeWhile (·.kind ≠ .eof) = Token.scan cs := by
  rw [List.takeWhile_eq_self_iff]
  intro t ht
  have hlexeme := Token.isLexeme_of_mem_scan ht
  rw [decide_eq_true_iff]
  intro hkind
  rw [Token.IsLexeme, hkind] at hlexeme
  exact hlexeme

/-- On every list of tokens, and so on every text, the parser returns.  No call is cut off as soon
as three calls for each token, and three more, may be open at once, and the run is the same however
many more may be.  It gives the statements, the errors and the trace that the grammar gives, and no
token is left, so that it stands at the end of the text.  All that it recorded is in order: no
routine returned with more tokens than it was called with, every expression began with fewer tokens
than the expression around it, and every loop came back to its head with fewer tokens than it had
there before. -/
theorem statements_terminates (tracing : Bool) :
    (∀ ts : List Token, ∃ s : Reader,
      let parsed := Parse.ofTokens tracing (ts.takeWhile (·.kind ≠ .eof))
      (∀ k, (Routines.within tracing (3 * (ts.length + 1) + k)).statements (ofTokens ts) =
        some (parsed.program.statements, s)) ∧
      s.errors = parsed.errors ∧ s.trace = parsed.trace ∧ s.left = [] ∧ s.Descending) ∧
    ∀ source : String, ∃ s : Reader,
      let tokens := Token.scan source.toList
      (∀ k, (Routines.within tracing (3 * (tokens.length + 1) + k)).statements (ofTokens tokens) =
        some ((parse tracing source).program.statements, s)) ∧
      s.errors = (parse tracing source).errors ∧ s.trace = (parse tracing source).trace ∧
      s.left = [] ∧ s.Descending := by
  have hall (ts : List Token) : ∃ s : Reader,
      let parsed := Parse.ofTokens tracing (ts.takeWhile (·.kind ≠ .eof))
      (∀ k, (Routines.within tracing (3 * (ts.length + 1) + k)).statements (ofTokens ts) =
        some (parsed.program.statements, s)) ∧
      s.errors = parsed.errors ∧ s.trace = parsed.trace ∧ s.left = [] ∧ s.Descending := by
    have hroom : ∀ c ∈ (ofTokens ts).enclosing, (ofTokens ts).left.length < c :=
      fun _ hc => nomatch hc
    have hlength : (ofTokens ts).left.length ≤ ts.length :=
      (List.takeWhile_sublist _).length_le
    obtain ⟨s, hrun, hs⟩ := (realized_within tracing (3 * (ts.length + 1))).statements
      (ofTokens ts).left (by omega) (ofTokens ts) rfl hroom
    exact ⟨s, fun k => (below_within tracing _ k).statements _ _ hrun, hs.errors, hs.trace,
      hs.tokens.trans (rest_statements tracing _), hs.descending fun _ he => nomatch he⟩
  refine ⟨hall, fun source => ?_⟩
  have hsource := hall (Token.scan source.toList)
  rw [takeWhile_scan] at hsource
  exact hsource

/-- A condition with a block, in which stands a list with operators, and then a hash. -/
def nestedText : String := "if (a) \x7b [-b, c * 2] \x7d \x7b3: d\x7d"

/-- What is recorded for this text: the product inside the list, the operand inside `-b`, a return,
and the rounds of the loops over operators, elements, statements of a block, pairs and statements of
the program. -/
def nestedEvents : List Event :=
  [.nested (some 14) 10, .nested (some 13) 12, .returned 19 6, .round 10 8, .round 12 8,
    .round 14 6, .round 5 2, .round 5 0]

theorem statements_terminates_nested :
    ∃ s : Reader,
      (Routines.within false 60).statements (ofTokens (Token.scan nestedText.toList)) =
        some ((parse false nestedText).program.statements, s) ∧
      (parse false nestedText).program.statements.length = 2 ∧ s.errors = [] ∧ s.left = [] ∧
      nestedEvents ⊆ s.log ∧ s.Descending := by
  obtain ⟨s, hruns, -, -, hleft, hdescending⟩ := (statements_terminates false).2 nestedText
  have hlength : (Token.scan nestedText.toList).length = 19 := by
    cbv
  have hrun := hruns 0
  rw [hlength] at hrun
  have hseen : ((Routines.within false 60).statements
      (ofTokens (Token.scan nestedText.toList))).map (fun r =>
        (r.1.length, r.2.errors.isEmpty, decide (nestedEvents ⊆ r.2.log))) =
      some (2, true, true) := by
    decide +kernel
  rw [hrun, Option.map_some, Option.some.injEq, Prod.mk.injEq, Prod.mk.injEq] at hseen
  exact ⟨s, hrun, hseen.1, List.isEmpty_iff.mp hseen.2.1, hleft, of_decide_eq_true hseen.2.2,
    hdescending⟩

end Monkey.Reader

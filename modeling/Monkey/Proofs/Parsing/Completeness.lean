import Monkey.Proofs.Parsing.Canonical
import Monkey.Proofs.Parsing.Soundness

/-!
# Parsing is complete

Every spelling of a program is read as that program, without errors.

The loop over the operators decides what an expression takes in, so an expression cannot be read by
itself: `ReadAs` says what is read when the operators after it are read as well.  Whoever reads the
expression asks for operators tighter than some level, and what follows must not bind tighter than
the place where the expression stands.
-/

namespace Monkey

open Parsed Grammar

/-! ## Where an expression ends -/

/-- What follows an expression in a place `m` does not bind into it, and is not the `else` of a
conditional that ends it. -/
def Follows (m : Nat) (rest : List Token) : Prop :=
  (m ≤ 5 → nextRank rest ≤ m) ∧ nextKind rest ≠ .elseWord

/-- The tokens that can stand after an expression and take no part in it. -/
def Token.Kind.ends : Token.Kind → Bool
  | .rparen | .rbracket | .rbrace | .comma | .colon | .semicolon => true
  | _ => false

theorem Token.Kind.of_ends {k : Token.Kind} (h : k.ends) :
    k.level.rank = 0 ∧ k ≠ .elseWord ∧ ¬k.startsExpr := by
  cases k <;> first | contradiction | decide

theorem Follows.of_ends {m : Nat} {c : Token} {rest : List Token} (hc : c.kind.ends) :
    Follows m (c :: rest) := by
  obtain ⟨hrank, helse, -⟩ := Token.Kind.of_ends hc
  refine ⟨fun _ => ?_, helse⟩
  rw [nextRank_cons, hrank]
  exact Nat.zero_le m

/-- An operator of a stratum is known by its token. -/
theorem mem_operatorsAt {k : Token.Kind} {op : BinaryOp} {n : Nat} (h : (k, op) ∈ operatorsAt n) :
    k.level.rank = n ∧ n ≤ 4 ∧ k.binaryOp? = some op ∧ k ≠ .lparen ∧ k ≠ .lbracket ∧
      k ≠ .elseWord := by
  match n, h with
  | 1, h | 2, h | 3, h | 4, h =>
    simp only [operatorsAt, List.mem_cons, List.not_mem_nil, or_false, Prod.mk.injEq] at h
    obtain ⟨rfl, rfl⟩ | ⟨rfl, rfl⟩ := h <;> decide

/-- A spelling begins with a token that begins expressions. -/
theorem Spells.exists_cons {m : Nat} {e : Expr} {ts : List Token} (h : Spells m e ts) :
    ∃ t us, ts = t :: us ∧ t.kind.startsExpr := by
  cases h with
  | parens h _ _ => exact ⟨_, _, rfl, by rw [h]; rfl⟩
  | ident h => exact ⟨_, _, rfl, by rw [h]; rfl⟩
  | int h _ => exact ⟨_, _, rfl, by rw [h]; rfl⟩
  | str h => exact ⟨_, _, rfl, by rw [h]; rfl⟩
  | true h => exact ⟨_, _, rfl, by rw [h]; rfl⟩
  | false h => exact ⟨_, _, rfl, by rw [h]; rfl⟩
  | not _ h _ => exact ⟨_, _, rfl, by rw [h]; rfl⟩
  | neg _ h _ => exact ⟨_, _, rfl, by rw [h]; rfl⟩
  | cond h _ _ _ _ => exact ⟨_, _, rfl, by rw [h]; rfl⟩
  | condElse h _ _ _ _ _ _ => exact ⟨_, _, rfl, by rw [h]; rfl⟩
  | func h _ _ _ _ => exact ⟨_, _, rfl, by rw [h]; rfl⟩
  | array h _ _ => exact ⟨_, _, rfl, by rw [h]; rfl⟩
  | hash h _ _ => exact ⟨_, _, rfl, by rw [h]; rfl⟩
  | binary _ _ hl _ =>
    obtain ⟨t, us, rfl, ht⟩ := Spells.exists_cons hl
    exact ⟨t, _, rfl, ht⟩
  | call hf _ _ _ =>
    obtain ⟨t, us, rfl, ht⟩ := Spells.exists_cons hf
    exact ⟨t, _, rfl, ht⟩
  | index hl _ _ _ =>
    obtain ⟨t, us, rfl, ht⟩ := Spells.exists_cons hl
    exact ⟨t, _, rfl, ht⟩

theorem Spells.startsExpr {m : Nat} {e : Expr} {ts : List Token} (h : Spells m e ts)
    (rest : List Token) : (nextKind (ts ++ rest)).startsExpr := by
  obtain ⟨t, us, rfl, ht⟩ := h.exists_cons
  exact ht

theorem Spells.nextKind_ne {m : Nat} {e : Expr} {ts rest : List Token} {k : Token.Kind}
    (h : Spells m e ts) (hk : ¬k.startsExpr) : nextKind (ts ++ rest) ≠ k := by
  intro hnext
  rw [← hnext] at hk
  exact hk (h.startsExpr rest)

section

variable {tracing : Bool} {m : Nat}

/-- Wherever the tokens stand, they are read as the expression, which the operators after them
continue. -/
def ReadAs (tracing : Bool) (m : Nat) (ts : List Token) (e : Expr) : Prop :=
  ∀ (level : Level) (rest us : List Token) (v : Option Expr),
    level.rank ≤ 5 → level.rank < m ∨ 5 ≤ m → Follows m rest →
    (operators tracing level (some e) rest).Reads v us →
    (expression tracing level (ts ++ rest)).Reads v us

theorem readAs_of_operand {t : Token} {us : List Token} {e : Expr} (ht : t.kind.startsExpr)
    (h : ∀ rest, Follows m rest → (operand tracing t (us ++ rest)).Reads (some e) rest) :
    ReadAs tracing m (t :: us) e := by
  intro level rest ws v _ _ hrest hv
  exact reads_expression.mpr ⟨t, us ++ rest, some e, rest, rfl, ht, h rest hrest, hv⟩

/-- An expression is read in whole at a level above which nothing follows. -/
theorem ReadAs.reads {level : Level} {ts rest : List Token} {e : Expr} (h : ReadAs tracing m ts e)
    (hlevel : level.rank ≤ 5) (hm : level.rank < m ∨ 5 ≤ m) (hrest : Follows m rest)
    (hrank : nextRank rest ≤ level.rank) :
    (expression tracing level (ts ++ rest)).Reads (some e) rest :=
  h level rest rest (some e) hlevel hm hrest ((reads_operators_of_le hrank).mpr ⟨rfl, rfl⟩)

/-- An expression is read in whole before a token that ends it. -/
theorem ReadAs.reads_lowest {ts : List Token} {e : Expr} {c : Token} (h : ReadAs tracing 1 ts e)
    (hc : c.kind.ends) (rest : List Token) :
    (expression tracing .lowest (ts ++ c :: rest)).Reads (some e) (c :: rest) := by
  refine h.reads (Nat.zero_le 5) (.inl Nat.zero_lt_one) (.of_ends hc) ?_
  rw [nextRank_cons, (Token.Kind.of_ends hc).1]
  exact Nat.le_refl 0

/-- What an operator before its operand takes in binds tighter than every operator between two. -/
theorem ReadAs.reads_unaryLevel {ts rest : List Token} {e : Expr} (h : ReadAs tracing 5 ts e)
    (hm : m ≤ 5) (hrest : Follows m rest) :
    (expression tracing .unary (ts ++ rest)).Reads (some e) rest := by
  have hrank : nextRank rest ≤ 5 := Nat.le_trans (hrest.1 hm) hm
  exact h.reads (Nat.le_refl 5) (.inr (Nat.le_refl 5)) ⟨fun _ => hrank, hrest.2⟩ hrank

/-- An operator takes the operand after it, up to operators that bind no tighter. -/
theorem reads_operator_binary {t : Token} {op : BinaryOp} {n : Nat} {l r : Expr}
    {us rest : List Token} (hop : (t.kind, op) ∈ operatorsAt n)
    (hr : (expression tracing t.kind.level us).Reads (some r) rest) :
    (operator tracing (some l) t us).Reads (some (.binary t l op r)) rest := by
  obtain ⟨-, -, hbin, hparen, hbracket, -⟩ := mem_operatorsAt hop
  rw [operator.eq_def]
  split
  · exact absurd ‹_› hparen
  · exact absurd ‹_› hbracket
  · rw [reads_traced, reads_widen, reads_map]
    refine ⟨some r, hr, ?_⟩
    rw [hbin]
    rfl

/-- The names between parentheses are read as they stand. -/
theorem SpellsNames.reads {xs : List String} {ts rest : List Token} {c : Token} {k : Nat}
    (h : SpellsNames xs ts) (hc : c.kind = .rparen) (hk : (ts ++ c :: rest).length ≤ k) :
    (separated .rparen (fun ts _ => parameter ts) (ts ++ c :: rest) hk).Reads (some xs) rest := by
  have hitems : ∀ {xs ts}, SpellsNames xs ts → xs ≠ [] → ∀ hk : (ts ++ c :: rest).length ≤ k,
      (items .rparen (fun ts _ => parameter ts) (ts ++ c :: rest) hk).Reads (some xs) rest := by
    intro xs ts h hne hk
    induction h with
    | nil => exact absurd rfl hne
    | @one x hx =>
      have hread : (parameter (x :: c :: rest)).Reads (some x.literal) (c :: rest) := by
        simp [parameter, hx]
      exact reads_items_last hread hc (by decide)
    | @more x d y xs ts hx hd _ ih =>
      have hread : (parameter (x :: d :: (ts ++ c :: rest))).Reads (some x.literal)
          (d :: (ts ++ c :: rest)) := by
        simp [parameter, hx]
      have hk' : (ts ++ c :: rest).length ≤ k := by
        simp only [List.cons_append, List.length_cons] at hk
        omega
      exact reads_items_more hread hd (ih (by simp) hk')
  rw [separated]
  cases h with
  | nil => simp [hc]
  | one hx =>
    rw [if_neg (by simp [hx])]
    exact hitems (.one hx) (by simp) hk
  | more hx hd hxs =>
    rw [if_neg (by simp [hx])]
    exact hitems (.more hx hd hxs) (by simp) hk

/-- A list that does not begin with its closing token has elements. -/
theorem reads_separated {α : Type} {close : Token.Kind} {k : Nat}
    {element : (ts : List Token) → ts.length ≤ k → Parsed (Option α) (ts.length - 1)}
    {ts rest : List Token} {h : ts.length ≤ k} {v : Option (List α)} (hts : nextKind ts ≠ close)
    (hv : (items close element ts h).Reads v rest) :
    (separated close element ts h).Reads v rest := by
  rw [separated, if_neg hts]
  exact hv

/-- After a pair stands the closing brace, or a comma and the other pairs. -/
theorem reads_hashPairs {ts us vs rest : List Token} {d c : Token} {k v : Expr}
    {ps : List (Expr × Expr)} (hts : nextKind ts ≠ .rbrace)
    (hk : (expression tracing .lowest ts).Reads (some k) (d :: us)) (hd : d.kind = .colon)
    (hv : (expression tracing .lowest us).Reads (some v) (c :: vs))
    (hps : c.kind = .rbrace ∧ ps = [] ∧ vs = rest ∨
      c.kind = .comma ∧ (hashPairs tracing vs).Reads (some ps) rest) :
    (hashPairs tracing ts).Reads (some ((k, v) :: ps)) rest := by
  rw [hashPairs.eq_def, if_neg hts, reads_andThen]
  refine ⟨some k, d :: us, hk.length_le, hk, ?_⟩
  rw [reads_expecting]
  refine ⟨d, us, Nat.lt_succ_self _, rfl, hd, ?_⟩
  rw [reads_andThen]
  refine ⟨some v, c :: vs, hv.length_le, hv, ?_⟩
  obtain ⟨hc, rfl, rfl⟩ | ⟨hc, hps⟩ := hps
  · have hclose : nextKind (c :: vs) = .rbrace := hc
    simp only [if_pos hclose, reads_done, List.tail_cons, and_self]
  · have hmore : nextKind (c :: vs) ≠ .rbrace := by simp [hc]
    simp only [if_neg hmore, reads_expecting]
    refine ⟨c, vs, Nat.lt_succ_self _, rfl, hc, ?_⟩
    rw [reads_widen, reads_map]
    exact ⟨some ps, hps, rfl⟩

theorem reads_operand_group {o c : Token} {us rest : List Token} {e : Expr} (ho : o.kind = .lparen)
    (he : (expression tracing .lowest us).Reads (some e) (c :: rest)) (hc : c.kind = .rparen) :
    (operand tracing o us).Reads (some e) rest := by
  rw [operand.eq_def]
  simp only [ho, reads_andThen, reads_expecting, reads_done]
  exact ⟨some e, c :: rest, he.length_le, he, c, rest, Nat.lt_succ_self _, rfl, hc, rfl, rfl⟩

theorem reads_unary {t : Token} {op : UnaryOp} {us rest : List Token} {e : Expr}
    (he : (expression tracing .unary us).Reads (some e) rest) :
    (unary tracing t op us).Reads (some (.unary t op e)) rest := by
  rw [unary, reads_traced, reads_widen, reads_map]
  exact ⟨some e, he, rfl⟩

theorem reads_conditional {t o p b : Token} {us vs ws rest : List Token} {c : Expr}
    {ss : List Stmt} (ho : o.kind = .lparen)
    (hc : (expression tracing .lowest us).Reads (some c) (p :: b :: vs)) (hp : p.kind = .rparen)
    (hb : b.kind = .lbrace) (hyes : (block tracing vs).Reads ss ws) {v : Option Expr}
    (helse : nextKind ws ≠ .elseWord ∧ v = some (.cond t c (.mk b ss) none) ∧ ws = rest ∨
      ∃ e b' xs ss', ws = e :: b' :: xs ∧ e.kind = .elseWord ∧ b'.kind = .lbrace ∧
        (block tracing xs).Reads ss' rest ∧
        v = some (.cond t c (.mk b ss) (some (.mk b' ss')))) :
    (conditional tracing t (o :: us)).Reads v rest := by
  rw [conditional, reads_expecting]
  refine ⟨o, us, Nat.lt_succ_self _, rfl, ho, ?_⟩
  rw [reads_andThen]
  refine ⟨some c, p :: b :: vs, hc.length_le, hc, ?_⟩
  simp only [reads_expecting]
  refine ⟨p, b :: vs, Nat.lt_succ_self _, rfl, hp, b, vs, Nat.lt_succ_self _, rfl, hb, ?_⟩
  rw [reads_andThen]
  refine ⟨ss, ws, hyes.length_le, hyes, ?_⟩
  obtain ⟨hne, rfl, rfl⟩ | ⟨e, b', xs, ss', rfl, he, hb', hno, rfl⟩ := helse
  · rw [if_neg hne, reads_done]
    exact ⟨rfl, rfl⟩
  · have hnext : nextKind (e :: b' :: xs) = .elseWord := he
    rw [if_pos hnext, reads_expecting]
    refine ⟨b', xs, Nat.lt_succ_self _, rfl, hb', ?_⟩
    rw [reads_widen, reads_map]
    exact ⟨ss', hno, rfl⟩

theorem reads_function {t o b : Token} {us vs rest : List Token} {xs : List String}
    {ss : List Stmt} (ho : o.kind = .lparen)
    (hxs : (separated .rparen (fun ts _ => parameter ts) us (Nat.le_refl _)).Reads (some xs)
      (b :: vs)) (hb : b.kind = .lbrace) (hbody : (block tracing vs).Reads ss rest) :
    (function tracing t (o :: us)).Reads (some (.func t xs (.mk b ss))) rest := by
  rw [function, reads_expecting]
  refine ⟨o, us, Nat.lt_succ_self _, rfl, ho, ?_⟩
  rw [reads_andThen]
  refine ⟨some xs, b :: vs, hxs.length_le, hxs, ?_⟩
  simp only [reads_expecting]
  refine ⟨b, vs, Nat.lt_succ_self _, rfl, hb, ?_⟩
  rw [reads_widen, reads_map]
  exact ⟨ss, hbody, rfl⟩

theorem reads_operator_call {t : Token} {f : Expr} {args : List Expr} {us rest : List Token}
    (ht : t.kind = .lparen)
    (hargs : (separated .rparen (fun ts _ => expression tracing .lowest ts) us
      (Nat.le_refl _)).Reads (some args) rest) :
    (operator tracing (some f) t us).Reads (some (.call t f args)) rest := by
  rw [operator.eq_def]
  simp only [ht, reads_map]
  exact ⟨some args, hargs, rfl⟩

theorem reads_operator_index {t c : Token} {l i : Expr} {us rest : List Token}
    (ht : t.kind = .lbracket)
    (hi : (expression tracing .lowest us).Reads (some i) (c :: rest)) (hc : c.kind = .rbracket) :
    (operator tracing (some l) t us).Reads (some (.index t l i)) rest := by
  rw [operator.eq_def]
  simp only [ht, reads_andThen, reads_expecting, reads_done]
  exact ⟨some i, c :: rest, hi.length_le, hi, c, rest, Nat.lt_succ_self _, rfl, hc, rfl, rfl⟩

/-! ## Expressions -/

theorem readAs_ident {t : Token} (ht : t.kind = .ident) :
    ReadAs tracing m [t] (.ident t t.literal) := by
  refine readAs_of_operand (by rw [ht]; rfl) fun rest _ => ?_
  rw [operand.eq_def]
  simp only [ht, List.nil_append, reads_done, and_self]

theorem readAs_int {t : Token} (ht : t.kind = .int) (hn : numeral t.literal < 2 ^ 63) :
    ReadAs tracing m [t] (.int t (Int64.ofNat (numeral t.literal))) := by
  refine readAs_of_operand (by rw [ht]; rfl) fun rest _ => ?_
  have hdecimal := decimal?_eq_some_iff.mpr ⟨hn, rfl⟩
  rw [operand.eq_def]
  simp only [ht, hdecimal, List.nil_append, reads_traced, reads_done, and_self]

theorem ReadAs.binary {n : Nat} {t : Token} {op : BinaryOp} {l r : Expr} {ls rs : List Token}
    (hm : m ≤ n) (hop : (t.kind, op) ∈ operatorsAt n) (hl : ReadAs tracing n ls l)
    (hr : ReadAs tracing (n + 1) rs r) : ReadAs tracing m (ls ++ t :: rs) (.binary t l op r) := by
  obtain ⟨hrank, hn, -, -, -, helse⟩ := mem_operatorsAt hop
  intro level rest us v hlevel htight hrest hv
  have hlt : level.rank < n := by omega
  have hnext : nextRank rest ≤ n := Nat.le_trans (hrest.1 (by omega)) hm
  rw [List.append_assoc]
  -- the left operand stops before `t`, which the loop takes at this level
  refine hl level _ us v hlevel (.inl hlt) ⟨fun _ => Nat.le_of_eq hrank, helse⟩ ?_
  refine (reads_operators_of_lt (by rw [hrank]; exact hlt)).mpr ⟨_, rest, ?_, hv⟩
  refine reads_operator_binary hop (hr.reads (by omega) (.inl (by omega)) ?_ (by omega))
  exact ⟨fun _ => by omega, hrest.2⟩

/-- A call binds tighter than every level, so the loop takes it at each. -/
theorem ReadAs.call {t c : Token} {f : Expr} {args : List Expr} {fs ts : List Token}
    (hf : ReadAs tracing 6 fs f) (ht : t.kind = .lparen)
    (hargs : ∀ rest, (separated .rparen (fun ts _ => expression tracing .lowest ts)
      (ts ++ c :: rest) (Nat.le_refl _)).Reads (some args) rest) :
    ReadAs tracing m (fs ++ t :: (ts ++ [c])) (.call t f args) := by
  intro level rest us v hlevel _ hrest hv
  have hrank : t.kind.level.rank = 6 := by rw [ht]; rfl
  rw [List.append_assoc, List.cons_append, List.append_assoc]
  refine hf level _ us v hlevel (.inr (by omega)) ⟨by omega, by simp [ht]⟩ ?_
  refine (reads_operators_of_lt (by omega)).mpr ⟨_, rest, ?_, hv⟩
  exact reads_operator_call ht (hargs rest)

theorem readAs_condElse {t o p b e b' : Token} {c : Expr} {ss ss' : List Stmt}
    {cs us vs : List Token} (ht : t.kind = .ifWord) (ho : o.kind = .lparen)
    (hc : ReadAs tracing 1 cs c) (hp : p.kind = .rparen) (hb : b.kind = .lbrace)
    (hyes : ∀ rest, (block tracing (us ++ rest)).Reads ss rest) (he : e.kind = .elseWord)
    (hb' : b'.kind = .lbrace) (hno : ∀ rest, (block tracing (vs ++ rest)).Reads ss' rest) :
    ReadAs tracing m (t :: o :: (cs ++ p :: (b :: us ++ e :: b' :: vs)))
      (.cond t c (.mk b ss) (some (.mk b' ss'))) := by
  refine readAs_of_operand (by rw [ht]; rfl) fun rest _ => ?_
  have hts : o :: (cs ++ p :: (b :: us ++ e :: b' :: vs)) ++ rest =
      o :: (cs ++ p :: b :: (us ++ e :: b' :: (vs ++ rest))) := by
    simp
  rw [hts, operand.eq_def]
  simp only [ht]
  exact reads_conditional ho (hc.reads_lowest (by rw [hp]; rfl) _) hp hb (hyes _)
    (.inr ⟨e, b', vs ++ rest, ss', rfl, he, hb', hno rest, rfl⟩)

theorem readAs_func {t o c b : Token} {xs : List String} {ss : List Stmt} {ts us : List Token}
    (ht : t.kind = .fnWord) (ho : o.kind = .lparen) (hxs : SpellsNames xs ts)
    (hc : c.kind = .rparen) (hb : b.kind = .lbrace)
    (hbody : ∀ rest, (block tracing (us ++ rest)).Reads ss rest) :
    ReadAs tracing m (t :: o :: (ts ++ c :: b :: us)) (.func t xs (.mk b ss)) := by
  refine readAs_of_operand (by rw [ht]; rfl) fun rest _ => ?_
  rw [operand.eq_def, List.cons_append, List.append_assoc]
  simp only [ht]
  exact reads_function ho (hxs.reads hc _) hb (hbody rest)

/-! ## Statements -/

theorem skipSemicolon_cons {c : Token} {rest : List Token} (hc : c.kind = .semicolon) :
    skipSemicolon (c :: rest) = rest := by
  have hnext : nextKind (c :: rest) = .semicolon := hc
  rw [skipSemicolon, if_pos hnext]
  rfl

theorem reads_statement_bind {t x a : Token} {us vs : List Token} {e : Expr}
    (ht : t.kind = .letWord) (hx : x.kind = .ident) (ha : a.kind = .assign)
    (he : (expression tracing .lowest us).Reads (some e) vs) :
    (statement tracing t (x :: a :: us)).Reads (some (.bind t x.literal e)) (skipSemicolon vs) := by
  rw [statement.eq_def]
  simp only [ht, reads_expecting]
  refine ⟨x, a :: us, Nat.lt_succ_self _, rfl, hx, a, us, Nat.lt_succ_self _, rfl, ha, ?_⟩
  rw [reads_andThen]
  refine ⟨some e, vs, he.length_le, he, ?_⟩
  simp only [reads_done, and_self]

theorem reads_statement_ret {t : Token} {us vs : List Token} {e : Expr} (ht : t.kind = .returnWord)
    (hus : (nextKind us).startsExpr) (he : (expression tracing .lowest us).Reads (some e) vs) :
    (statement tracing t us).Reads (some (.ret t e)) (skipSemicolon vs) := by
  have hsemicolon : nextKind us ≠ .semicolon := by
    intro h
    rw [h] at hus
    contradiction
  have hends : ¬(nextKind us = .rbrace ∨ nextKind us = .eof) := by
    rintro (h | h) <;> rw [h] at hus <;> contradiction
  rw [statement.eq_def]
  simp only [ht, if_neg hsemicolon, if_neg hends, reads_andThen]
  refine ⟨some e, vs, he.length_le, he, ?_⟩
  simp only [reads_done, and_self]

theorem reads_statement_retNothing {t c : Token} {rest : List Token} (ht : t.kind = .returnWord)
    (hc : c.kind = .semicolon) :
    (statement tracing t (c :: rest)).Reads (some (.ret t .absent)) rest := by
  have hnext : nextKind (c :: rest) = .semicolon := hc
  rw [statement.eq_def]
  simp only [ht, if_pos hnext, reads_done, List.tail_cons, and_self]

theorem reads_statement_expr {t : Token} {us vs : List Token} {e : Expr} (ht : t.kind.startsExpr)
    (he : (expression tracing .lowest (t :: us)).Reads (some e) vs) :
    (statement tracing t us).Reads (some (.expr t e)) (skipSemicolon vs) := by
  rw [statement.eq_def]
  split
  -- neither `let` nor `return` begins an expression
  · rename_i h
    rw [h] at ht
    contradiction
  · rename_i h
    rw [h] at ht
    contradiction
  · rw [reads_traced, reads_andThen]
    refine ⟨some e, vs, he.length_le, he, ?_⟩
    simp only [reads_done, and_self]

/-- A `let` is read up to and with its semicolon. -/
theorem ReadAs.reads_bind {t x a c : Token} {ts : List Token} {e : Expr} (h : ReadAs tracing 1 ts e)
    (ht : t.kind = .letWord) (hx : x.kind = .ident) (ha : a.kind = .assign)
    (hc : c.kind = .semicolon) (rest : List Token) :
    (statement tracing t (x :: a :: (ts ++ c :: rest))).Reads (some (.bind t x.literal e))
      rest := by
  have hbind := reads_statement_bind ht hx ha (h.reads_lowest (by rw [hc]; rfl) rest)
  rw [skipSemicolon_cons hc] at hbind
  exact hbind

/-- An expression as a statement is read up to and with its semicolon. -/
theorem ReadAs.reads_expr {t c : Token} {us : List Token} {e : Expr}
    (h : ReadAs tracing 1 (t :: us) e) (ht : t.kind.startsExpr) (hc : c.kind = .semicolon)
    (rest : List Token) :
    (statement tracing t (us ++ c :: rest)).Reads (some (.expr t e)) rest := by
  have hexpr := reads_statement_expr ht (h.reads_lowest (by rw [hc]; rfl) rest)
  rw [skipSemicolon_cons hc] at hexpr
  exact hexpr

theorem reads_block_close {c : Token} {rest : List Token} (hc : c.kind = .rbrace) :
    (block tracing (c :: rest)).Reads [] rest := by
  rw [block.eq_def]
  simp only [if_pos hc, reads_done, and_self]

theorem reads_block_cons {t : Token} {us vs rest : List Token} {s : Stmt} {ss : List Stmt}
    (ht : t.kind ≠ .rbrace) (hs : (statement tracing t us).Reads (some s) vs)
    (hss : (block tracing vs).Reads ss rest) : (block tracing (t :: us)).Reads (s :: ss) rest := by
  rw [block.eq_def]
  simp only [if_neg ht, reads_andThen, reads_widen, reads_map]
  exact ⟨some s, vs, hs.length_le, hs, ss, hss, rfl⟩

theorem reads_statements_cons {t : Token} {us vs rest : List Token} {s : Stmt} {ss : List Stmt}
    (hs : (statement tracing t us).Reads (some s) vs)
    (hss : (statements tracing vs).Reads ss rest) :
    (statements tracing (t :: us)).Reads (s :: ss) rest := by
  rw [statements.eq_def]
  simp only [reads_andThen, reads_widen, reads_map]
  exact ⟨some s, vs, hs.length_le, hs, ss, hss, rfl⟩

/-! ## Spellings are read -/

mutual

/-- A spelling of an expression is read as that expression. -/
theorem Spells.readAs {m : Nat} {e : Expr} {ts : List Token} (h : Spells m e ts) :
    ∃ e', e'.unmarked = e.unmarked ∧ ReadAs tracing m ts e' := by
  match h with
  | .parens ho hc he =>
    obtain ⟨e', heq, he⟩ := Spells.readAs he
    refine ⟨e', heq, readAs_of_operand (by rw [ho]; rfl) fun rest _ => ?_⟩
    rw [List.append_assoc]
    exact reads_operand_group ho (he.reads_lowest (by rw [hc]; rfl) _) hc
  | .ident ht => exact ⟨_, rfl, readAs_ident ht⟩
  | .int ht hn => exact ⟨_, rfl, readAs_int ht hn⟩
  | @Spells.str _ t ht =>
    refine ⟨_, rfl, readAs_of_operand (by rw [ht]; rfl) fun rest _ => ?_⟩
    rw [operand.eq_def]
    simp only [ht, List.nil_append, reads_done, and_self]
  | @Spells.true _ t ht =>
    refine ⟨_, rfl, readAs_of_operand (by rw [ht]; rfl) fun rest _ => ?_⟩
    rw [operand.eq_def]
    simp only [ht, List.nil_append, reads_done, and_self]
  | @Spells.false _ t ht =>
    refine ⟨_, rfl, readAs_of_operand (by rw [ht]; rfl) fun rest _ => ?_⟩
    rw [operand.eq_def]
    simp only [ht, List.nil_append, reads_done, and_self]
  | @Spells.not _ t _ ts hm ht he =>
    obtain ⟨e', heq, he⟩ := Spells.readAs he
    refine ⟨.unary t .not e', by rw [Expr.unmarked, Expr.unmarked, heq],
      readAs_of_operand (by rw [ht]; rfl) fun rest hrest => ?_⟩
    rw [operand.eq_def]
    simp only [ht]
    exact reads_unary (he.reads_unaryLevel hm hrest)
  | @Spells.neg _ t _ ts hm ht he =>
    obtain ⟨e', heq, he⟩ := Spells.readAs he
    refine ⟨.unary t .neg e', by rw [Expr.unmarked, Expr.unmarked, heq],
      readAs_of_operand (by rw [ht]; rfl) fun rest hrest => ?_⟩
    rw [operand.eq_def]
    simp only [ht]
    exact reads_unary (he.reads_unaryLevel hm hrest)
  | @Spells.binary _ n t op _ _ ls rs hm hop hl hr =>
    obtain ⟨l', hleq, hl⟩ := Spells.readAs hl
    obtain ⟨r', hreq, hr⟩ := Spells.readAs hr
    exact ⟨.binary t l' op r', by rw [Expr.unmarked, Expr.unmarked, hleq, hreq],
      hl.binary hm hop hr⟩
  | @Spells.call _ t c _ args fs ts hf ht hargs hc =>
    obtain ⟨f', hfeq, hf⟩ := Spells.readAs hf
    obtain ⟨args', hargseq, hargs⟩ := SpellsList.reads hargs
    exact ⟨.call t f' args', by rw [Expr.unmarked, Expr.unmarked, hfeq, hargseq],
      hf.call ht fun _ => (hargs rfl (by decide) hc _).1⟩
  | @Spells.index _ t c _ _ ls is hl ht hi hc =>
    obtain ⟨l', hleq, hl⟩ := Spells.readAs hl
    obtain ⟨i', hieq, hi⟩ := Spells.readAs hi
    refine ⟨.index t l' i', by rw [Expr.unmarked, Expr.unmarked, hleq, hieq], ?_⟩
    intro level rest us v hlevel _ hrest hv
    -- an indexing binds tighter than every level as well
    have hrank : t.kind.level.rank = 7 := by rw [ht]; rfl
    rw [List.append_assoc, List.cons_append, List.append_assoc]
    refine hl level _ us v hlevel (.inr (by omega)) ⟨by omega, by simp [ht]⟩ ?_
    refine (reads_operators_of_lt (by omega)).mpr ⟨_, rest, ?_, hv⟩
    exact reads_operator_index ht (hi.reads_lowest (by rw [hc]; rfl) _) hc
  | @Spells.cond _ t o p _ yes cs ys ht ho hc hp hyes =>
    obtain ⟨c', hceq, hc⟩ := Spells.readAs hc
    obtain ⟨b, us, ss', rfl, hb, hyeseq, hyes⟩ := SpellsBlock.reads hyes
    refine ⟨.cond t c' (.mk b ss') none, by rw [Expr.unmarked, Expr.unmarked, hceq, hyeseq],
      readAs_of_operand (by rw [ht]; rfl) fun rest hrest => ?_⟩
    rw [operand.eq_def, List.cons_append, List.append_assoc]
    simp only [ht]
    -- without an `else` of its own, it must not take one that follows
    exact reads_conditional ho (hc.reads_lowest (by rw [hp]; rfl) _) hp hb (hyes rest)
      (.inl ⟨hrest.2, rfl, rfl⟩)
  | @Spells.condElse _ t o p e _ yes no cs ys ns ht ho hc hp hyes he hno =>
    obtain ⟨c', hceq, hc⟩ := Spells.readAs hc
    obtain ⟨b, us, ss, rfl, hb, hyeseq, hyes⟩ := SpellsBlock.reads hyes
    obtain ⟨b', vs, ss', rfl, hb', hnoeq, hno⟩ := SpellsBlock.reads hno
    exact ⟨.cond t c' (.mk b ss) (some (.mk b' ss')),
      by rw [Expr.unmarked, Expr.unmarked, hceq, hyeseq, hnoeq],
      readAs_condElse ht ho hc hp hb hyes he hb' hno⟩
  | @Spells.func _ t o c xs body ts bs ht ho hxs hc hbody =>
    obtain ⟨b, us, ss, rfl, hb, hbodyeq, hbody⟩ := SpellsBlock.reads hbody
    exact ⟨.func t xs (.mk b ss), by rw [Expr.unmarked, Expr.unmarked, hbodyeq],
      readAs_func ht ho hxs hc hb hbody⟩
  | @Spells.array _ t c es ts ht hes hc =>
    obtain ⟨es', heseq, hes⟩ := SpellsList.reads hes
    refine ⟨.array t es', by rw [Expr.unmarked, Expr.unmarked, heseq],
      readAs_of_operand (by rw [ht]; rfl) fun rest _ => ?_⟩
    rw [operand.eq_def, List.append_assoc]
    simp only [ht, reads_map]
    exact ⟨some es', (hes rfl (by decide) hc _).1, rfl⟩
  | @Spells.hash _ t c ps ts ht hps hc =>
    obtain ⟨ps', hpseq, hps⟩ := SpellsPairs.reads hps
    refine ⟨.hash t ps', by rw [Expr.unmarked, Expr.unmarked, hpseq],
      readAs_of_operand (by rw [ht]; rfl) fun rest _ => ?_⟩
    rw [operand.eq_def, List.append_assoc]
    simp only [ht, reads_map]
    exact ⟨some ps', hps hc, rfl⟩

/-- A spelling of a list is read up to its closing token. -/
theorem SpellsList.reads {es : List Expr} {ts : List Token} (h : SpellsList es ts) :
    ∃ es', unmarkedExprs es' = unmarkedExprs es ∧
      ∀ {close : Token.Kind} {c : Token} {rest : List Token} {k : Nat},
        close.ends → close ≠ .comma → c.kind = close →
        ∀ hk : (ts ++ c :: rest).length ≤ k,
          (separated close (fun ts _ => expression tracing .lowest ts) (ts ++ c :: rest) hk).Reads
            (some es') rest ∧
          (es ≠ [] →
            (items close (fun ts _ => expression tracing .lowest ts) (ts ++ c :: rest) hk).Reads
              (some es') rest) := by
  match h with
  | .nil =>
    refine ⟨[], rfl, fun {_ c rest _} _ _ hc hk => ⟨?_, fun h => absurd rfl h⟩⟩
    rw [separated, if_pos (show nextKind ([] ++ c :: rest) = _ from hc), reads_done]
    exact ⟨rfl, rfl⟩
  | @SpellsList.one _ ts he =>
    obtain ⟨e', heq, hread⟩ := Spells.readAs he
    refine ⟨[e'], by rw [unmarkedExprs, unmarkedExprs, heq]; rfl,
      fun {close c rest k} hends hcomma hc hk => ?_⟩
    have hitems : (items close (fun ts _ => expression tracing .lowest ts) (ts ++ c :: rest)
        hk).Reads (some [e']) rest :=
      reads_items_last (hread.reads_lowest (by rw [hc]; exact hends) _) hc hcomma
    exact ⟨reads_separated (he.nextKind_ne (Token.Kind.of_ends hends).2.2) hitems, fun _ => hitems⟩
  | @SpellsList.more _ _ _ d ts us he hd hes =>
    obtain ⟨e', heq, hread⟩ := Spells.readAs he
    obtain ⟨es', heseq, hesread⟩ := SpellsList.reads hes
    refine ⟨e' :: es', by rw [unmarkedExprs, unmarkedExprs, heq, heseq],
      fun {close c rest k} hends hcomma hc => ?_⟩
    -- `hk` is about the tokens as they are put together here, so it is introduced afterwards
    rw [List.append_assoc, List.cons_append]
    intro hk
    have hus : (us ++ c :: rest).length ≤ k := by
      rw [List.length_append, List.length_cons] at hk
      omega
    have hitems : (items close (fun ts _ => expression tracing .lowest ts)
        (ts ++ d :: (us ++ c :: rest)) hk).Reads (some (e' :: es')) rest :=
      reads_items_more (hread.reads_lowest (by rw [hd]; rfl) _) hd
        ((hesread hends hcomma hc hus).2 (by simp))
    exact ⟨reads_separated (he.nextKind_ne (Token.Kind.of_ends hends).2.2) hitems, fun _ => hitems⟩

/-- A spelling of pairs is read up to the closing brace. -/
theorem SpellsPairs.reads {ps : List (Expr × Expr)} {ts : List Token} (h : SpellsPairs ps ts) :
    ∃ ps', unmarkedPairs ps' = unmarkedPairs ps ∧
      ∀ {c : Token} {rest : List Token}, c.kind = .rbrace →
        (hashPairs tracing (ts ++ c :: rest)).Reads (some ps') rest := by
  match h with
  | .nil =>
    refine ⟨[], rfl, fun {c rest} hc => ?_⟩
    have hnext : nextKind (c :: rest) = .rbrace := hc
    rw [List.nil_append, hashPairs.eq_def, if_pos hnext, reads_done]
    exact ⟨rfl, rfl⟩
  | .one hk hd hv =>
    obtain ⟨k', hkeq, hkread⟩ := Spells.readAs hk
    obtain ⟨v', hveq, hvread⟩ := Spells.readAs hv
    refine ⟨[(k', v')], by rw [unmarkedPairs, unmarkedPairs, hkeq, hveq]; rfl,
      fun {c rest} hc => ?_⟩
    rw [List.append_assoc]
    exact reads_hashPairs (hk.nextKind_ne (by decide)) (hkread.reads_lowest (by rw [hd]; rfl) _) hd
      (hvread.reads_lowest (by rw [hc]; rfl) _) (.inl ⟨hc, rfl, rfl⟩)
  | .more hk hd hv hcomma hps =>
    obtain ⟨k', hkeq, hkread⟩ := Spells.readAs hk
    obtain ⟨v', hveq, hvread⟩ := Spells.readAs hv
    obtain ⟨ps', hpseq, hpsread⟩ := SpellsPairs.reads hps
    refine ⟨(k', v') :: ps', by rw [unmarkedPairs, unmarkedPairs, hkeq, hveq, hpseq],
      fun {c rest} hc => ?_⟩
    rw [List.append_assoc, List.cons_append, List.append_assoc, List.cons_append]
    exact reads_hashPairs (hk.nextKind_ne (by decide)) (hkread.reads_lowest (by rw [hd]; rfl) _) hd
      (hvread.reads_lowest (by rw [hcomma]; rfl) _) (.inr ⟨hcomma, hpsread hc⟩)

theorem SpellsBlock.reads {b : Block} {ts : List Token} (h : SpellsBlock b ts) :
    ∃ t us ss, ts = t :: us ∧ t.kind = .lbrace ∧ (Block.mk t ss).unmarked = b.unmarked ∧
      ∀ rest, (block tracing (us ++ rest)).Reads ss rest := by
  match h with
  | @SpellsBlock.mk t c ss us ht hss hc =>
    obtain ⟨ss', hsseq, hssread⟩ := SpellsStmts.reads hss
    refine ⟨t, _, ss', rfl, ht, by rw [Block.unmarked, Block.unmarked, hsseq], fun rest => ?_⟩
    rw [List.append_assoc]
    exact hssread hc

/-- A statement is read up to and with its semicolon. -/
theorem SpellsStmt.reads {s : Stmt} {ts : List Token} (h : SpellsStmt s ts) :
    ∃ t us s', ts = t :: us ∧ t.kind ≠ .rbrace ∧ s'.unmarked = s.unmarked ∧
      ∀ rest, (statement tracing t (us ++ rest)).Reads (some s') rest := by
  match h with
  | @SpellsStmt.bind t x a c e us ht hx ha he hc =>
    obtain ⟨e', heq, hread⟩ := Spells.readAs he
    refine ⟨t, _, .bind t x.literal e', rfl, by simp [ht],
      by rw [Stmt.unmarked, Stmt.unmarked, heq], fun rest => ?_⟩
    rw [List.cons_append, List.cons_append, List.append_assoc]
    exact hread.reads_bind ht hx ha hc rest
  | @SpellsStmt.ret t c e us ht he hc =>
    obtain ⟨e', heq, hread⟩ := Spells.readAs he
    refine ⟨t, _, .ret t e', rfl, by simp [ht], by rw [Stmt.unmarked, Stmt.unmarked, heq],
      fun rest => ?_⟩
    -- what follows `return` begins an expression, so it is neither a semicolon nor the end
    have hret := reads_statement_ret ht (he.startsExpr (c :: rest))
      (hread.reads_lowest (by rw [hc]; rfl) rest)
    rw [skipSemicolon_cons hc] at hret
    rw [List.append_assoc]
    exact hret
  | @SpellsStmt.retNothing t c ht hc =>
    exact ⟨t, [c], .ret t .absent, rfl, by simp [ht], rfl,
      fun rest => reads_statement_retNothing ht hc⟩
  | @SpellsStmt.expr t c e us he hc =>
    obtain ⟨e', heq, hread⟩ := Spells.readAs he
    -- the statement carries its first token, which need not be `t`
    obtain ⟨x, xs, rfl, hx⟩ := he.exists_cons
    refine ⟨x, xs ++ [c], .expr x e', rfl, fun h => by rw [h] at hx; contradiction,
      by rw [Stmt.unmarked, Stmt.unmarked, heq], fun rest => ?_⟩
    rw [List.append_assoc]
    exact hread.reads_expr hx hc rest

theorem SpellsStmts.reads {ss : List Stmt} {ts : List Token} (h : SpellsStmts ss ts) :
    ∃ ss', unmarkedStmts ss' = unmarkedStmts ss ∧
      ∀ {c : Token} {rest : List Token}, c.kind = .rbrace →
        (block tracing (ts ++ c :: rest)).Reads ss' rest := by
  match h with
  | .nil => exact ⟨[], rfl, fun hc => reads_block_close hc⟩
  | .cons hs hss =>
    obtain ⟨t, us, s', rfl, ht, hseq, hsread⟩ := SpellsStmt.reads hs
    obtain ⟨ss', hsseq, hssread⟩ := SpellsStmts.reads hss
    refine ⟨s' :: ss', by rw [unmarkedStmts, unmarkedStmts, hseq, hsseq], fun hc => ?_⟩
    rw [List.append_assoc]
    exact reads_block_cons ht (hsread _) (hssread hc)

end

/-- A spelling of statements up to the end of the text is read as these statements. -/
theorem SpellsStmts.reads_statements {ss : List Stmt} {ts : List Token} (h : SpellsStmts ss ts) :
    ∃ ss', unmarkedStmts ss' = unmarkedStmts ss ∧ (statements tracing ts).Reads ss' [] := by
  match h with
  | .nil =>
    refine ⟨[], rfl, ?_⟩
    rw [statements.eq_def]
    exact reads_done.mpr ⟨rfl, rfl⟩
  | .cons hs hss =>
    obtain ⟨t, us, s', rfl, -, hseq, hsread⟩ := hs.reads
    obtain ⟨ss', hsseq, hssread⟩ := SpellsStmts.reads_statements hss
    refine ⟨s' :: ss', by rw [unmarkedStmts, unmarkedStmts, hseq, hsseq], ?_⟩
    exact reads_statements_cons (hsread _) hssread

/-- Every spelling of a program is read without errors as that program, whether it is given as
tokens or as a text; and every well-formed program has a text that spells it. -/
theorem parse_of_spelled (tracing : Bool) (p : Program) :
    (∀ ts : List Token, p.Spelled ts →
      (Parse.ofTokens tracing ts).errors = [] ∧
      (Parse.ofTokens tracing ts).program.unmarked = p.unmarked) ∧
    (∀ source : String, p.Spelled (Token.scan source.toList) →
      (parse tracing source).errors = [] ∧
      (parse tracing source).program.unmarked = p.unmarked) ∧
    (p.WellFormed → ∃ source : String, p.Spelled (Token.scan source.toList)) := by
  have hts : ∀ ts : List Token, p.Spelled ts → (Parse.ofTokens tracing ts).errors = [] ∧
      (Parse.ofTokens tracing ts).program.unmarked = p.unmarked := by
    intro ts h
    obtain ⟨ss', hsseq, hvalue, -, herrors⟩ := SpellsStmts.reads_statements h
    refine ⟨herrors, ?_⟩
    show Program.mk (unmarkedStmts (statements tracing ts).value) = ⟨unmarkedStmts p.statements⟩
    rw [hvalue, hsseq]
  exact ⟨hts, fun source h => hts _ h, Program.WellFormed.exists_source⟩

/-- In this text the parentheses around `a + b` are needed, those around `x` are not. -/
def productText : String := "-(a + b) * c[((x))];"

def productExample : Program :=
  ⟨[.expr ⟨.minus, "-"⟩ (.binary ⟨.asterisk, "*"⟩
    (.unary ⟨.minus, "-"⟩ .neg
      (.binary ⟨.plus, "+"⟩ (.ident ⟨.ident, "a"⟩ "a") .add (.ident ⟨.ident, "b"⟩ "b")))
    .mul
    (.index ⟨.lbracket, "["⟩ (.ident ⟨.ident, "c"⟩ "c") (.ident ⟨.ident, "x"⟩ "x")))]⟩

theorem spelled_productExample : productExample.Spelled (Token.scan productText.toList) := by
  have hscan : Token.scan productText.toList =
      [⟨.minus, "-"⟩, ⟨.lparen, "("⟩, ⟨.ident, "a"⟩, ⟨.plus, "+"⟩, ⟨.ident, "b"⟩, ⟨.rparen, ")"⟩,
        ⟨.asterisk, "*"⟩, ⟨.ident, "c"⟩, ⟨.lbracket, "["⟩, ⟨.lparen, "("⟩, ⟨.lparen, "("⟩,
        ⟨.ident, "x"⟩, ⟨.rparen, ")"⟩, ⟨.rparen, ")"⟩, ⟨.rbracket, "]"⟩, ⟨.semicolon, ";"⟩] := by
    cbv
  have hname (m : Nat) (x : String) : Spells m (.ident ⟨.ident, x⟩ x) [⟨.ident, x⟩] :=
    .ident (t := ⟨.ident, x⟩) rfl
  rw [hscan]
  exact .cons (.expr (.binary (n := 4) (by decide) (by decide)
      (.neg (by decide) rfl
        (.parens rfl rfl (.binary (n := 3) (by decide) (by decide) (hname 3 "a") (hname 4 "b"))))
      (.index (hname 6 "c") rfl (.parens rfl rfl (.parens rfl rfl (hname 1 "x"))) rfl)) rfl) .nil

theorem wellFormed_productExample : productExample.WellFormed := by
  have hname (x : String) (hx : Token.IsName x) : (Expr.ident ⟨.ident, x⟩ x).WellFormed :=
    ⟨⟨rfl, hx⟩, rfl⟩
  exact ⟨⟨⟨4, by decide⟩, rfl,
    ⟨⟨rfl, rfl⟩, ⟨3, by decide⟩, rfl, hname "a" (by decide), hname "b" (by decide)⟩,
    ⟨rfl, rfl⟩, hname "c" (by decide), hname "x" (by decide)⟩, trivial⟩

theorem parse_of_spelled_product :
    productExample.Spelled (Token.scan productText.toList) ∧
    (parse false productText).errors = [] ∧
    (parse false productText).program.unmarked = productExample.unmarked ∧
    productExample.WellFormed ∧
    ∃ source : String, productExample.Spelled (Token.scan source.toList) :=
  have h := parse_of_spelled false productExample
  have hread := h.2.1 productText spelled_productExample
  ⟨spelled_productExample, hread.1, hread.2, wellFormed_productExample,
    h.2.2 wellFormed_productExample⟩

end

end Monkey

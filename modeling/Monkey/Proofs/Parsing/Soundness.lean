import Mathlib
import Monkey.Proofs.Parsing.Derivation
import Monkey.Proofs.Parsing.Reads

/-!
# Parsing is sound

If parsing meets no error, then the tokens it was given are a derivation of the program it returns.

There is one lemma for each rule of the grammar, given what the rules for expressions and blocks do
on as many tokens; since an expression calls them on fewer, the induction is on the number of
tokens.  Between an operand and the operators after it, what carries the argument is `Stands`: the
expression read so far is derived at some stratum, and the next token cannot reach into it.
-/

namespace Monkey

open Parsed Grammar

/-! ## Strata -/

/-- An expression of a tighter stratum is one of every looser stratum. -/
theorem DerivesExpr.of_le {m n : Nat} {ts rest : List Token} {e : Expr} (h : n ≤ m)
    (hd : DerivesExpr m ts e rest) : DerivesExpr n ts e rest := by
  induction h with
  | refl => exact hd
  | step _ ih => exact ih (.tighter hd)

/-- The expression is derived at stratum `m`, and the next token binds no tighter than `m`, unless
`m` is the tightest stratum. -/
def Stands (m : Nat) (ts : List Token) (e : Expr) (rest : List Token) : Prop :=
  DerivesExpr m ts e rest ∧ (m = 6 ∨ m ≤ 5 ∧ nextRank rest ≤ m)

/-- A token that continues an expression, and neither calls nor indexes it, is an operator of its
stratum. -/
theorem exists_binaryOp {k : Token.Kind} (h : 0 < k.level.rank) (hp : k ≠ .lparen)
    (hb : k ≠ .lbracket) :
    ∃ op, k.binaryOp? = some op ∧ (k, op) ∈ operatorsAt k.level.rank ∧ k.level.rank ≤ 4 := by
  cases k <;> simp_all [Token.Kind.level, Level.rank, Token.Kind.binaryOp?, operatorsAt]

/-- Reading digits from left to right gives the number they stand for. -/
theorem foldl_digits_eq_numeral (digits : String) :
    digits.toList.foldl (fun n c => 10 * n + (c.toNat - '0'.toNat)) 0 = numeral digits := by
  rw [numeral, Nat.ofDigits_eq_foldr, List.foldr_map, List.foldr_reverse]
  congr 1
  funext n c
  exact Nat.add_comm _ _

theorem decimal?_eq_some_iff {digits : String} {n : Int64} :
    decimal? digits = some n ↔ numeral digits < 2 ^ 63 ∧ n = Int64.ofNat (numeral digits) := by
  have hsize : Int64.size / 2 = 2 ^ 63 := rfl
  simp only [decimal?, foldl_digits_eq_numeral, hsize]
  split
  · rename_i h
    simp only [Option.some.injEq, h, true_and]
    exact eq_comm
  · rename_i h
    simp only [reduceCtorEq, h, false_and]

/-- The semicolon that is left out after a statement is derived. -/
theorem derivesEnd_skipSemicolon (ts : List Token) : DerivesEnd ts (skipSemicolon ts) := by
  unfold skipSemicolon
  split
  · rename_i h
    obtain ⟨c, us, rfl, hc⟩ := exists_cons_of_nextKind h (by decide)
    exact .semicolon hc
  · exact .none

/-- The parameters that are read are derived. -/
theorem params_sound (ts : List Token) {v : Option (List String)} {rest : List Token}
    (h : (separated .rparen (fun ts _ => parameter ts) ts (Nat.le_refl _)).Reads v rest) :
    ∃ xs, v = some xs ∧ DerivesParams ts xs rest := by
  have hname : ∀ (us : List Token) (_ : us.length ≤ ts.length) (x : Option String)
      (vs : List Token), (parameter us).Reads x vs →
      ∃ a, x = some a ∧ ∃ t, us = t :: vs ∧ t.kind = .ident ∧ a = t.literal := by
    intro us _ x vs hx
    cases us with
    | nil => simp [parameter] at hx
    | cons t us =>
      simp only [parameter, reads_ite, reads_done, reads_failed, and_false, or_false] at hx
      obtain ⟨hk, rfl, rfl⟩ := hx
      exact ⟨t.literal, rfl, t, rfl, hk, rfl⟩
  simp only [separated, reads_ite, reads_done] at h
  rcases h with ⟨hc, rfl, rfl⟩ | ⟨-, h⟩
  · obtain ⟨c, us, rfl, hc⟩ := exists_cons_of_nextKind hc (by decide)
    exact ⟨[], rfl, .none hc⟩
  · obtain ⟨xs, rfl, hxs⟩ := exists_of_reads_items (Q := DerivesNames) hname
      (by
        rintro _ _ c rest ⟨t, rfl, ht, rfl⟩ hc
        exact .last ht hc)
      (by
        rintro _ _ c us xs rest ⟨t, rfl, ht, rfl⟩ hc hxs
        exact .more ht hc hxs) ts _ h
    exact ⟨xs, rfl, .some hxs⟩

/-! ## The rules of the grammar -/

section

variable {tracing : Bool} {n : Nat}

/-- On at most `n` tokens, an expression that is read is derived, and no operator is left over. -/
def ExpressionSound (tracing : Bool) (n : Nat) : Prop :=
  ∀ (ts : List Token) (level : Level) (v : Option Expr) (rest : List Token), ts.length ≤ n →
    level.rank ≤ 5 → (expression tracing level ts).Reads v rest →
    ∃ e, v = some e ∧ DerivesExpr (min (level.rank + 1) 5) ts e rest ∧ nextRank rest ≤ level.rank

/-- On at most `n` tokens, the statements of a block that is read are derived, up to its closing
brace or the end of the text. -/
def BlockSound (tracing : Bool) (n : Nat) : Prop :=
  ∀ (ts : List Token) (ss : List Stmt) (rest : List Token), ts.length ≤ n →
    (block tracing ts).Reads ss rest →
    (∃ c, c.kind = .rbrace ∧ DerivesStmts ts ss (c :: rest)) ∨ rest = [] ∧ DerivesStmts ts ss []

theorem ExpressionSound.lowest (hexpr : ExpressionSound tracing n) {ts rest : List Token}
    {v : Option Expr} (hts : ts.length ≤ n) (h : (expression tracing .lowest ts).Reads v rest) :
    ∃ e, v = some e ∧ DerivesExpr 1 ts e rest := by
  obtain ⟨e, hv, he, -⟩ := hexpr ts .lowest v rest hts (by decide) h
  exact ⟨e, hv, he⟩

/-- What stands after an opening brace is a block, closed or at the end of the text. -/
theorem BlockSound.derives (hblock : BlockSound tracing n) {b : Token} {ts rest : List Token}
    {ss : List Stmt} (hb : b.kind = .lbrace) (hts : ts.length ≤ n)
    (h : (block tracing ts).Reads ss rest) : DerivesBlock (b :: ts) (.mk b ss) rest := by
  rcases hblock ts ss rest hts h with ⟨c, hc, hss⟩ | ⟨rfl, hss⟩
  · exact .closed hb hss hc
  · exact .unclosed hb hss

theorem unary_sound (hexpr : ExpressionSound tracing n) {t : Token} {op : UnaryOp}
    {us rest : List Token} {v : Option Expr} (hus : us.length ≤ n)
    (h : (unary tracing t op us).Reads v rest) :
    ∃ e, v = some (.unary t op e) ∧ DerivesExpr 5 us e rest ∧ nextRank rest ≤ 5 := by
  rw [unary, reads_traced, reads_widen, reads_map] at h
  obtain ⟨operand, hoperand, rfl⟩ := h
  obtain ⟨e, rfl, he, hnext⟩ := hexpr us .unary operand rest hus (by decide) hoperand
  exact ⟨e, rfl, he, hnext⟩

theorem expressions_sound (hexpr : ExpressionSound tracing n) {close : Token.Kind}
    (hclose : close ≠ .eof) {ts rest : List Token} {v : Option (List Expr)} (hts : ts.length ≤ n)
    (h : (separated close (fun ts _ => expression tracing .lowest ts) ts
      (Nat.le_refl _)).Reads v rest) : ∃ es, v = some es ∧ DerivesList close ts es rest := by
  have helement : ∀ (us : List Token) (_ : us.length ≤ ts.length) (x : Option Expr)
      (vs : List Token), (expression tracing .lowest us).Reads x vs →
      ∃ e, x = some e ∧ DerivesExpr 1 us e vs :=
    fun us hu x vs hx => hexpr.lowest (Nat.le_trans hu hts) hx
  simp only [separated, reads_ite, reads_done] at h
  rcases h with ⟨hc, rfl, rfl⟩ | ⟨-, h⟩
  · obtain ⟨c, us, rfl, hc⟩ := exists_cons_of_nextKind hc hclose
    exact ⟨[], rfl, .none hc⟩
  · obtain ⟨es, rfl, hes⟩ := exists_of_reads_items (Q := DerivesItems close) helement
      (fun _ _ _ _ he hc => .last he hc) (fun _ _ _ _ _ _ he hc hes => .more he hc hes) ts _ h
    exact ⟨es, rfl, .some hes⟩

theorem conditional_sound (hexpr : ExpressionSound tracing n) (hblock : BlockSound tracing n)
    {t : Token} {us rest : List Token} {v : Option Expr} (ht : t.kind = .ifWord)
    (hus : us.length ≤ n) (h : (conditional tracing t us).Reads v rest) :
    ∃ e, v = some e ∧ DerivesPrimary (t :: us) e rest := by
  rw [conditional] at h
  simp only [reads_expecting, reads_andThen] at h
  obtain ⟨o, vs, hv, rfl, ho, c, ws, hw, hc, h⟩ := h
  obtain ⟨c, rfl, hcond⟩ := hexpr.lowest (by omega) hc
  -- only now that there is a condition does the rule say what it reads next
  simp only [reads_expecting, reads_andThen, reads_ite, reads_widen, reads_map, reads_done] at h
  obtain ⟨p, xs, hx, rfl, hp, b, ys, hy, rfl, hb, yes, zs, hz, hyes, h⟩ := h
  simp only [List.length_cons] at hw hx hy
  have hyes := hblock.derives hb (by omega) hyes
  rcases h with ⟨helse, b', us', hu', htail, hb', no, hno, rfl⟩ | ⟨-, rfl, rfl⟩
  · obtain ⟨e, zs, rfl, he⟩ := exists_cons_of_nextKind helse (by decide)
    rw [List.tail_cons] at htail
    subst htail
    simp only [List.length_cons] at hz
    have hno := hblock.derives hb' (by omega) hno
    exact ⟨_, rfl, .condElse ht ho hcond hp hyes he hno⟩
  · exact ⟨_, rfl, .cond ht ho hcond hp hyes⟩

theorem function_sound (hblock : BlockSound tracing n) {t : Token} {us rest : List Token}
    {v : Option Expr} (ht : t.kind = .fnWord) (hus : us.length ≤ n)
    (h : (function tracing t us).Reads v rest) :
    ∃ e, v = some e ∧ DerivesPrimary (t :: us) e rest := by
  rw [function] at h
  simp only [reads_expecting, reads_andThen] at h
  obtain ⟨o, vs, hv, rfl, ho, ps, ws, hw, hps, h⟩ := h
  obtain ⟨names, rfl, hnames⟩ := params_sound vs hps
  simp only [reads_expecting, reads_widen, reads_map] at h
  obtain ⟨b, xs, hx, rfl, hb, body, hbody, rfl⟩ := h
  exact ⟨_, rfl, .func ht ho hnames (hblock.derives hb (by omega) hbody)⟩

theorem hashPairs_sound (hexpr : ExpressionSound tracing n) (ts : List Token) (hts : ts.length ≤ n)
    {v : Option (List (Expr × Expr))} {rest : List Token}
    (h : (hashPairs tracing ts).Reads v rest) : ∃ ps, v = some ps ∧ DerivesPairs ts ps rest := by
  rw [hashPairs] at h
  simp only [reads_ite, reads_done, reads_andThen, reads_expecting] at h
  rcases h with ⟨hc, rfl, rfl⟩ | ⟨-, k, us, hu, hk, d, vs, hv, rfl, hd, v, ws, hw, hvalue, h⟩
  · obtain ⟨c, us, rfl, hc⟩ := exists_cons_of_nextKind hc (by decide)
    exact ⟨[], rfl, .none hc⟩
  · obtain ⟨k, rfl, hkey⟩ := hexpr.lowest hts hk
    obtain ⟨v, rfl, hval⟩ := hexpr.lowest (by omega) hvalue
    simp only [reads_ite, reads_done, reads_expecting, reads_widen, reads_map] at h
    rcases h with ⟨hc, rfl, rfl⟩ | ⟨-, c, xs, hx, rfl, hc, ps, hps, rfl⟩
    · obtain ⟨c, ws, rfl, hc⟩ := exists_cons_of_nextKind hc (by decide)
      exact ⟨_, rfl, .last hkey hd hval hc⟩
    · obtain ⟨others, rfl, hothers⟩ := hashPairs_sound hexpr xs (by omega) hps
      exact ⟨_, rfl, .more hkey hd hval hc hothers⟩
termination_by ts.length
decreasing_by omega

theorem operand_sound (hexpr : ExpressionSound tracing n) (hblock : BlockSound tracing n)
    {t : Token} {us rest : List Token} {v : Option Expr} (hus : us.length ≤ n)
    (h : (operand tracing t us).Reads v rest) :
    ∃ e m, v = some e ∧ 5 ≤ m ∧ Stands m (t :: us) e rest := by
  -- Whatever is not an operator before its operand is a primary.
  have primary : ∀ {e : Expr}, DerivesPrimary (t :: us) e rest → v = some e →
      ∃ e m, v = some e ∧ 5 ≤ m ∧ Stands m (t :: us) e rest :=
    fun he hv => ⟨_, 6, hv, by decide, .primary he, .inl rfl⟩
  rw [operand.eq_def] at h
  split at h
  · rename_i hk
    obtain ⟨hv, rfl⟩ := reads_done.mp h
    exact primary (.ident hk) hv.symm
  · rename_i hk
    rw [reads_traced] at h
    split at h
    · rename_i n hn
      obtain ⟨hlt, rfl⟩ := decimal?_eq_some_iff.mp hn
      obtain ⟨hv, rfl⟩ := reads_done.mp h
      exact primary (.int hk hlt) hv.symm
    · exact absurd h (by simp)
  · rename_i hk
    obtain ⟨hv, rfl⟩ := reads_done.mp h
    exact primary (.str hk) hv.symm
  · rename_i hk
    obtain ⟨hv, rfl⟩ := reads_done.mp h
    exact primary (.true hk) hv.symm
  · rename_i hk
    obtain ⟨hv, rfl⟩ := reads_done.mp h
    exact primary (.false hk) hv.symm
  · rename_i hk
    obtain ⟨e, rfl, he, hnext⟩ := unary_sound hexpr hus h
    exact ⟨_, 5, rfl, Nat.le_refl _, .not hk he, .inr ⟨Nat.le_refl _, hnext⟩⟩
  · rename_i hk
    obtain ⟨e, rfl, he, hnext⟩ := unary_sound hexpr hus h
    exact ⟨_, 5, rfl, Nat.le_refl _, .neg hk he, .inr ⟨Nat.le_refl _, hnext⟩⟩
  · rename_i hk
    simp only [reads_andThen, reads_expecting, reads_done] at h
    obtain ⟨inner, ws, hw, hinner, c, xs, hx, rfl, hc, rfl, rfl⟩ := h
    obtain ⟨e, rfl, he⟩ := hexpr.lowest hus hinner
    exact primary (.group hk he hc) rfl
  · rename_i hk
    obtain ⟨e, rfl, he⟩ := conditional_sound hexpr hblock hk hus h
    exact primary he rfl
  · rename_i hk
    obtain ⟨e, rfl, he⟩ := function_sound hblock hk hus h
    exact primary he rfl
  · rename_i hk
    obtain ⟨elements, helements, hv⟩ := reads_map.mp h
    obtain ⟨es, rfl, hes⟩ := expressions_sound hexpr (by decide) hus helements
    exact primary (.array hk hes) hv.symm
  · rename_i hk
    obtain ⟨pairs, hpairs, hv⟩ := reads_map.mp h
    obtain ⟨ps, rfl, hps⟩ := hashPairs_sound hexpr us hus hpairs
    exact primary (.hash hk hps) hv.symm
  · exact absurd h (by simp)

theorem operator_sound (hexpr : ExpressionSound tracing n) {ts us rest : List Token} {t : Token}
    {e : Expr} {m : Nat} {v : Option Expr} (hus : us.length ≤ n) (he : Stands m ts e (t :: us))
    (hpos : 0 < t.kind.level.rank) (h : (operator tracing (some e) t us).Reads v rest) :
    ∃ e m', v = some e ∧ min t.kind.level.rank 6 ≤ m' ∧ Stands m' ts e rest := by
  obtain ⟨he, hm⟩ := he
  rw [nextRank_cons] at hm
  -- Only the tightest stratum can stand before a parenthesis or a bracket.
  have tightest : 5 < t.kind.level.rank → m = 6 := by omega
  rw [operator.eq_def] at h
  split at h
  · rename_i hk
    obtain rfl := tightest (by rw [hk]; decide)
    obtain ⟨args, hargs, hv⟩ := reads_map.mp h
    obtain ⟨es, rfl, hes⟩ := expressions_sound hexpr (by decide) hus hargs
    exact ⟨_, 6, hv.symm, Nat.min_le_right _ _, .call he hk hes, .inl rfl⟩
  · rename_i hk
    obtain rfl := tightest (by rw [hk]; decide)
    simp only [reads_andThen, reads_expecting, reads_done] at h
    obtain ⟨inner, ws, hw, hinner, c, xs, hx, rfl, hc, hv, rfl⟩ := h
    obtain ⟨i, rfl, hi⟩ := hexpr.lowest hus hinner
    exact ⟨_, 6, hv.symm, Nat.min_le_right _ _, .index he hk hi hc, .inl rfl⟩
  · rename_i hp hb
    obtain ⟨op, hop, hmem, hle⟩ := exists_binaryOp hpos hp hb
    simp only [reads_traced, reads_widen, reads_map] at h
    obtain ⟨right, hright, hv⟩ := h
    obtain ⟨b, rfl, hright, hnext⟩ := hexpr us t.kind.level right rest hus (by omega) hright
    rw [hop] at hv
    -- the right operand is of a tighter stratum than the operator, so operators group to the left
    rw [show min (t.kind.level.rank + 1) 5 = t.kind.level.rank + 1 by omega] at hright
    exact ⟨_, t.kind.level.rank, hv.symm, Nat.min_le_left _ _,
      .binary (he.of_le (by omega)) hmem hright, .inr ⟨by omega, hnext⟩⟩

/-- Each turn of the loop over the operators leaves an expression that stands before the rest. -/
theorem operators_sound (hexpr : ExpressionSound tracing n) {level : Level} {ts : List Token}
    (us : List Token) {e : Expr} {m : Nat} {v : Option Expr} {rest : List Token}
    (hus : us.length ≤ n) (he : Stands m ts e us) (hm : min (level.rank + 1) 5 ≤ m)
    (h : (operators tracing level (some e) us).Reads v rest) :
    ∃ e, v = some e ∧ DerivesExpr (min (level.rank + 1) 5) ts e rest ∧
      nextRank rest ≤ level.rank := by
  by_cases hnext : nextRank us ≤ level.rank
  · obtain ⟨rfl, rfl⟩ := (reads_operators_of_le hnext).mp h
    exact ⟨e, rfl, he.1.of_le hm, hnext⟩
  · obtain ⟨t, vs, hvs⟩ := exists_cons_of_nextRank (Nat.lt_of_not_le hnext)
    have hlen : us.length = vs.length + 1 := by rw [hvs, List.length_cons]
    rw [hvs] at he h hnext
    have hlt : level.rank < t.kind.level.rank := Nat.lt_of_not_le hnext
    obtain ⟨whole, ws, hwhole, hrest⟩ := (reads_operators_of_lt hlt).mp h
    have hws := hwhole.length_le
    -- the operator and its operands are the operand of what follows
    obtain ⟨a, m', rfl, hm', ha⟩ := operator_sound hexpr (by omega) he (by omega) hwhole
    exact operators_sound hexpr ws (by omega) ha (by omega) hrest
termination_by us.length
decreasing_by omega

theorem statement_sound (hexpr : ExpressionSound tracing n) {t : Token} {us rest : List Token}
    {v : Option Stmt} (hus : us.length < n) (h : (statement tracing t us).Reads v rest) :
    ∃ s, v = some s ∧ DerivesStmt (t :: us) s rest := by
  rw [statement.eq_def] at h
  split at h
  · rename_i ht
    simp only [reads_expecting, reads_andThen] at h
    obtain ⟨x, vs, hv, rfl, hx, a, ws, hw, rfl, ha, e, xs, hxs, he, h⟩ := h
    simp only [List.length_cons] at hus
    obtain ⟨e, rfl, hvalue⟩ := hexpr.lowest (by omega) he
    obtain ⟨rfl, rfl⟩ := reads_done.mp h
    exact ⟨_, rfl, .bind ht hx ha hvalue (derivesEnd_skipSemicolon xs)⟩
  · rename_i ht
    simp only [reads_ite, reads_done, reads_andThen] at h
    rcases h with ⟨hc, rfl, rfl⟩ | ⟨-, ⟨hc, rfl, rfl⟩ | ⟨-, e, vs, hv, he, h⟩⟩
    · obtain ⟨c, us, rfl, hc⟩ := exists_cons_of_nextKind hc (by decide)
      exact ⟨_, rfl, .retNothing ht hc⟩
    · exact ⟨_, rfl, .retLast ht hc⟩
    · obtain ⟨e, rfl, hvalue⟩ := hexpr.lowest (Nat.le_of_lt hus) he
      obtain ⟨rfl, rfl⟩ := reads_done.mp h
      exact ⟨_, rfl, .ret ht hvalue (derivesEnd_skipSemicolon vs)⟩
  · simp only [reads_traced, reads_andThen] at h
    obtain ⟨e, vs, hv, he, h⟩ := h
    have hlen : (t :: us).length ≤ n := hus
    obtain ⟨e, rfl, hvalue⟩ := hexpr.lowest hlen he
    obtain ⟨rfl, rfl⟩ := reads_done.mp h
    exact ⟨_, rfl, .expr hvalue (derivesEnd_skipSemicolon vs)⟩

theorem block_sound (hexpr : ExpressionSound tracing n) : BlockSound tracing n
  | [], ss, rest, _, h => by
    rw [block] at h
    obtain ⟨rfl, rfl⟩ := reads_done.mp h
    exact .inr ⟨rfl, .nil⟩
  | t :: us, ss, rest, hts, h => by
    rw [block] at h
    simp only [reads_ite, reads_done, reads_andThen, reads_widen, reads_map] at h
    rcases h with ⟨hc, rfl, rfl⟩ | ⟨-, first, vs, hv, hfirst, others, hothers, rfl⟩
    · exact .inl ⟨t, hc, .nil⟩
    · rw [List.length_cons] at hts
      obtain ⟨s, rfl, hs⟩ := statement_sound hexpr hts hfirst
      rcases block_sound hexpr vs others rest (by omega) hothers with ⟨c, hc, hss⟩ | ⟨rfl, hss⟩
      · exact .inl ⟨c, hc, .cons hs hss⟩
      · exact .inr ⟨rfl, .cons hs hss⟩
termination_by ts => ts.length
decreasing_by simp only [List.length_cons]; omega

/-- The rules that an expression of one more token calls are given fewer tokens. -/
theorem expression_sound_succ (hexpr : ExpressionSound tracing n) (hblock : BlockSound tracing n) :
    ExpressionSound tracing (n + 1) := by
  intro ts level v rest hts hl h
  obtain ⟨t, us, first, ws, rfl, -, hfirst, hrest⟩ := reads_expression.mp h
  have hus : us.length ≤ n := Nat.le_of_succ_le_succ hts
  have hws := hfirst.length_le
  obtain ⟨a, m, rfl, hm, ha⟩ := operand_sound hexpr hblock hus hfirst
  exact operators_sound hexpr ws (Nat.le_trans hws hus) ha (by omega) hrest

theorem expression_sound (n : Nat) : ExpressionSound tracing n := by
  induction n with
  | zero =>
    intro ts level v rest hts _ h
    obtain ⟨t, us, _, _, rfl, -⟩ := reads_expression.mp h
    exact absurd hts (Nat.not_succ_le_zero _)
  | succ n ih => exact expression_sound_succ ih (block_sound ih)

theorem statements_sound (ts : List Token) {ss : List Stmt} {rest : List Token}
    (h : (statements tracing ts).Reads ss rest) : DerivesStmts ts ss [] := by
  match ts, h with
  | [], h =>
    rw [statements.eq_def] at h
    obtain ⟨rfl, rfl⟩ := reads_done.mp h
    exact .nil
  | t :: us, h =>
    rw [statements.eq_def] at h
    simp only [reads_andThen, reads_widen, reads_map] at h
    obtain ⟨first, vs, hv, hfirst, others, hothers, rfl⟩ := h
    obtain ⟨s, rfl, hs⟩ := statement_sound (expression_sound _) (Nat.lt_succ_self _) hfirst
    exact .cons hs (statements_sound vs hothers)
termination_by ts.length
decreasing_by simp only [List.length_cons]; omega

/-- If no error is met, the tokens are a derivation of the program, whether they are any tokens at
all or the tokens of a text. -/
theorem parse_derives (tracing : Bool) :
    (∀ ts : List Token, (Parse.ofTokens tracing ts).errors = [] →
      (Parse.ofTokens tracing ts).program.Derives ts) ∧
    ∀ source : String, (parse tracing source).errors = [] →
      (parse tracing source).program.Derives (Token.scan source.toList) := by
  have hts : ∀ ts : List Token, (Parse.ofTokens tracing ts).errors = [] →
      (Parse.ofTokens tracing ts).program.Derives ts :=
    fun ts h => statements_sound ts (reads_of_errors_eq_nil h)
  exact ⟨hts, fun source h => hts (Token.scan source.toList) h⟩

/-- A text with every stratum, a block that is not closed and a `return` at the end. -/
theorem parse_derives_unclosed_block :
    (parse false "let x = 1 + 2 * -f(3)[0]; fn(a, b) \x7b if (a) \x7b return").errors = [] ∧
    (parse false "let x = 1 + 2 * -f(3)[0]; fn(a, b) \x7b if (a) \x7b return").program.Derives
      (Token.scan "let x = 1 + 2 * -f(3)[0]; fn(a, b) \x7b if (a) \x7b return".toList) := by
  refine ⟨?errors, (parse_derives false).2 _ ?errors⟩
  cbv

end

end Monkey

import Monkey.Proofs.Parsing.Soundness
import Monkey.Proofs.Program.WellFormed

/-!
# What is kept is well-formed

Parsing goes on after an error.  Whatever it keeps is well-formed nevertheless: a rule that meets an
error gives no value, and a rule that lacks the value of a part gives none either.

`r.Gives P` says that the value of the result has the property `P` and that the tokens left are
tokens of a text.  As for reading, there is one lemma for each way to put results together.
-/

namespace Monkey

/-- Every token has a text that its kind allows. -/
def Lexemes (ts : List Token) : Prop := ∀ t ∈ ts, t.IsLexeme

theorem lexemes_cons {t : Token} {ts : List Token} :
    Lexemes (t :: ts) ↔ t.IsLexeme ∧ Lexemes ts := List.forall_mem_cons

theorem Lexemes.tail {ts : List Token} (h : Lexemes ts) : Lexemes ts.tail :=
  fun t ht => h t (List.mem_of_mem_tail ht)

theorem Lexemes.skipSemicolon {ts : List Token} (h : Lexemes ts) : Lexemes (skipSemicolon ts) := by
  unfold Monkey.skipSemicolon
  split
  · exact h.tail
  · exact h

/-- The value has the property, if there is one. -/
def IfSome {α : Type} (P : α → Prop) (v : Option α) : Prop := ∀ a ∈ v, P a

@[simp] theorem ifSome_none {α : Type} {P : α → Prop} : IfSome P none := fun _ h => nomatch h

@[simp] theorem ifSome_some {α : Type} {P : α → Prop} {a : α} : IfSome P (some a) ↔ P a := by
  simp [IfSome]

namespace Parsed

variable {α β : Type} {m n : Nat}

/-- The value has the property, and what is left is made of tokens of a text. -/
def Gives (P : α → Prop) (r : Parsed α n) : Prop := P r.value ∧ Lexemes r.rest

/-! ## Putting results together -/

theorem gives_done {P : α → Prop} {a : α} {us : List Token} {h : us.length ≤ n} (ha : P a)
    (hus : Lexemes us) : (done a us h).Gives P := ⟨ha, hus⟩

theorem gives_failed {P : α → Prop} {e : ParseError} {us : List Token} {h : us.length ≤ n}
    (hus : Lexemes us) : (failed e us h).Gives (IfSome P) := ⟨ifSome_none, hus⟩

theorem Gives.andThen {P : β → Prop} {Q : α → Prop} {r : Parsed α m}
    {next : α → (ts : List Token) → ts.length ≤ m → Parsed β n} (hr : r.Gives Q)
    (hnext : ∀ a us h, Q a → Lexemes us → (next a us h).Gives P) : (r.andThen next).Gives P :=
  hnext r.value r.rest r.bound hr.1 hr.2

theorem Gives.map {P : β → Prop} {Q : α → Prop} {f : α → β} {r : Parsed α n} (hr : r.Gives Q)
    (hf : ∀ a, Q a → P (f a)) : (r.map f).Gives P := ⟨hf r.value hr.1, hr.2⟩

theorem Gives.widen {P : α → Prop} {r : Parsed α m} {h : m ≤ n} (hr : r.Gives P) :
    (r.widen h).Gives P := hr

theorem Gives.traced {P : α → Prop} {tracing : Bool} {rule : Rule} {r : Parsed α n}
    (hr : r.Gives P) : (traced tracing rule r).Gives P := hr

theorem gives_expecting {P : α → Prop} {want : Token.Kind} {ts : List Token} {h : ts.length ≤ n}
    {next : Token → (rest : List Token) → rest.length < ts.length → Parsed (Option α) n}
    (hts : Lexemes ts)
    (hnext : ∀ t us hu, t.Is want → Lexemes us → (next t us hu).Gives (IfSome P)) :
    (expecting want ts h next).Gives (IfSome P) := by
  cases ts with
  | nil => exact gives_failed hts
  | cons t us =>
    obtain ⟨ht, hus⟩ := lexemes_cons.mp hts
    simp only [expecting]
    split
    · rename_i hk
      exact hnext t us _ ⟨hk, ht⟩ hus
    · exact gives_failed hts

/-- A list has only values that its elements have. -/
theorem gives_items {P : α → Prop} {close : Token.Kind}
    {element : (ts : List Token) → ts.length ≤ m → Parsed (Option α) (ts.length - 1)}
    (helement : ∀ us h, Lexemes us → (element us h).Gives (IfSome P)) (ts : List Token)
    (h : ts.length ≤ m) (hts : Lexemes ts) :
    (items close element ts h).Gives (IfSome fun as => ∀ a ∈ as, P a) := by
  rw [items]
  refine (helement ts h hts).andThen fun first us hu hfirst hus => ?_
  split
  · rename_i hc
    have ht : us.tail.length < us.length := length_tail_lt (by simp [hc])
    refine ((gives_items helement us.tail (by omega) hus.tail).map ?_).widen
    intro others hothers
    cases first with
    | none => exact ifSome_none
    | some a =>
      cases others with
      | none => exact ifSome_none
      | some as =>
        refine ifSome_some.mpr (List.forall_mem_cons.mpr ⟨?_, ?_⟩)
        · exact ifSome_some.mp hfirst
        · exact ifSome_some.mp hothers
  · refine gives_expecting hus fun c vs hv _ hvs => gives_done ?_ hvs
    cases first with
    | none => exact ifSome_none
    | some a => exact ifSome_some.mpr (List.forall_mem_singleton.mpr (ifSome_some.mp hfirst))
termination_by ts.length

theorem gives_separated {P : α → Prop} {close : Token.Kind}
    {element : (ts : List Token) → ts.length ≤ m → Parsed (Option α) (ts.length - 1)}
    (helement : ∀ us h, Lexemes us → (element us h).Gives (IfSome P)) {ts : List Token}
    {h : ts.length ≤ m} (hts : Lexemes ts) :
    (separated close element ts h).Gives (IfSome fun as => ∀ a ∈ as, P a) := by
  rw [separated]
  split
  · exact gives_done (ifSome_some.mpr (List.forall_mem_nil _)) hts.tail
  · exact gives_items helement ts h hts

end Parsed

theorem exprsWellFormed_of_forall {es : List Expr} (h : ∀ e ∈ es, e.WellFormed) :
    ExprsWellFormed es := by
  induction es with
  | nil => trivial
  | cons e es ih =>
    obtain ⟨he, hes⟩ := List.forall_mem_cons.mp h
    exact ⟨he, ih hes⟩

theorem stmtsWellFormed_toList_append {s : Option Stmt} {ss : List Stmt}
    (hs : IfSome Stmt.WellFormed s) (hss : StmtsWellFormed ss) :
    StmtsWellFormed (s.toList ++ ss) := by
  cases s with
  | none => exact hss
  | some s => exact ⟨ifSome_some.mp hs, hss⟩

/-! ## The rules of the grammar -/

section

open Parsed Grammar

variable {tracing : Bool}

theorem parameter_isName {ts : List Token} (hts : Lexemes ts) :
    (parameter ts).Gives (IfSome Token.IsName) := by
  match ts, hts with
  | [], hts => exact gives_failed hts
  | ⟨k, x⟩ :: us, hts =>
    obtain ⟨ht, hus⟩ := lexemes_cons.mp hts
    simp only [parameter]
    split
    · rename_i hk
      cases hk
      exact gives_done (ifSome_some.mpr ht) hus
    · exact gives_failed hus

mutual

theorem expression_wellFormed (level : Level) (ts : List Token) (hts : Lexemes ts) :
    (expression tracing level ts).Gives (IfSome Expr.WellFormed) := by
  rw [expression.eq_def]
  refine Gives.traced ?_
  match ts, hts with
  | [], hts => exact gives_failed hts
  | t :: us, hts =>
    obtain ⟨ht, hus⟩ := lexemes_cons.mp hts
    dsimp only
    split
    · refine (operand_wellFormed t us ht hus).andThen fun first vs hv hfirst hvs => ?_
      exact (operators_wellFormed level first vs hfirst hvs).widen
    · exact gives_failed hus
termination_by (ts.length, 1)
decreasing_by all_goals simp only [Prod.lex_def, true_and, List.length_cons]; omega

theorem operand_wellFormed (t : Token) (us : List Token) (ht : t.IsLexeme) (hus : Lexemes us) :
    (operand tracing t us).Gives (IfSome Expr.WellFormed) := by
  rw [operand.eq_def]
  split
  · rename_i hk
    exact gives_done (ifSome_some.mpr ⟨⟨hk, ht⟩, rfl⟩) hus
  · rename_i hk
    refine Gives.traced ?_
    split
    · rename_i n hn
      exact gives_done (ifSome_some.mpr ⟨⟨hk, ht⟩, decimal?_eq_some_iff.mp hn⟩) hus
    · exact gives_failed hus
  · rename_i hk
    exact gives_done (ifSome_some.mpr ⟨⟨hk, ht⟩, rfl⟩) hus
  · rename_i hk
    exact gives_done (ifSome_some.mpr ⟨hk, ht⟩) hus
  · rename_i hk
    exact gives_done (ifSome_some.mpr ⟨hk, ht⟩) hus
  · rename_i hk
    exact unary_wellFormed t .not us (fun e he => ⟨⟨hk, ht⟩, he⟩) hus
  · rename_i hk
    exact unary_wellFormed t .neg us (fun e he => ⟨⟨hk, ht⟩, he⟩) hus
  · refine (expression_wellFormed .lowest us hus).andThen fun inner vs hv hinner hvs => ?_
    exact gives_expecting hvs fun _ ws hw _ hws => gives_done hinner hws
  · rename_i hk
    exact conditional_wellFormed t us ⟨hk, ht⟩ hus
  · rename_i hk
    exact function_wellFormed t us ⟨hk, ht⟩ hus
  · rename_i hk
    refine (expressions_wellFormed .rbracket us hus).map fun es hes => ?_
    cases es with
    | none => exact ifSome_none
    | some es =>
      exact ifSome_some.mpr ⟨⟨hk, ht⟩, exprsWellFormed_of_forall (ifSome_some.mp hes)⟩
  · rename_i hk
    refine (hashPairs_wellFormed us hus).map fun ps hps => ?_
    cases ps with
    | none => exact ifSome_none
    | some ps => exact ifSome_some.mpr ⟨⟨hk, ht⟩, ifSome_some.mp hps⟩
  · exact gives_failed hus
termination_by (us.length + 1, 0)
decreasing_by all_goals simp only [Prod.lex_def]; omega

theorem unary_wellFormed (t : Token) (op : UnaryOp) (us : List Token)
    (hop : ∀ e : Expr, e.WellFormed → (Expr.unary t op e).WellFormed) (hus : Lexemes us) :
    (unary tracing t op us).Gives (IfSome Expr.WellFormed) := by
  rw [unary]
  refine ((expression_wellFormed .unary us hus).map fun e he => ?_).widen.traced
  cases e with
  | none => exact ifSome_none
  | some e => exact ifSome_some.mpr (hop e (ifSome_some.mp he))
termination_by (us.length, 2)
decreasing_by all_goals simp only [Prod.lex_def, true_and]; omega

theorem operators_wellFormed (level : Level) (left : Option Expr) (ts : List Token)
    (hleft : IfSome Expr.WellFormed left) (hts : Lexemes ts) :
    (operators tracing level left ts).Gives (IfSome Expr.WellFormed) := by
  rw [operators.eq_def]
  match ts, hts with
  | [], hts => exact gives_done hleft hts
  | t :: us, hts =>
    obtain ⟨ht, hus⟩ := lexemes_cons.mp hts
    dsimp only
    split
    · rename_i hlt
      refine (operator_wellFormed left t us hleft ht (Nat.zero_lt_of_lt hlt) hus).andThen
        fun whole vs hv hwhole hvs => ?_
      exact (operators_wellFormed level whole vs hwhole hvs).widen
    · exact gives_done hleft hts
termination_by (ts.length, 1)
decreasing_by all_goals simp only [Prod.lex_def, true_and, List.length_cons]; omega

theorem operator_wellFormed (left : Option Expr) (t : Token) (us : List Token)
    (hleft : IfSome Expr.WellFormed left) (ht : t.IsLexeme) (hpos : 0 < t.kind.level.rank)
    (hus : Lexemes us) : (operator tracing left t us).Gives (IfSome Expr.WellFormed) := by
  rw [operator.eq_def]
  split
  · rename_i hk
    refine (expressions_wellFormed .rparen us hus).map fun args hargs => ?_
    -- an operator with a part that could not be read is dropped
    match left, args, hleft, hargs with
    | none, _, _, _ | some _, none, _, _ => exact ifSome_none
    | some f, some args, hf, hargs =>
      exact ifSome_some.mpr ⟨⟨hk, ht⟩, ifSome_some.mp hf,
        exprsWellFormed_of_forall (ifSome_some.mp hargs)⟩
  · rename_i hk
    refine (expression_wellFormed .lowest us hus).andThen fun i vs hv hi hvs => ?_
    refine gives_expecting hvs fun _ ws hw _ hws => gives_done ?_ hws
    match left, i, hleft, hi with
    | none, _, _, _ | some _, none, _, _ => exact ifSome_none
    | some l, some i, hl, hi =>
      exact ifSome_some.mpr ⟨⟨hk, ht⟩, ifSome_some.mp hl, ifSome_some.mp hi⟩
  · rename_i hp hb
    obtain ⟨op, hop, hmem, -⟩ := exists_binaryOp hpos hp hb
    refine ((expression_wellFormed t.kind.level us hus).map fun r hr => ?_).widen.traced
    rw [hop]
    match left, r, hleft, hr with
    | none, _, _, _ | some _, none, _, _ => exact ifSome_none
    | some l, some r, hl, hr =>
      exact ifSome_some.mpr ⟨⟨_, hmem⟩, ht, ifSome_some.mp hl, ifSome_some.mp hr⟩
termination_by (us.length + 1, 0)
decreasing_by all_goals simp only [Prod.lex_def]; omega

theorem expressions_wellFormed (close : Token.Kind) (ts : List Token) (hts : Lexemes ts) :
    (separated close (fun ts _ => expression tracing .lowest ts) ts (Nat.le_refl _)).Gives
      (IfSome fun es => ∀ e ∈ es, e.WellFormed) :=
  gives_separated (fun us _ hus => expression_wellFormed .lowest us hus) hts
termination_by (ts.length, 2)
decreasing_by all_goals simp only [Prod.lex_def]; omega

theorem conditional_wellFormed (t : Token) (us : List Token) (ht : t.Is .ifWord)
    (hus : Lexemes us) : (conditional tracing t us).Gives (IfSome Expr.WellFormed) := by
  rw [conditional]
  refine gives_expecting hus fun _ vs hv _ hvs => ?_
  refine (expression_wellFormed .lowest vs hvs).andThen fun c ws hw hc hws => ?_
  -- without a condition the rule stops here, and no conditional is kept
  match c, hc with
  | none, _ => exact gives_done ifSome_none hws
  | some c, hc =>
    refine gives_expecting hws fun _ xs hx _ hxs => ?_
    refine gives_expecting hxs fun b ys hy hb hys => ?_
    refine (block_wellFormed ys hys).andThen fun yes zs hz hyes hzs => ?_
    have hlen : zs.tail.length ≤ zs.length := by simp
    split
    · refine gives_expecting hzs.tail fun b' as ha hb' has => ?_
      refine ((block_wellFormed as has).map fun no hno => ?_).widen
      exact ifSome_some.mpr ⟨ht, ifSome_some.mp hc, ⟨hb, hyes⟩, hb', hno⟩
    · exact gives_done (ifSome_some.mpr ⟨ht, ifSome_some.mp hc, hb, hyes⟩) hzs
termination_by (us.length, 2)
decreasing_by all_goals simp only [Prod.lex_def]; omega

theorem function_wellFormed (t : Token) (us : List Token) (ht : t.Is .fnWord)
    (hus : Lexemes us) : (function tracing t us).Gives (IfSome Expr.WellFormed) := by
  rw [function]
  refine gives_expecting hus fun _ vs hv _ hvs => ?_
  refine (gives_separated (fun ws _ hws => parameter_isName hws) hvs).andThen
    fun xs ws hw hxs hws => ?_
  match xs, hxs with
  | none, _ => exact gives_done ifSome_none hws
  | some xs, hxs =>
    refine gives_expecting hws fun b ys hy hb hys => ?_
    refine ((block_wellFormed ys hys).map fun body hbody => ?_).widen
    exact ifSome_some.mpr ⟨ht, ifSome_some.mp hxs, hb, hbody⟩
termination_by (us.length, 2)
decreasing_by all_goals simp only [Prod.lex_def]; omega

theorem hashPairs_wellFormed (ts : List Token) (hts : Lexemes ts) :
    (hashPairs tracing ts).Gives (IfSome PairsWellFormed) := by
  rw [hashPairs.eq_def]
  split
  · exact gives_done (ifSome_some.mpr trivial) hts.tail
  · refine (expression_wellFormed .lowest ts hts).andThen fun k us hu hk hus => ?_
    refine gives_expecting hus fun _ vs hv _ hvs => ?_
    refine (expression_wellFormed .lowest vs hvs).andThen fun v ws hw hv' hws => ?_
    match k, v, hk, hv' with
    | none, _, _, _ | some _, none, _, _ => exact gives_done ifSome_none hws
    | some k, some v, hk, hv' =>
      dsimp only
      split
      · exact gives_done (ifSome_some.mpr ⟨ifSome_some.mp hk, ifSome_some.mp hv', trivial⟩) hws.tail
      · refine gives_expecting hws fun _ xs hx _ hxs => ?_
        refine ((hashPairs_wellFormed xs hxs).map fun ps hps => ?_).widen
        cases ps with
        | none => exact ifSome_none
        | some ps =>
          exact ifSome_some.mpr ⟨ifSome_some.mp hk, ifSome_some.mp hv', ifSome_some.mp hps⟩
termination_by (ts.length, 2)
decreasing_by all_goals simp only [Prod.lex_def, true_and]; omega

theorem block_wellFormed (ts : List Token) (hts : Lexemes ts) :
    (block tracing ts).Gives StmtsWellFormed := by
  rw [block.eq_def]
  match ts, hts with
  | [], hts => exact gives_done trivial hts
  | t :: us, hts =>
    obtain ⟨ht, hus⟩ := lexemes_cons.mp hts
    dsimp only
    split
    · exact gives_done trivial hus
    -- a statement that could not be read leaves no gap in the list
    · refine (statement_wellFormed t us ht hus).andThen fun s vs hv hs hvs => ?_
      refine ((block_wellFormed vs hvs).map fun ss hss => ?_).widen
      exact stmtsWellFormed_toList_append hs hss
termination_by (ts.length, 4)
decreasing_by all_goals simp only [Prod.lex_def, true_and, List.length_cons]; omega

theorem statement_wellFormed (t : Token) (us : List Token) (ht : t.IsLexeme) (hus : Lexemes us) :
    (statement tracing t us).Gives (IfSome Stmt.WellFormed) := by
  rw [statement.eq_def]
  split
  · rename_i hk
    refine gives_expecting hus fun x vs hv hx hvs => ?_
    refine gives_expecting hvs fun _ ws hw _ hws => ?_
    refine (expression_wellFormed .lowest ws hws).andThen fun e xs hx' he hxs => ?_
    match e, he with
    | none, _ => exact gives_done ifSome_none hxs
    | some e, he =>
      refine gives_done (ifSome_some.mpr ⟨⟨hk, ht⟩, ?_, ifSome_some.mp he⟩) hxs.skipSemicolon
      obtain ⟨k, x⟩ := x
      obtain ⟨rfl, hx⟩ := hx
      exact hx
  · rename_i hk
    split
    · exact gives_done (ifSome_some.mpr ⟨⟨hk, ht⟩, .inl rfl⟩) hus.tail
    split
    · exact gives_done (ifSome_some.mpr ⟨⟨hk, ht⟩, .inl rfl⟩) hus
    · refine (expression_wellFormed .lowest us hus).andThen fun e vs hv he hvs => ?_
      match e, he with
      | none, _ => exact gives_done ifSome_none hvs
      | some e, he =>
        exact gives_done (ifSome_some.mpr ⟨⟨hk, ht⟩, .inr (ifSome_some.mp he)⟩) hvs.skipSemicolon
  · refine Gives.traced ?_
    refine (expression_wellFormed .lowest (t :: us) (lexemes_cons.mpr ⟨ht, hus⟩)).andThen
      fun e vs hv he hvs => ?_
    match e, he with
    | none, _ => exact gives_done ifSome_none hvs
    | some e, he =>
      have he : e.WellFormed := ifSome_some.mp he
      have hs : (Stmt.expr t e).WellFormed := he
      exact gives_done (ifSome_some.mpr hs) hvs.skipSemicolon
termination_by (us.length + 1, 3)
decreasing_by all_goals simp only [Prod.lex_def, true_and, List.length_cons]; omega

end

theorem statements_wellFormed (ts : List Token) (hts : Lexemes ts) :
    (statements tracing ts).Gives StmtsWellFormed := by
  rw [statements.eq_def]
  match ts, hts with
  | [], hts => exact gives_done trivial hts
  | t :: us, hts =>
    obtain ⟨ht, hus⟩ := lexemes_cons.mp hts
    refine (statement_wellFormed t us ht hus).andThen fun s vs hv hs hvs => ?_
    refine ((statements_wellFormed vs hvs).map fun ss hss => ?_).widen
    exact stmtsWellFormed_toList_append hs hss
termination_by ts.length
decreasing_by simp only [List.length_cons]; omega

/-- Whatever the text, the program that is kept is well-formed. -/
theorem parse_wellFormed (tracing : Bool) (source : String) :
    (parse tracing source).program.WellFormed :=
  (statements_wellFormed _ fun _ ht => Token.isLexeme_of_mem_scan ht).1

end

end Monkey

import Monkey.Proofs.Interpreter
import Monkey.Proofs.Parsing.Braces
import Monkey.Proofs.Parsing.Completeness
import Monkey.Proofs.Parsing.Local
import Monkey.Proofs.Token.Concat

/-!
# One source after another

A source of whole statements ends with a semicolon and has all its braces closed.  Whatever is
written after it, its statements are read as before, and what follows is read as if it stood alone.
So a file can be evaluated as a whole or one part after the other.
-/

namespace Monkey

open Parsed Grammar

/-! ## Statements before more tokens -/

section

variable {tracing : Bool} {more : List Token}

theorem Parsed.Local.reads {α : Type} {m m' : Nat} {r : Parsed α m} {r' : Parsed α m'} {v : α}
    {rest : List Token} (h : Local more r r') (hr : r.Reads v rest) (hrest : rest ≠ []) :
    r'.Reads v (rest ++ more) := by
  obtain ⟨rfl, rfl, herrors⟩ := hr
  obtain ⟨hv, hr, he⟩ := h hrest
  exact ⟨hv, hr, he.trans herrors⟩

theorem startsExpr_of_reads {level : Level} {ts rest : List Token} {v : Option Expr}
    (h : (expression tracing level ts).Reads v rest) : (nextKind ts).startsExpr := by
  obtain ⟨t, us, _, _, rfl, ht, -⟩ := reads_expression.mp h
  exact ht

/-- In a text of whole statements an expression leaves the last semicolon at least, so it is the
same with more tokens behind. -/
theorem reads_expression_append {ts us rest : List Token} {v : Option Expr} (hts : Sealed ts)
    (hspans : Spans ts us) (h : (expression tracing .lowest us).Reads v rest) :
    ∃ e, v = some e ∧ rest ≠ [] ∧
      (expression tracing .lowest (us ++ more)).Reads (some e) (rest ++ more) := by
  obtain ⟨e, rfl, he⟩ := (expression_sound us.length).lowest (Nat.le_refl _) h
  have hrest : rest ≠ [] := hts.rest_ne_nil (hspans.ends he.ends)
  exact ⟨e, rfl, hrest, (local_expression _ .lowest us (Nat.le_refl _)).reads h hrest⟩

theorem reads_statement_append {t : Token} {us rest : List Token} {v : Option Stmt}
    (hts : Sealed (t :: us)) (h : (statement tracing t us).Reads v rest) :
    (statement tracing t (us ++ more)).Reads v (rest ++ more) := by
  rw [statement.eq_def] at h
  split at h
  · rename_i ht
    simp only [reads_expecting, reads_andThen] at h
    obtain ⟨x, vs, _, rfl, hx, a, ws, _, rfl, ha, e, xs, _, he, h⟩ := h
    -- none of the tokens before the value is a brace
    have hspans : Spans (t :: x :: a :: ws) ws :=
      (((Spans.refl ws).cons (by rw [ha]; rfl)).cons (by rw [hx]; rfl)).cons (by rw [ht]; rfl)
    obtain ⟨e, rfl, hne, he⟩ := reads_expression_append hts hspans he
    obtain ⟨rfl, rfl⟩ := reads_done.mp h
    rw [← skipSemicolon_append hne]
    exact reads_statement_bind ht hx ha he
  · rename_i ht
    have hspans : Spans (t :: us) us := (Spans.refl us).cons (by rw [ht]; rfl)
    simp only [reads_ite, reads_done, reads_andThen] at h
    rcases h with ⟨hc, rfl, rfl⟩ | ⟨hne, ⟨hc, rfl, rfl⟩ | ⟨-, e, vs, _, he, h⟩⟩
    · obtain ⟨c, us, rfl, hc⟩ := exists_cons_of_nextKind hc (by decide)
      exact reads_statement_retNothing ht hc
    · -- the `return` itself is not the last token
      have hus : us ≠ [] := by
        rintro rfl
        have hlast : t.kind = .semicolon := Option.some.inj hts.last
        rw [ht] at hlast
        contradiction
      rw [← nextKind_append hus more] at hc hne
      rw [statement.eq_def]
      simp only [ht, if_neg hne, if_pos hc, reads_done, and_self]
    · obtain ⟨e, rfl, hne, he⟩ := reads_expression_append hts hspans he
      obtain ⟨rfl, rfl⟩ := reads_done.mp h
      rw [← skipSemicolon_append hne]
      exact reads_statement_ret ht (startsExpr_of_reads he) he
  · simp only [reads_traced, reads_andThen] at h
    obtain ⟨e, vs, _, he, h⟩ := h
    obtain ⟨e, rfl, hne, he⟩ := reads_expression_append hts (Spans.refl _) he
    obtain ⟨rfl, rfl⟩ := reads_done.mp h
    rw [← skipSemicolon_append hne]
    exact reads_statement_expr (startsExpr_of_reads he) he

/-- A statement without errors, and the statements after it. -/
theorem statements_cons {t : Token} {us rest : List Token} {v : Option Stmt}
    (h : (statement tracing t us).Reads v rest) :
    (statements tracing (t :: us)).value = v.toList ++ (statements tracing rest).value ∧
    (statements tracing (t :: us)).errors = (statements tracing rest).errors := by
  obtain ⟨rfl, rfl, herrors⟩ := h
  rw [statements.eq_def tracing (t :: us)]
  refine ⟨rfl, ?_⟩
  show (statement tracing t us).errors ++ _ = _
  rw [herrors, List.nil_append]
  rfl

/-- The statements of a text of whole statements stay the same before more tokens, and the others
are those of these tokens alone. -/
theorem statements_append (ts : List Token) (hts : ts ≠ [] → Sealed ts)
    (h : (statements tracing ts).errors = []) :
    (statements tracing (ts ++ more)).value =
      (statements tracing ts).value ++ (statements tracing more).value ∧
    (statements tracing (ts ++ more)).errors = (statements tracing more).errors := by
  match ts with
  | [] =>
    have hnil : (statements tracing []).value = [] := by
      rw [statements.eq_def]
      rfl
    rw [hnil]
    exact ⟨rfl, rfl⟩
  | t :: us =>
    have hsealed := hts (List.cons_ne_nil t us)
    have hfirst : (statement tracing t us).errors = [] := by
      rw [statements.eq_def] at h
      exact (List.append_eq_nil_iff.mp h).1
    have hreads := reads_of_errors_eq_nil hfirst
    obtain ⟨s, -, hs⟩ := statement_sound (expression_sound _) (Nat.lt_succ_self _) hreads
    have hrest := hreads.length_le
    obtain ⟨hvalue, herrors⟩ := statements_cons hreads
    rw [herrors] at h
    -- what the first statement leaves is a text of whole statements again
    obtain ⟨ihvalue, iherrors⟩ :=
      statements_append (statement tracing t us).rest (hsealed.of_spans hs.spans) h
    obtain ⟨hvalue', herrors'⟩ := statements_cons (reads_statement_append hsealed hreads)
    rw [List.cons_append, hvalue', herrors', ihvalue, iherrors, hvalue, List.append_assoc]
    exact ⟨rfl, rfl⟩
termination_by ts.length
decreasing_by simp only [List.length_cons]; omega

end

theorem parse_append {tracing : Bool} {a : String} (ha : (parse tracing a).errors = [])
    (hsealed : Sealed (Token.scan a.toList)) (b : String) :
    (parse tracing (a ++ b)).program.statements =
      (parse tracing a).program.statements ++ (parse tracing b).program.statements ∧
    (parse tracing (a ++ b)).errors = (parse tracing b).errors := by
  have hscan : Token.scan (a ++ b).toList = Token.scan a.toList ++ Token.scan b.toList := by
    rw [String.toList_append]
    exact Token.scan_append _ _ hsealed.last
  simp only [parse, hscan]
  exact statements_append _ (fun _ => hsealed) ha

/-! ## Evaluation -/

/-- The statements of the program are evaluated to the end: none of them returns from the program,
and no error is raised. -/
def Program.Completes (p : Program) (depth scope : Nat) (s : Scopes) : Prop :=
  ∃ v s', evalStmts (applyWithin depth) scope none p.statements s = .ok v s'

section

variable {call : Value → List Value → Eval Value} {scope depth : Nat} {s s' : Scopes}
  {v : Option Value}

/-- Statements are worth what the last of them is worth, whatever stands before. -/
theorem evalStmts_eq_of_ne_nil {ss : List Stmt} (hss : ss ≠ []) (last : Option Value) :
    evalStmts call scope last ss = evalStmts call scope none ss := by
  cases ss with
  | nil => exact absurd rfl hss
  | cons s ss => simp only [evalStmts]

/-- After a program that completes, another program is evaluated where the first one stopped. -/
theorem Program.eval_append {p q : Program} (hq : q.statements ≠ [])
    (hp : evalStmts (applyWithin depth) scope none p.statements s = .ok v s') :
    Program.eval depth scope ⟨p.statements ++ q.statements⟩ s = q.eval depth scope s' := by
  have hstmts : evalStmts (applyWithin depth) scope none (p.statements ++ q.statements) s =
      evalStmts (applyWithin depth) scope none q.statements s' := by
    rw [evalStmts_append, Eval.bind_of_ok hp, evalStmts_eq_of_ne_nil hq]
  simp only [Program.eval_eq, Eval.catchReturn, hstmts]

theorem Program.eval_of_completes {p : Program}
    (hp : evalStmts (applyWithin depth) scope none p.statements s = .ok v s') :
    p.eval depth scope s = .ok v s' := by
  rw [Program.eval_eq, Eval.catchReturn, hp]

end

/-- A source of whole statements can be written before any other source.  The statements are those
of both, and the errors those of the second.  If the second has statements and no errors, and the
first completes, then evaluating both as one source gives the answer of the second after the first,
and leaves the same scopes. -/
theorem eval_source_append (i : Interpreter) (a b : String)
    (ha : (parse i.tracing a).errors = []) (hsealed : Sealed (Token.scan a.toList)) :
    (parse i.tracing (a ++ b)).program.statements =
      (parse i.tracing a).program.statements ++ (parse i.tracing b).program.statements ∧
    (parse i.tracing (a ++ b)).errors = (parse i.tracing b).errors ∧
    ((parse i.tracing b).errors = [] → (parse i.tracing b).program.statements ≠ [] →
      ∀ s, (parse i.tracing a).program.Completes i.depth i.scope s →
        (i.eval (a ++ b) s).1.result = (i.eval b (i.eval a s).2).1.result ∧
        (i.eval (a ++ b) s).2 = (i.eval b (i.eval a s).2).2) := by
  obtain ⟨hprogram, herrors⟩ := parse_append ha hsealed b
  refine ⟨hprogram, herrors, ?_⟩
  rintro hb hne s ⟨v, s', hrun⟩
  -- the first source leaves the scopes in which the second begins
  have hafter : (i.eval a s).2 = s' := by
    rw [(Interpreter.eval_of_errors_eq_nil ha).2,
      Eval.outcome_of_ok (Program.eval_of_completes hrun)]
  have heval : (parse i.tracing (a ++ b)).program.eval i.depth i.scope s =
      (parse i.tracing b).program.eval i.depth i.scope s' := by
    rw [← Program.eval_append hne hrun, ← hprogram]
  obtain ⟨hresult, hscopes⟩ := Interpreter.eval_of_errors_eq_nil (herrors.trans hb)
  obtain ⟨hresult', hscopes'⟩ := Interpreter.eval_of_errors_eq_nil hb
  rw [hafter, hresult, hscopes, hresult', hscopes']
  simp only [Eval.outcome, heval, and_self]

/-- The statement `let f = fn(x) { return x; };`. -/
def bindIdentity : String := "let f = fn(x) \x7b return x; \x7d;"

theorem eval_source_append_call :
    (parse false bindIdentity).errors = [] ∧ Sealed (Token.scan bindIdentity.toList) ∧
    (parse false bindIdentity).program.Completes (UInt64.size / 4) 0 .fresh ∧
    (Interpreter.standard.eval (bindIdentity ++ "f(1)") .fresh).1.result =
      (Interpreter.standard.eval "f(1)"
        (Interpreter.standard.eval bindIdentity .fresh).2).1.result := by
  have ha : (parse false bindIdentity).errors = [] := by cbv
  have hsealed : Sealed (Token.scan bindIdentity.toList) := ⟨by cbv, by cbv⟩
  have hb : (parse false "f(1)").errors = [] := by cbv
  have hne : (parse false "f(1)").program.statements ≠ [] := by cbv; simp
  have hprogram : (parse false bindIdentity).program.statements =
      [.bind ⟨.letWord, "let"⟩ "f" (.func ⟨.fnWord, "fn"⟩ ["x"] (.mk ⟨.lbrace, "\x7b"⟩
        [.ret ⟨.returnWord, "return"⟩ (.ident ⟨.ident, "x"⟩ "x")]))] := by cbv
  have hrun : (parse false bindIdentity).program.Completes (UInt64.size / 4) 0 .fresh := by
    rw [Program.Completes, hprogram]
    exact ⟨_, _, rfl⟩
  have happend := eval_source_append .standard bindIdentity "f(1)" ha hsealed
  exact ⟨ha, hsealed, hrun, (happend.2.2 hb hne .fresh hrun).1⟩

end Monkey

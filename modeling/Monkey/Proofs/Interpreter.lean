import Monkey.Evaluation.Node
import Monkey.Interpreter
import Monkey.Proofs.Evaluation.Partial
import Monkey.Proofs.Evaluation.Raised

/-!
# What the interpreter reports

The interpreter gives one kind of answer for an error value, whether evaluation raised an error or
came to such a value.  In a clean state there are no error values to come to, and evaluation leaves
clean states only.  So a runtime error is reported exactly when one was raised.
-/

namespace Monkey

/-- No expression is left out. -/
def Node.Complete : Node → Prop
  | program p => p.Complete
  | stmt s => s.Complete
  | expr e => e.Complete

/-! ## Clean states -/

theorem Node.eval_safe {n : Node} {r m : Nat} (depth : Nat) (hr : r < m) (hn : n.Complete) :
    (n.eval depth r).Safe m fun v k => ∀ w ∈ v, w.Ordinary k := by
  have hcall := callSafe_applyWithin depth
  cases n with
  | program p => exact Program.eval_safe hr hn
  | stmt st => exact Stmt.eval_safe hcall hr hn
  | expr e =>
    show Eval.Safe m _ (e.eval (applyWithin depth) r >>= fun v => pure (some v))
    apply (Expr.eval_safe hcall hr hn).bind
    intro v k _ hv
    apply Eval.safe_pure
    intro j hj w hw
    cases hw
    exact hv.mono hj

/-- The evaluation of an expression that completes has a value. -/
theorem Node.eval_expr_ne_none {e : Expr} {depth r : Nat} {s s' : Scopes} :
    (Node.expr e).eval depth r s ≠ .ok none s' := by
  show (e.eval (applyWithin depth) r >>= fun v => pure (some v)) s ≠ .ok none s'
  cases he : e.eval (applyWithin depth) r s with
  | ok v s₁ =>
    rw [Eval.bind_of_ok he]
    exact fun h => nomatch h
  | error h s₁ =>
    rw [Eval.bind_of_error he]
    exact fun h => nomatch h

/-! ## Outcomes -/

theorem Eval.outcome_of_fault {x : Eval (Option Value)} {s s' : Scopes} {f : Fault}
    (hx : x s = .error (.fault f) s') : x.outcome s = (.value (some (.error f.message)), s') := by
  rw [outcome, hx]

theorem Eval.outcome_of_ok {x : Eval (Option Value)} {s s' : Scopes} {v : Option Value}
    (hx : x s = .ok v s') : x.outcome s = (.value v, s') := by
  rw [outcome, hx]

/-- A step that the evaluation of the program comes to, among its statements or in a function that
is called, raises the error. -/
def Program.Raised (depth scope : Nat) (p : Program) (s : Scopes) (f : Fault) (s' : Scopes) :
    Prop :=
  Place.Raised ⟨depth, scope, .block, .mk .endOfText p.statements⟩ s f s'

section

variable {p : Program} {depth scope : Nat} {s s' : Scopes}

/-- A program ends in a runtime error exactly when a step of it raises the error. -/
theorem Program.eval_fault_iff {f : Fault} :
    p.eval depth scope s = .error (.fault f) s' ↔ p.Raised depth scope s f s' := by
  rw [Raised, ← Place.eval_fault_iff, Program.eval_eq, catchReturn_fault_iff]
  show _ ↔ Block.eval (applyWithin depth) scope (.mk .endOfText p.statements) s = _
  rw [Block.eval_error_iff]

/-- How the evaluation of a complete program ends. -/
theorem Program.eval_cases (depth : Nat) (hp : p.Complete) (hs : s.Clean)
    (hscope : scope < s.size) :
    (∃ v s', p.eval depth scope s = .ok v s' ∧ s'.Clean ∧ ∀ w ∈ v, w.Ordinary s'.size) ∨
    (∃ f s', p.eval depth scope s = .error (.fault f) s' ∧ s'.Clean) ∨
    ∃ s', p.eval depth scope s = .error .exhausted s' ∧ s'.Clean := by
  have hsafe : (p.eval depth scope).Safe s.size fun v m => ∀ w ∈ v, w.Ordinary m :=
    Program.eval_safe hscope hp
  have hend := hsafe s hs (Nat.le_refl _)
  cases heval : p.eval depth scope s with
  | ok v s' =>
    rw [heval] at hend
    exact .inl ⟨v, s', rfl, hend.1, hend.2.2⟩
  | error h s' =>
    rw [heval] at hend
    cases h with
    | fault f => exact .inr (.inl ⟨f, s', rfl, hend.1⟩)
    | returning v => exact absurd heval (p.eval_ne_returning depth scope s s' v)
    | missing => exact hend.2.2.elim
    | exhausted => exact .inr (.inr ⟨s', rfl, hend.1⟩)

/-- An error value among the outcomes comes from a runtime error. -/
theorem Program.outcome_error_iff {m : String} (hp : p.Complete) (hs : s.Clean)
    (hscope : scope < s.size) :
    (Eval.outcome (p.eval depth scope) s).1 = .value (some (.error m)) ↔
      ∃ f s', f.message = m ∧ p.eval depth scope s = .error (.fault f) s' := by
  constructor
  · intro h
    rcases Program.eval_cases depth hp hs hscope with
      ⟨v, s', heval, -, hv⟩ | ⟨f, s', heval, -⟩ | ⟨s', heval, -⟩
    · rw [Eval.outcome_of_ok heval] at h
      cases h
      -- no error value is ordinary
      exact (hv _ rfl).elim
    · rw [Eval.outcome_of_fault heval] at h
      cases h
      exact ⟨f, s', rfl, heval⟩
    · rw [Eval.outcome, heval] at h
      cases h
  · rintro ⟨f, s', rfl, heval⟩
    rw [Eval.outcome_of_fault heval]

end

/-! ## Answers -/

theorem Answer.ofOutcome_runtimeError_iff {o : Outcome} {m : String} :
    ofOutcome o = runtimeError m ↔ o = .value (some (.error m)) := by
  unfold ofOutcome
  split
  · rw [runtimeError.injEq, Outcome.value.injEq, Option.some.injEq, Value.error.injEq]
  · rename_i v hv
    refine ⟨(nomatch ·), fun h => ?_⟩
    cases h
    exact absurd rfl (hv m)
  · exact ⟨(nomatch ·), (nomatch ·)⟩
  · exact ⟨(nomatch ·), (nomatch ·)⟩

namespace Interpreter

variable {i : Interpreter} {source : String} {s : Scopes}

/-- A source without errors is evaluated. -/
theorem eval_of_errors_eq_nil (h : (Monkey.parse i.tracing source).errors = []) :
    (i.eval source s).1.result = .ofOutcome
      (Eval.outcome ((Monkey.parse i.tracing source).program.eval i.depth i.scope) s).1 ∧
    (i.eval source s).2 =
      (Eval.outcome ((Monkey.parse i.tracing source).program.eval i.depth i.scope) s).2 := by
  have hempty : (Monkey.parse i.tracing source).errors.isEmpty = true := by rw [h]; rfl
  simp only [eval, parse, hempty, if_true, run, and_self]

/-- A source with errors is not. -/
theorem eval_of_errors_ne_nil (h : (Monkey.parse i.tracing source).errors ≠ []) :
    (i.eval source s).1.result = .parseErrors (Monkey.parse i.tracing source).errors ∧
    (i.eval source s).2 = s := by
  have hempty : ¬(Monkey.parse i.tracing source).errors.isEmpty = true := by
    rw [List.isEmpty_iff]
    exact h
  simp only [eval, parse, hempty, if_false, Bool.false_eq_true, and_self]

/-- In a clean state, a runtime error is reported exactly when one was raised. -/
theorem eval_runtimeError_iff {m : String} (hs : s.Clean) (hscope : i.scope < s.size) :
    (i.eval source s).1.result = .runtimeError m ↔
      (Monkey.parse i.tracing source).errors = [] ∧ ∃ f s', f.message = m ∧
        (Monkey.parse i.tracing source).program.Raised i.depth i.scope s f s' := by
  by_cases herrors : (Monkey.parse i.tracing source).errors = []
  · have hp := (parse_wellFormed i.tracing source).complete
    rw [(eval_of_errors_eq_nil herrors).1, Answer.ofOutcome_runtimeError_iff,
      Program.outcome_error_iff hp hs hscope]
    simp only [herrors, true_and, Program.eval_fault_iff]
  · rw [(eval_of_errors_ne_nil herrors).1]
    exact ⟨(nomatch ·), fun h => absurd h.1 herrors⟩

end Interpreter

/-- Evaluation of a complete tree in a clean state leaves a clean state.  Its value is ordinary, and
so is what a `return` carries; an expression that completes has a value, and a program comes to an
ordinary value, to none or to an error.  So a source evaluated in fresh scopes is answered with a
runtime error exactly when it parses and one of its steps raises the error. -/
theorem eval_clean :
    (∀ (n : Node) (depth r : Nat) (s : Scopes), n.Complete → s.Clean → r < s.size →
      (∀ v s', n.eval depth r s = .ok v s' →
        s'.Clean ∧ (∀ w ∈ v, w.Ordinary s'.size) ∧ ∀ e, n = .expr e → v ≠ none) ∧
      (∀ f s', n.eval depth r s = .error (.fault f) s' → s'.Clean) ∧
      (∀ v s', n.eval depth r s = .error (.returning v) s' → s'.Clean ∧ v.Ordinary s'.size) ∧
      ∀ s', n.eval depth r s ≠ .error .missing s') ∧
    (∀ (p : Program) (depth r : Nat) (s : Scopes), p.Complete → s.Clean → r < s.size →
      ∀ o s', Eval.outcome (p.eval depth r) s = (o, s') → s'.Clean ∧
        (o = .value none ∨ (∃ v, o = .value (some v) ∧ v.Ordinary s'.size) ∨
          (∃ m, o = .value (some (.error m))) ∨ o = .exhausted)) ∧
    ∀ (tracing : Bool) (depth : Nat) (source m : String),
      ((Interpreter.mk 0 tracing depth).eval source .fresh).1.result = .runtimeError m ↔
        (parse tracing source).errors = [] ∧ ∃ f s', f.message = m ∧
          (parse tracing source).program.Raised depth 0 .fresh f s' := by
  refine ⟨?nodes, ?programs, fun tracing depth source m => ?_⟩
  case nodes =>
    intro n depth r s hn hs hr
    have hend := Node.eval_safe depth hr hn s hs (Nat.le_refl _)
    refine ⟨fun v s' h => ?_, fun f s' h => ?_, fun v s' h => ?_, fun s' h => ?_⟩
    · rw [h] at hend
      refine ⟨hend.1, hend.2.2, ?_⟩
      rintro e rfl rfl
      exact Node.eval_expr_ne_none h
    · rw [h] at hend
      exact hend.1
    · rw [h] at hend
      exact ⟨hend.1, hend.2.2⟩
    · rw [h] at hend
      exact hend.2.2
  case programs =>
    intro p depth r s hp hs hr o s' h
    rcases Program.eval_cases depth hp hs hr with
      ⟨v, s₁, heval, hs₁, hv⟩ | ⟨f, s₁, heval, hs₁⟩ | ⟨s₁, heval, hs₁⟩
    · rw [Eval.outcome_of_ok heval] at h
      cases h
      cases v with
      | none => exact ⟨hs₁, .inl rfl⟩
      | some v => exact ⟨hs₁, .inr (.inl ⟨v, rfl, hv v rfl⟩)⟩
    · rw [Eval.outcome_of_fault heval] at h
      cases h
      exact ⟨hs₁, .inr (.inr (.inl ⟨f.message, rfl⟩))⟩
    · rw [Eval.outcome, heval] at h
      cases h
      exact ⟨hs₁, .inr (.inr (.inr rfl))⟩
  · exact Interpreter.eval_runtimeError_iff Scopes.clean_fresh Nat.zero_lt_one

/-- The body of `fn(x) { return; }`. -/
def bareReturn : Block := .mk .endOfText [.ret .endOfText .absent]

/-- The statement `let h = {1: [fn(x) { return; }], true: 5}`. -/
def bindHash : Node :=
  .stmt (.bind .endOfText "h" (.hash .endOfText
    [(.int .endOfText 1, .array .endOfText [.func .endOfText ["x"] bareReturn]),
      (.bool .endOfText true, .int .endOfText 5)]))

def boundHash : Scopes :=
  Scopes.fresh.define 0 "h" (.hash
    [(⟨.integer, 1⟩, (.int 1, .array [.function ["x"] bareReturn 0])),
      (⟨.boolean, 1⟩, (.bool true, .int 5))])

theorem eval_clean_bindHash :
    bindHash.Complete ∧ Scopes.fresh.Clean ∧ bindHash.eval 0 0 .fresh = .ok none boundHash ∧
    boundHash.Clean := by
  have hcomplete : bindHash.Complete :=
    ⟨trivial, ⟨⟨.inl rfl, trivial⟩, trivial⟩, trivial, trivial, trivial⟩
  have heval : bindHash.eval 0 0 .fresh = .ok none boundHash := rfl
  have hnode := eval_clean.1 bindHash 0 0 .fresh hcomplete Scopes.clean_fresh Nat.zero_lt_one
  exact ⟨hcomplete, Scopes.clean_fresh, heval, (hnode.1 none boundHash heval).1⟩

end Monkey

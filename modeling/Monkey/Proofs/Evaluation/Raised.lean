import Monkey.Proofs.Evaluation.Context

/-!
# Where runtime errors come from

A runtime error is raised by a single step: a name that stands for nothing, an operation that does
not fit its operands, a key that cannot be one, or a call of something that is no function or with
arguments a built-in function refuses.  An evaluation ends in a runtime error exactly when a step it
comes to raises it: no error is made up on the way, and none is lost.
-/

namespace Monkey

namespace Place

/-- All parts of the tree complete, and its own last step raises the error. -/
inductive Raises : Place → Scopes → Fault → Scopes → Prop where
  | name {depth scope : Nat} {t : Token} {x : String} {s : Scopes} :
      s.get? scope x = none → Builtin.ofName? x = none →
      Raises ⟨depth, scope, .expr, Expr.ident t x⟩ s (.unbound x) s
  | unary {depth scope : Nat} {t : Token} {op : UnaryOp} {e : Expr} {v : Value} {f : Fault}
      {s s' : Scopes} :
      e.eval (applyWithin depth) scope s = .ok v s' → op.apply v = .error f →
      Raises ⟨depth, scope, .expr, Expr.unary t op e⟩ s f s'
  | binary {depth scope : Nat} {t : Token} {op : BinaryOp} {l r : Expr} {v w : Value} {f : Fault}
      {s s₁ s' : Scopes} :
      l.eval (applyWithin depth) scope s = .ok v s₁ →
      r.eval (applyWithin depth) scope s₁ = .ok w s' → op.apply v w = .error f →
      Raises ⟨depth, scope, .expr, Expr.binary t l op r⟩ s f s'
  | index {depth scope : Nat} {t : Token} {l i : Expr} {v w : Value} {f : Fault}
      {s s₁ s' : Scopes} :
      l.eval (applyWithin depth) scope s = .ok v s₁ →
      i.eval (applyWithin depth) scope s₁ = .ok w s' → v.atIndex w = .error f →
      Raises ⟨depth, scope, .expr, Expr.index t l i⟩ s f s'
  | key {depth scope : Nat} {t : Token} {before after : List (Expr × Expr)} {k v : Expr}
      {table : Table HashKey (Value × Value)} {w : Value} {s s₁ s' : Scopes} :
      evalPairs (applyWithin depth) scope [] before s = .ok table s₁ →
      k.eval (applyWithin depth) scope s₁ = .ok w s' → w.hashKey? = none →
      Raises ⟨depth, scope, .expr, Expr.hash t (before ++ (k, v) :: after)⟩ s
        (.notHashable w.kind) s'
  | builtin {depth scope : Nat} {t : Token} {callee : Expr} {args : List Expr} {b : Builtin}
      {vs : List Value} {f : Fault} {s s₁ s' : Scopes} :
      callee.eval (applyWithin depth) scope s = .ok (.builtin b) s₁ →
      evalExprs (applyWithin depth) scope args s₁ = .ok vs s' → b.apply vs = .error f →
      Raises ⟨depth, scope, .expr, Expr.call t callee args⟩ s f s'
  | notCallable {depth scope : Nat} {t : Token} {callee : Expr} {args : List Expr} {g : Value}
      {vs : List Value} {s s₁ s' : Scopes} :
      callee.eval (applyWithin depth) scope s = .ok g s₁ →
      evalExprs (applyWithin depth) scope args s₁ = .ok vs s' →
      g.kind ≠ .function → g.kind ≠ .builtin →
      Raises ⟨depth, scope, .expr, Expr.call t callee args⟩ s (.notCallable g.kind) s'

/-- A step that the evaluation comes to raises the error. -/
def Raised (P : Place) (s : Scopes) (f : Fault) (s' : Scopes) : Prop :=
  ∃ Q s₁, P.Leads s Q s₁ ∧ Q.Raises s₁ f s'

end Place

section

open Eval Place

variable {depth scope : Nat} {s s₁ s₂ s' : Scopes} {f : Fault}

/-! ## What is raised is reported -/

theorem ofExcept_fault_iff {α : Type} {r : Except Fault α} :
    ofExcept r s = .error (.fault f) s' ↔ r = .error f ∧ s = s' := by
  cases r with
  | ok a => exact ⟨(nomatch ·), (nomatch ·.1)⟩
  | error g =>
    show EStateM.Result.error (Halt.fault g) s = .error (.fault f) s' ↔ _
    rw [EStateM.Result.error.injEq, Halt.fault.injEq, Except.error.injEq]

theorem readName_fault_iff {x : String} :
    readName scope x s = .error (.fault f) s' ↔
      s.get? scope x = none ∧ Builtin.ofName? x = none ∧ .unbound x = f ∧ s = s' := by
  have hget : (get : Eval Scopes) s = .ok s s := rfl
  rw [readName, bind_of_ok hget]
  cases s.get? scope x with
  | some v =>
    constructor
    · intro h
      cases h
    · rintro ⟨h, -⟩
      cases h
  | none =>
    cases Builtin.ofName? x with
    | some b =>
      constructor
      · intro h
        cases h
      · rintro ⟨-, h, -⟩
        cases h
    | none =>
      show EStateM.Result.error (Halt.fault (.unbound x)) s = .error (.fault f) s' ↔ _
      rw [EStateM.Result.error.injEq, Halt.fault.injEq]
      exact ⟨fun h => ⟨rfl, rfl, h⟩, fun h => h.2.2⟩

theorem catchReturn_fault_iff {α : Type} {x : Eval α} {accept : Value → α} :
    x.catchReturn accept s = .error (.fault f) s' ↔ x s = .error (.fault f) s' := by
  unfold catchReturn
  cases x s with
  | ok a s₁ => exact Iff.rfl
  | error h s₁ =>
    cases h with
    | returning v => exact ⟨(nomatch ·), (nomatch ·)⟩
    | _ => exact Iff.rfl

theorem applyWithin_builtin (b : Builtin) (vs : List Value) :
    applyWithin depth (.builtin b) vs = ofExcept (b.apply vs) := by
  cases depth <;> rfl

theorem applyWithin_notCallable {g : Value} {vs : List Value} (hfunction : g.kind ≠ .function)
    (hbuiltin : g.kind ≠ .builtin) :
    applyWithin depth g vs s = .error (.fault (.notCallable g.kind)) s := by
  cases g with
  | function params body outer => exact absurd rfl hfunction
  | builtin b => exact absurd rfl hbuiltin
  | _ => cases depth <;> rfl

theorem Place.Raises.eval_fault {P : Place} (h : P.Raises s f s') :
    P.eval s = .error (.fault f) s' := by
  cases h with
  | name hget hbuiltin => exact readName_fault_iff.mpr ⟨hget, hbuiltin, rfl, rfl⟩
  | unary he hop =>
    show Expr.eval _ _ _ _ = _
    rw [Expr.eval, bind_of_ok he]
    exact ofExcept_fault_iff.mpr ⟨hop, rfl⟩
  | binary hl hr hop =>
    show Expr.eval _ _ _ _ = _
    rw [Expr.eval, bind_of_ok hl, bind_of_ok hr]
    exact ofExcept_fault_iff.mpr ⟨hop, rfl⟩
  | index hl hi hat =>
    show Expr.eval _ _ _ _ = _
    rw [Expr.eval, bind_of_ok hl, bind_of_ok hi]
    exact ofExcept_fault_iff.mpr ⟨hat, rfl⟩
  | key hbefore hk hkey =>
    show Expr.eval _ _ _ _ = _
    rw [Expr.eval]
    apply bind_of_error
    rw [evalPairs_append, bind_of_ok hbefore, evalPairs, bind_of_ok hk, hkey]
    rfl
  | builtin hcallee hargs hb =>
    show Expr.eval _ _ _ _ = _
    rw [Expr.eval, bind_of_ok hcallee, bind_of_ok hargs, applyWithin_builtin]
    exact ofExcept_fault_iff.mpr ⟨hb, rfl⟩
  | notCallable hcallee hargs hfunction hbuiltin =>
    show Expr.eval _ _ _ _ = _
    rw [Expr.eval, bind_of_ok hcallee, bind_of_ok hargs]
    exact applyWithin_notCallable hfunction hbuiltin

/-! ## What is reported was raised -/

theorem exists_of_bind_error {α β : Type} {x : Eval α} {k : α → Eval β} {h : Halt}
    (hbind : (x >>= k) s = .error h s') :
    x s = .error h s' ∨ ∃ v s₁, x s = .ok v s₁ ∧ k v s₁ = .error h s' := by
  cases hx : x s with
  | error h' s₁ =>
    rw [bind_of_error hx] at hbind
    cases hbind
    exact .inl rfl
  | ok v s₁ =>
    rw [bind_of_ok hx] at hbind
    exact .inr ⟨v, s₁, rfl, hbind⟩

/-- What a part raises is raised in the whole. -/
theorem Place.Raised.part {a b : Shape} (fr : Frame a b) {p : a.Tree}
    (hreach : fr.Reaches (applyWithin depth) scope s s₁)
    (h : Raised ⟨depth, scope, a, p⟩ s₁ f s') : Raised ⟨depth, scope, b, fr.fill p⟩ s f s' := by
  obtain ⟨Q, s₂, hleads, hraises⟩ := h
  exact ⟨Q, s₂, .part hreach hleads, hraises⟩

theorem Place.Raises.raised {P : Place} (h : P.Raises s f s') : P.Raised s f s' :=
  ⟨P, s, .here, h⟩

/-- A runtime error in the body of a function, called where calls may nest `depth` deep, was raised
there. -/
def BodiesRaise (depth : Nat) : Prop :=
  ∀ d, depth = d + 1 → ∀ (inner : Nat) (body : Block) (s s' : Scopes) (f : Fault),
    body.eval (applyWithin d) inner s = .error (.fault f) s' →
    Raised ⟨d, inner, .block, body⟩ s f s'

theorem raised_of_applyWithin {t : Token} {callee : Expr} {args : List Expr} {g : Value}
    {vs : List Value} (hbodies : BodiesRaise depth)
    (hcallee : callee.eval (applyWithin depth) scope s = .ok g s₁)
    (hargs : evalExprs (applyWithin depth) scope args s₁ = .ok vs s₂)
    (h : applyWithin depth g vs s₂ = .error (.fault f) s') :
    Raised ⟨depth, scope, .expr, Expr.call t callee args⟩ s f s' := by
  by_cases hbuiltin : g.kind = .builtin
  · cases g <;> cases hbuiltin
    rw [applyWithin_builtin] at h
    obtain ⟨hb, rfl⟩ := ofExcept_fault_iff.mp h
    exact (Raises.builtin hcallee hargs hb).raised
  by_cases hfunction : g.kind = .function
  · cases g <;> cases hfunction
    rename_i params body outer
    cases depth with
    | zero =>
      -- the calls are used up, which is no runtime error
      cases h
    | succ d =>
      have henter : enterCall outer params vs s₂ = .ok s₂.size _ := rfl
      rw [applyWithin_function henter, catchReturn_fault_iff] at h
      obtain ⟨Q, s₃, hleads, hraises⟩ := hbodies d rfl _ _ _ _ _ h
      exact ⟨Q, s₃, .body hcallee hargs henter hleads, hraises⟩
  · rw [applyWithin_notCallable hfunction hbuiltin] at h
    cases h
    exact (Raises.notCallable hcallee hargs hfunction hbuiltin).raised

mutual

theorem Expr.raised_of_eval (hbodies : BodiesRaise depth) : (e : Expr) → {s s' : Scopes} →
    {f : Fault} → e.eval (applyWithin depth) scope s = .error (.fault f) s' →
    Raised ⟨depth, scope, .expr, e⟩ s f s'
  | .absent, _, _, _, h => nomatch h
  | .ident _ x, _, _, _, h => by
    obtain ⟨hget, hbuiltin, rfl, rfl⟩ := readName_fault_iff.mp h
    exact (Raises.name hget hbuiltin).raised
  | .int _ _, _, _, _, h | .str _ _, _, _, _, h | .bool _ _, _, _, _, h
  | .func _ _ _, _, _, _, h => nomatch h
  | .unary t op e, _, _, _, h => by
    rw [Expr.eval] at h
    -- here and below: either a part stopped, or all parts completed and the last step raises
    rcases exists_of_bind_error h with he | ⟨v, s₁, he, h⟩
    · exact .part (.operand t op) rfl (e.raised_of_eval hbodies he)
    · obtain ⟨hop, rfl⟩ := ofExcept_fault_iff.mp h
      exact (Raises.unary he hop).raised
  | .binary t l op r, _, _, _, h => by
    rw [Expr.eval] at h
    rcases exists_of_bind_error h with hl | ⟨v, s₁, hl, h⟩
    · exact .part (.left t op r) rfl (l.raised_of_eval hbodies hl)
    rcases exists_of_bind_error h with hr | ⟨w, s₂, hr, h⟩
    · exact .part (.right t l op) ⟨v, hl⟩ (r.raised_of_eval hbodies hr)
    · obtain ⟨hop, rfl⟩ := ofExcept_fault_iff.mp h
      exact (Raises.binary hl hr hop).raised
  | .cond t c yes none, _, _, _, h => by
    rw [Expr.eval] at h
    rcases exists_of_bind_error h with hc | ⟨v, s₁, hc, h⟩
    · exact .part (.condition t yes none) rfl (c.raised_of_eval hbodies hc)
    split at h
    · rename_i htruthy
      exact .part (.consequence t c none) ⟨v, hc, htruthy⟩ (yes.raised_of_eval hbodies h)
    · cases h
  | .cond t c yes (some no), _, _, _, h => by
    rw [Expr.eval] at h
    rcases exists_of_bind_error h with hc | ⟨v, s₁, hc, h⟩
    · exact .part (.condition t yes (some no)) rfl (c.raised_of_eval hbodies hc)
    split at h
    · rename_i htruthy
      exact .part (.consequence t c (some no)) ⟨v, hc, htruthy⟩ (yes.raised_of_eval hbodies h)
    · rename_i htruthy
      exact .part (.alternative t c yes) ⟨v, hc, by simpa using htruthy⟩
        (no.raised_of_eval hbodies h)
  | .call t callee args, _, _, _, h => by
    rw [Expr.eval] at h
    rcases exists_of_bind_error h with hcallee | ⟨g, s₁, hcallee, h⟩
    · exact .part (.callee t args) rfl (callee.raised_of_eval hbodies hcallee)
    rcases exists_of_bind_error h with hargs | ⟨vs, s₂, hargs, h⟩
    · obtain ⟨before, e, after, vs, s₂, rfl, hbefore, he⟩ := raised_of_evalExprs hbodies args hargs
      exact .part (.argument t callee before after) ⟨g, s₁, vs, hcallee, hbefore⟩ he
    · exact raised_of_applyWithin hbodies hcallee hargs h
  | .array t es, _, _, _, h => by
    rw [Expr.eval] at h
    rcases exists_of_bind_error h with hes | ⟨vs, s₁, _, h⟩
    · obtain ⟨before, e, after, vs, s₁, rfl, hbefore, he⟩ := raised_of_evalExprs hbodies es hes
      exact .part (.element t before after) ⟨vs, hbefore⟩ he
    · cases h
  | .index t l i, _, _, _, h => by
    rw [Expr.eval] at h
    rcases exists_of_bind_error h with hl | ⟨v, s₁, hl, h⟩
    · exact .part (.indexed t i) rfl (l.raised_of_eval hbodies hl)
    rcases exists_of_bind_error h with hi | ⟨w, s₂, hi, h⟩
    · exact .part (.index t l) ⟨v, hl⟩ (i.raised_of_eval hbodies hi)
    · obtain ⟨hat, rfl⟩ := ofExcept_fault_iff.mp h
      exact (Raises.index hl hi hat).raised
  | .hash t ps, _, _, _, h => by
    rw [Expr.eval] at h
    rcases exists_of_bind_error h with hps | ⟨table, s₁, _, h⟩
    · exact raised_of_evalPairs hbodies t [] [] rfl ps hps
    · cases h

/-- The first element that does not complete raises the error. -/
theorem raised_of_evalExprs (hbodies : BodiesRaise depth) : (es : List Expr) → {s s' : Scopes} →
    {f : Fault} → evalExprs (applyWithin depth) scope es s = .error (.fault f) s' →
    ∃ before e after vs s₁, es = before ++ e :: after ∧
      evalExprs (applyWithin depth) scope before s = .ok vs s₁ ∧
      Raised ⟨depth, scope, .expr, e⟩ s₁ f s'
  | [], _, _, _, h => nomatch h
  | e :: es, s, _, _, h => by
    rw [evalExprs] at h
    rcases exists_of_bind_error h with he | ⟨v, s₁, he, h⟩
    · exact ⟨[], e, es, [], s, rfl, rfl, e.raised_of_eval hbodies he⟩
    rcases exists_of_bind_error h with hes | ⟨vs, s₂, _, h⟩
    · obtain ⟨before, d, after, vs, s₂, rfl, hbefore, hd⟩ := raised_of_evalExprs hbodies es hes
      refine ⟨e :: before, d, after, v :: vs, s₂, rfl, ?_, hd⟩
      rw [evalExprs, bind_of_ok he, bind_of_ok hbefore]
      rfl
    · cases h

/-- By the pairs that are left, after the pairs `done` made the table. -/
theorem raised_of_evalPairs (hbodies : BodiesRaise depth) (t : Token) {s₀ s : Scopes}
    (done : List (Expr × Expr)) (table : Table HashKey (Value × Value))
    (hdone : evalPairs (applyWithin depth) scope [] done s₀ = .ok table s) :
    (ps : List (Expr × Expr)) → {s' : Scopes} → {f : Fault} →
    evalPairs (applyWithin depth) scope table ps s = .error (.fault f) s' →
    Raised ⟨depth, scope, .expr, Expr.hash t (done ++ ps)⟩ s₀ f s'
  | [], _, _, h => nomatch h
  | (k, v) :: ps, _, _, h => by
    rw [evalPairs] at h
    rcases exists_of_bind_error h with hk | ⟨key, s₁, hk, h⟩
    · exact .part (.key t done v ps) ⟨table, hdone⟩ (k.raised_of_eval hbodies hk)
    cases hkey : key.hashKey? with
    | none =>
      rw [hkey] at h
      cases h
      exact (Raises.key hdone hk hkey).raised
    | some digest =>
      rw [hkey] at h
      rcases exists_of_bind_error h with hv | ⟨value, s₂, hv, h⟩
      · exact .part (.value t done k ps) ⟨table, _, key, hdone, hk, by rw [hkey]; rfl⟩
          (v.raised_of_eval hbodies hv)
      · -- this pair completed, so it joins those before the pair that raises
        have hdone' : evalPairs (applyWithin depth) scope [] (done ++ [(k, v)]) s₀ =
            .ok (table.insert digest (key, value)) s₂ := by
          rw [evalPairs_append, bind_of_ok hdone, evalPairs, bind_of_ok hk, hkey]
          exact bind_of_ok hv
        have hrest := raised_of_evalPairs hbodies t (done ++ [(k, v)]) _ hdone' ps h
        rwa [List.append_assoc, List.singleton_append] at hrest

theorem Stmt.raised_of_eval (hbodies : BodiesRaise depth) : (st : Stmt) → {s s' : Scopes} →
    {f : Fault} → st.eval (applyWithin depth) scope s = .error (.fault f) s' →
    Raised ⟨depth, scope, .stmt, st⟩ s f s'
  | .bind t x e, _, _, _, h => by
    rw [Stmt.eval] at h
    rcases exists_of_bind_error h with he | ⟨v, s₁, _, h⟩
    · exact .part (.bindValue t x) rfl (e.raised_of_eval hbodies he)
    · cases h
  | .ret t e, s, s', f, h => by
    have he : e.eval (applyWithin depth) scope s = .error (.fault f) s' := by
      cases e with
      | absent => cases h
      | _ =>
        rcases exists_of_bind_error h with he | ⟨v, s₁, _, h⟩
        · exact he
        · cases h
    exact .part (.returnValue t) rfl (e.raised_of_eval hbodies he)
  | .expr t e, _, _, _, h => by
    rw [Stmt.eval] at h
    rcases exists_of_bind_error h with he | ⟨v, s₁, _, h⟩
    · exact .part (.statement t) rfl (e.raised_of_eval hbodies he)
    · cases h
  | .block b, _, _, _, h => by
    rw [Stmt.eval] at h
    rcases exists_of_bind_error h with hb | ⟨v, s₁, _, h⟩
    · exact .part .inner rfl (b.raised_of_eval hbodies hb)
    · cases h

theorem raised_of_evalStmts (hbodies : BodiesRaise depth) (last : Option Value) :
    (ss : List Stmt) → {s s' : Scopes} → {f : Fault} →
    evalStmts (applyWithin depth) scope last ss s = .error (.fault f) s' →
    ∃ before st after v s₁, ss = before ++ st :: after ∧
      evalStmts (applyWithin depth) scope last before s = .ok v s₁ ∧
      Raised ⟨depth, scope, .stmt, st⟩ s₁ f s'
  | [], _, _, _, h => nomatch h
  | st :: ss, s, _, _, h => by
    rw [evalStmts] at h
    rcases exists_of_bind_error h with hst | ⟨v, s₁, hst, h⟩
    · exact ⟨[], st, ss, last, s, rfl, rfl, st.raised_of_eval hbodies hst⟩
    · obtain ⟨before, d, after, w, s₂, rfl, hbefore, hd⟩ := raised_of_evalStmts hbodies v ss h
      refine ⟨st :: before, d, after, w, s₂, rfl, ?_, hd⟩
      rw [evalStmts, bind_of_ok hst]
      exact hbefore

theorem Block.raised_of_eval (hbodies : BodiesRaise depth) : (b : Block) → {s s' : Scopes} →
    {f : Fault} → b.eval (applyWithin depth) scope s = .error (.fault f) s' →
    Raised ⟨depth, scope, .block, b⟩ s f s'
  | .mk t ss, _, _, _, h => by
    have hss := Block.eval_error_iff.mp h
    obtain ⟨before, st, after, v, s₁, rfl, hbefore, hst⟩ := raised_of_evalStmts hbodies none ss hss
    exact .part (.nth t before after) ⟨v, hbefore⟩ hst

end

/-- By induction on how deep calls may nest. -/
theorem bodiesRaise (depth : Nat) : BodiesRaise depth := by
  induction depth with
  | zero =>
    intro d hd
    cases hd
  | succ depth ih =>
    intro d hd inner body s s' f h
    cases hd
    exact body.raised_of_eval ih h

/-- An evaluation ends in a runtime error exactly when a step it comes to raises this error. -/
theorem Place.eval_fault_iff {P : Place} : P.eval s = .error (.fault f) s' ↔ P.Raised s f s' := by
  constructor
  · intro h
    obtain ⟨depth, scope, shape, tree⟩ := P
    cases shape with
    | expr => exact Expr.raised_of_eval (bodiesRaise depth) tree h
    | stmt => exact Stmt.raised_of_eval (bodiesRaise depth) tree h
    | block => exact Block.raised_of_eval (bodiesRaise depth) tree h
  · rintro ⟨Q, s₁, hleads, hraises⟩
    exact hleads.eval_fault hraises.eval_fault

end

end Monkey

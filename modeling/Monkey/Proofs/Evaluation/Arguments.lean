import Mathlib
import Monkey.Proofs.Evaluation.Call

/-!
# Missing arguments

A call may have fewer arguments than the function has parameters.  The parameters that are left over
are not bound, and nothing marks them as parameters: in the body such a name is looked up like any
other name that the call does not bind.  So it stands for what it stands for where the function was
made, else for the built-in function of that name.  An error is raised only if there is neither.
-/

namespace Monkey

open Eval

/-! ## 1. The way to a place in a body -/

namespace Scopes

variable {r : Nat} {s t u : Scopes}

/-- Nothing was changed but the bindings of the scope `r`. -/
def OnlyBinds (r : Nat) (s t : Scopes) : Prop := ∃ xs, s.Framed r xs t

theorem OnlyBinds.refl (r : Nat) (s : Scopes) : s.OnlyBinds r s := ⟨[], .refl s⟩

theorem OnlyBinds.trans (hst : s.OnlyBinds r t) (htu : t.OnlyBinds r u) : s.OnlyBinds r u := by
  obtain ⟨xs, hst⟩ := hst
  obtain ⟨ys, htu⟩ := htu
  have hfirst : s.Framed r (xs ++ ys) t := hst.mono (List.subset_append_left xs ys)
  have hsecond : t.Framed r (xs ++ ys) u := htu.mono (List.subset_append_right xs ys)
  exact ⟨xs ++ ys, hfirst.trans hsecond⟩

end Scopes

section

variable {call : Value → List Value → Eval Value} {r : Nat} {s s' : Scopes}

theorem Eval.Framed.onlyBinds {α : Type} {x : Eval α} {xs : List String} {v : α}
    (h : x.Framed r xs) (hx : x s = .ok v s') : s.OnlyBinds r s' := by
  have hframed := h s
  unfold final at hframed
  rw [hx] at hframed
  exact ⟨xs, hframed⟩

/-- What is evaluated before the open part of a node is evaluated in the scope of the node. -/
theorem Frame.Reaches.onlyBinds {a b : Shape} {f : Frame a b} (hcall : CallKeeps call)
    (h : f.Reaches call r s s') : s.OnlyBinds r s' := by
  cases f with
  | right t l op =>
    obtain ⟨v, hl⟩ := h
    exact (l.eval_framed hcall).onlyBinds hl
  | consequence t c no =>
    obtain ⟨v, hc, -⟩ := h
    exact (c.eval_framed hcall).onlyBinds hc
  | alternative t c yes =>
    obtain ⟨v, hc, -⟩ := h
    exact (c.eval_framed hcall).onlyBinds hc
  | argument t f before after =>
    obtain ⟨g, s₁, vs, hf, hbefore⟩ := h
    exact ((f.eval_framed hcall).onlyBinds hf).trans
      ((evalExprs_framed hcall before).onlyBinds hbefore)
  | element t before after =>
    obtain ⟨vs, hbefore⟩ := h
    exact (evalExprs_framed hcall before).onlyBinds hbefore
  | index t l =>
    obtain ⟨v, hl⟩ := h
    exact (l.eval_framed hcall).onlyBinds hl
  | key t before v after =>
    obtain ⟨table, hbefore⟩ := h
    exact (evalPairs_framed hcall [] before).onlyBinds hbefore
  | value t before k after =>
    obtain ⟨table, s₁, key, hbefore, hk, -⟩ := h
    exact ((evalPairs_framed hcall [] before).onlyBinds hbefore).trans
      ((k.eval_framed hcall).onlyBinds hk)
  | nth t before after =>
    obtain ⟨v, hbefore⟩ := h
    exact (evalStmts_framed hcall none before).onlyBinds hbefore
  | _ =>
    -- nothing comes before the open part
    cases h
    exact .refl r s

theorem Context.Reaches.onlyBinds {a b : Shape} {C : Context a b} (hcall : CallKeeps call)
    (h : C.Reaches call r s s') : s.OnlyBinds r s' := by
  induction C generalizing s with
  | hole =>
    cases h
    exact .refl r _
  | within outer inner ih =>
    obtain ⟨s₁, houter, hinner⟩ := h
    exact (houter.onlyBinds hcall).trans (ih hinner)

end

/-! ## 2. Names that a call does not bind -/

/-- The scope itself does not bind the name, whatever the scopes around it do. -/
def Scopes.Unbound (s : Scopes) (id : Nat) (x : String) : Prop :=
  ∀ a, s.row[id]? = some a → a.bindings.get? x = none

section

variable {s s₁ s₂ : Scopes} {outer : Nat} {params : List String} {args : List Value} {x : String}

theorem Table.get?_ofList_zip (hx : x ∉ params.take args.length) :
    (Table.ofList (params.zip args)).get? x = none := by
  apply Table.get?_eq_none_of_not_mem
  rw [Table.keys_ofList, List.mem_eraseDups]
  intro hmem
  obtain ⟨⟨y, v⟩, hzip, rfl⟩ := List.mem_map.mp hmem
  apply hx
  rw [List.zip_eq_zip_take_min] at hzip
  exact List.take_subset_take_left _ (Nat.min_le_right _ _) (List.of_mem_zip hzip).1

/-- A name that the scope of a call does not bind is seen as from the scope of the function. -/
theorem Scopes.get?_of_unbound (hkept : s.Kept s₁)
    (hrow : s₁.row[s.size]? = some ⟨Table.ofList (params.zip args), some outer⟩)
    (honly : s₁.OnlyBinds s.size s₂) (hunbound : s₂.Unbound s.size x) :
    s₂.get? s.size x = s.get? outer x := by
  obtain ⟨xs, hframed⟩ := honly
  obtain ⟨b, hb, hrebinds⟩ := hframed.rebinds _ hrow
  rw [Scopes.get?_eq, hb, Option.bind_some, hunbound b hb, Option.none_or, hrebinds.outer_eq]
  show (if outer < s.size then s₂.get? outer x else none) = _
  by_cases houter : outer < s.size
  · -- the scopes up to that of the function are older than the call
    rw [if_pos houter]
    apply Scopes.get?_congr
    intro i hi
    have hlt : i < s.size := by omega
    rw [hframed.row_eq i (Nat.lt_of_lt_of_le hlt hkept.size_le) (by omega), hkept.row_eq i hlt]
  · rw [if_neg houter, Scopes.get?_eq, Array.getElem?_eq_none (by exact Nat.le_of_not_lt houter)]
    rfl

end

/-! ## 3. Parameters without an argument -/

/-- In a call with fewer arguments than parameters, take a name that is no parameter with an
argument, so that it is not bound when the body begins.  Wherever in the body it is evaluated and
still not bound in the scope of the call, it stands for what it stands for in the scope of the
function, and if it is not bound there, for a built-in function.  That it is not found is reported,
and ends the call, exactly if it is neither; that it is a parameter does not matter. -/
theorem missing_argument_iff (depth : Nat) (s : Scopes) (outer : Nat) (params : List String)
    (args : List Value) (x : String) (hx : x ∉ params.take args.length) :
    (Fault.unbound x).message = "identifier not found: " ++ x ∧
    ∃ s₁, enterCall outer params args s = .ok s.size s₁ ∧ s₁.Unbound s.size x ∧
      ∀ (C : Context .expr .block) (t : Token) (s₂ : Scopes),
        C.Reaches (applyWithin depth) s.size s₁ s₂ → s₂.Unbound s.size x →
        let read := (Expr.ident t x).eval (applyWithin depth) s.size s₂
        let call := applyWithin (depth + 1) (.function params (C.fill (.ident t x)) outer) args s
        (read = .error (.fault (.unbound x)) s₂ ↔
          s.get? outer x = none ∧ Builtin.ofName? x = none) ∧
        (∀ v, s.get? outer x = some v → read = .ok v s₂) ∧
        (∀ b, s.get? outer x = none → Builtin.ofName? x = some b → read = .ok (.builtin b) s₂) ∧
        (read = .error (.fault (.unbound x)) s₂ → call = .error (.fault (.unbound x)) s₂) := by
  obtain ⟨s₁, henter, hkept, hrow⟩ := Scopes.row_enterCall outer params args s
  refine ⟨rfl, s₁, henter, ?_, fun C t s₂ hreach hunbound => ?_⟩
  · intro a ha
    rw [hrow] at ha
    cases ha
    exact Table.get?_ofList_zip hx
  have honly : s₁.OnlyBinds s.size s₂ := hreach.onlyBinds (callKeeps_applyWithin depth)
  have hget : s₂.get? s.size x = s.get? outer x :=
    Scopes.get?_of_unbound hkept hrow honly hunbound
  simp only [Expr.eval]
  refine ⟨?_, ?_, ?_, ?_⟩
  · rw [readName_fault_iff, hget]
    simp
  · intro v hv
    exact readName_of_get? (hget.trans hv)
  · intro b hnone hb
    exact readName_of_builtin (hget.trans hnone) hb
  · intro hread
    rw [applyWithin_function henter]
    exact catchReturn_of_fault id (C.eval_fill trivial hreach hread)

/-- The body `{ b }` with `b` left open. -/
def onlyStatement : Context .expr .block :=
  .within (.nth ⟨.lbrace, "\x7b"⟩ [] []) (.within (.statement ⟨.ident, "b"⟩) .hole)

/-- With `fn(a, b) { b }` and one argument, where nothing else is called `b`. -/
theorem missing_argument_iff_second :
    "b" ∉ ["a", "b"].take [Value.int 1].length ∧
    ∃ s₁, enterCall 0 ["a", "b"] [.int 1] .fresh = .ok 1 s₁ ∧
      applyWithin 1 (.function ["a", "b"] (onlyStatement.fill (.ident ⟨.ident, "b"⟩ "b")) 0)
        [.int 1] .fresh = .error (.fault (.unbound "b")) s₁ := by
  refine ⟨by decide, ?_⟩
  obtain ⟨-, s₁, henter, hunbound, hbody⟩ :=
    missing_argument_iff 0 .fresh 0 ["a", "b"] [.int 1] "b" (by decide)
  obtain ⟨hread, -, -, hcall⟩ :=
    hbody onlyStatement ⟨.ident, "b"⟩ s₁ ⟨_, ⟨none, rfl⟩, _, rfl, rfl⟩ hunbound
  exact ⟨s₁, henter, hcall (hread.mpr ⟨by rw [Scopes.get?_eq]; rfl, by decide⟩)⟩

/-- The second argument is missing, and no error is reported: the value of another `b` is given, and
the built-in function `len` for a parameter of that name. -/
theorem missing_argument_unnoticed :
    (Interpreter.standard.eval "let b = 5; let f = fn(a, b) \x7b b \x7d; f(1)" .fresh).1.result =
      .value (some (.int 5)) ∧
    (Interpreter.standard.eval "fn(a, len) \x7b len \x7d(1)" .fresh).1.result =
      .value (some (.builtin .len)) := by
  constructor
  · cbv
  · cbv

end Monkey

import Mathlib.Data.List.Basic
import Monkey.Proofs.Parsing.Derivation

/-!
# Braces in derivations

The tokens of an expression or a statement have as many opening braces as closing ones.  The only
exception is a block that is not closed: then the text ends, and there are more opening braces.

So a text with as many braces of either kind, whose last token is a semicolon, does not end within
an expression.
-/

namespace Monkey

/-- What a token adds to the number of open braces. -/
def Token.Kind.brace : Token.Kind → Int
  | lbrace => 1
  | rbrace => -1
  | _ => 0

/-- The number of opening braces, less the number of closing ones. -/
def braces (ts : List Token) : Int := (ts.map fun t => t.kind.brace).sum

@[simp] theorem braces_nil : braces [] = 0 := rfl

@[simp] theorem braces_cons (t : Token) (ts : List Token) :
    braces (t :: ts) = t.kind.brace + braces ts := by
  simp only [braces, List.map_cons, List.sum_cons]

theorem braces_eq_count (ts : List Token) :
    braces ts = (ts.map Token.kind).count .lbrace - (ts.map Token.kind).count .rbrace := by
  induction ts with
  | nil => rfl
  | cons t ts ih =>
    rw [braces_cons, ih, List.map_cons, List.count_cons, List.count_cons]
    cases t.kind <;> simp [Token.Kind.brace] <;> omega

/-! ## From the front of the tokens to the rest -/

/-- The tokens before `rest` have as many opening as closing braces; if nothing is left, there may
be more opening ones. -/
structure Spans (ts rest : List Token) : Prop where
  suffix : rest <:+ ts
  le : braces rest ≤ braces ts
  balanced : rest ≠ [] → braces ts = braces rest

/-- Moreover the last token before `rest` is a semicolon only if a brace is open. -/
structure Ends (ts rest : List Token) : Prop extends Spans ts rest where
  last : ∃ c, c :: rest <:+ ts ∧ (c.kind = .semicolon → braces rest < braces ts)

section

variable {ts us rest : List Token} {t b c : Token}

theorem Spans.refl (ts : List Token) : Spans ts ts :=
  ⟨List.suffix_refl ts, Int.le_refl _, fun _ => rfl⟩

theorem Spans.ne_nil (h : Spans ts rest) (hrest : rest ≠ []) : ts ≠ [] := by
  rintro rfl
  exact hrest (List.suffix_nil.mp h.suffix)

theorem Spans.trans (h : Spans ts us) (h' : Spans us rest) : Spans ts rest := by
  refine ⟨h'.suffix.trans h.suffix, Int.le_trans h'.le h.le, fun hrest => ?_⟩
  rw [h.balanced (h'.ne_nil hrest), h'.balanced hrest]

theorem Spans.ends (h : Spans ts us) (h' : Ends us rest) : Ends ts rest := by
  obtain ⟨c, hc, hlast⟩ := h'.last
  have hus : us ≠ [] := by
    rintro rfl
    exact List.cons_ne_nil c rest (List.suffix_nil.mp hc)
  refine ⟨h.trans h'.toSpans, c, hc.trans h.suffix, fun hsemi => ?_⟩
  rw [h.balanced hus]
  exact hlast hsemi

/-- A token that is not a brace, and what stands after it. -/
theorem Spans.cons (h : Spans us rest) (ht : t.kind.brace = 0) : Spans (t :: us) rest := by
  have heq : braces (t :: us) = braces us := by
    rw [braces_cons, ht]
    omega
  exact ⟨h.suffix.trans (List.suffix_cons t us), heq ▸ h.le, heq ▸ h.balanced⟩

theorem Ends.cons (h : Ends us rest) (ht : t.kind.brace = 0) : Ends (t :: us) rest :=
  ((Spans.refl us).cons ht).ends h

/-- What ends with a token that is neither a brace nor a semicolon. -/
theorem Spans.close (h : Spans ts (c :: rest)) (hc : c.kind.brace = 0)
    (hsemi : c.kind ≠ .semicolon) : Ends ts rest :=
  h.ends ⟨(Spans.refl rest).cons hc, c, List.suffix_refl _, fun h => absurd h hsemi⟩

/-- The tokens between braces, with the braces. -/
theorem ends_of_closed (hb : b.kind = .lbrace) (h : Spans ts (c :: rest)) (hc : c.kind = .rbrace) :
    Ends (b :: ts) rest := by
  have hts := h.balanced (List.cons_ne_nil c rest)
  have heq : braces (b :: ts) = braces rest := by
    rw [braces_cons, hts, braces_cons, hb, hc]
    simp only [Token.Kind.brace]
    omega
  have hlast : c :: rest <:+ b :: ts := h.suffix.trans (List.suffix_cons b ts)
  exact ⟨⟨(List.suffix_cons c rest).trans hlast, Int.le_of_eq heq.symm, fun _ => heq⟩, c, hlast,
    fun hsemi => absurd (hc.symm.trans hsemi) (by decide)⟩

/-- The tokens after a brace that is not closed. -/
theorem ends_of_unclosed (hb : b.kind = .lbrace) (h : Spans ts []) : Ends (b :: ts) [] := by
  have hlt : braces [] < braces (b :: ts) := by
    have hle := h.le
    rw [braces_cons, hb]
    simp only [Token.Kind.brace]
    omega
  have hlast : [(b :: ts).getLast (List.cons_ne_nil b ts)] <:+ b :: ts :=
    ⟨_, List.dropLast_concat_getLast _⟩
  exact ⟨⟨List.nil_suffix, Int.le_of_lt hlt, fun hrest => absurd rfl hrest⟩, _, hlast, fun _ => hlt⟩

end

/-! ## Derivations -/

theorem brace_of_mem_operatorsAt {k : Token.Kind} {op : BinaryOp} {n : Nat}
    (h : (k, op) ∈ operatorsAt n) : k.brace = 0 := by
  match n, h with
  | 1, h | 2, h | 3, h | 4, h =>
    simp only [operatorsAt, List.mem_cons, List.not_mem_nil, or_false, Prod.mk.injEq] at h
    obtain ⟨rfl, rfl⟩ | ⟨rfl, rfl⟩ := h <;> rfl

theorem DerivesEnd.spans {ts rest : List Token} (h : DerivesEnd ts rest) : Spans ts rest := by
  cases h with
  | semicolon hc => exact (Spans.refl rest).cons (by rw [hc]; rfl)
  | none => exact Spans.refl ts

/-- The names up to the closing parenthesis. -/
theorem DerivesNames.spans {ts rest : List Token} {xs : List String} (h : DerivesNames ts xs rest) :
    ∃ c, c.kind = .rparen ∧ Spans ts (c :: rest) := by
  induction h with
  | last hx hc => exact ⟨_, hc, (Spans.refl _).cons (by rw [hx]; rfl)⟩
  | more hx hc _ ih =>
    obtain ⟨p, hp, hspans⟩ := ih
    have hcomma := hspans.cons (by rw [hc]; rfl)
    exact ⟨p, hp, hcomma.cons (by rw [hx]; rfl)⟩

theorem DerivesParams.spans {ts rest : List Token} {xs : List String}
    (h : DerivesParams ts xs rest) : ∃ c, c.kind = .rparen ∧ Spans ts (c :: rest) := by
  cases h with
  | none hc => exact ⟨_, hc, Spans.refl _⟩
  | some hxs => exact hxs.spans

mutual

/-- The last token of an expression is a semicolon only if a block in it is not closed. -/
theorem DerivesExpr.ends {n : Nat} {ts rest : List Token} {e : Expr} (h : DerivesExpr n ts e rest) :
    Ends ts rest := by
  match h with
  | .tighter h => exact h.ends
  | .binary ha hop hb => exact ha.ends.toSpans.ends (hb.ends.cons (brace_of_mem_operatorsAt hop))
  | .not ht he => exact he.ends.cons (by rw [ht]; rfl)
  | .neg ht he => exact he.ends.cons (by rw [ht]; rfl)
  | .call hf ht hargs =>
    obtain ⟨c, hc, hspans⟩ := hargs.spans
    have hend := hspans.close (by rw [hc]; rfl) (by rw [hc]; decide)
    exact hf.ends.toSpans.ends (hend.cons (by rw [ht]; rfl))
  | .index hl ht hi hc =>
    have hend := hi.ends.toSpans.close (by rw [hc]; rfl) (by rw [hc]; decide)
    exact hl.ends.toSpans.ends (hend.cons (by rw [ht]; rfl))
  | .primary h => exact h.ends

theorem DerivesPrimary.ends {ts rest : List Token} {e : Expr} (h : DerivesPrimary ts e rest) :
    Ends ts rest := by
  match h with
  | .ident ht | .int ht _ | .str ht | .true ht | .false ht =>
    exact (Spans.refl _).close (by rw [ht]; rfl) (by rw [ht]; decide)
  | .group ht he hc =>
    have hend := he.ends.toSpans.close (by rw [hc]; rfl) (by rw [hc]; decide)
    exact hend.cons (by rw [ht]; rfl)
  | .cond ht ho hc hp hyes =>
    have hend := hc.ends.toSpans.ends (hyes.ends.cons (by rw [hp]; rfl))
    exact (hend.cons (by rw [ho]; rfl)).cons (by rw [ht]; rfl)
  | .condElse ht ho hc hp hyes he hno =>
    have helse := hyes.ends.toSpans.ends (hno.ends.cons (by rw [he]; rfl))
    have hend := hc.ends.toSpans.ends (helse.cons (by rw [hp]; rfl))
    exact (hend.cons (by rw [ho]; rfl)).cons (by rw [ht]; rfl)
  | .func ht ho hparams hbody =>
    obtain ⟨p, hp, hspans⟩ := hparams.spans
    have hend := hspans.ends (hbody.ends.cons (by rw [hp]; rfl))
    exact (hend.cons (by rw [ho]; rfl)).cons (by rw [ht]; rfl)
  | .array ht hes =>
    obtain ⟨c, hc, hspans⟩ := hes.spans
    have hend := hspans.close (by rw [hc]; rfl) (by rw [hc]; decide)
    exact hend.cons (by rw [ht]; rfl)
  | .hash ht hps =>
    obtain ⟨c, hc, hspans⟩ := hps.spans
    exact ends_of_closed ht hspans hc

/-- The elements up to the closing token. -/
theorem DerivesItems.spans {close : Token.Kind} {ts rest : List Token} {es : List Expr}
    (h : DerivesItems close ts es rest) : ∃ c, c.kind = close ∧ Spans ts (c :: rest) := by
  match h with
  | .last he hc => exact ⟨_, hc, he.ends.toSpans⟩
  | .more he hc hes =>
    obtain ⟨c, hclose, hspans⟩ := hes.spans
    exact ⟨c, hclose, he.ends.toSpans.trans (hspans.cons (by rw [hc]; rfl))⟩

theorem DerivesList.spans {close : Token.Kind} {ts rest : List Token} {es : List Expr}
    (h : DerivesList close ts es rest) : ∃ c, c.kind = close ∧ Spans ts (c :: rest) := by
  match h with
  | .none hc => exact ⟨_, hc, Spans.refl _⟩
  | .some hes => exact hes.spans

/-- The pairs up to the closing brace. -/
theorem DerivesPairs.spans {ts rest : List Token} {ps : List (Expr × Expr)}
    (h : DerivesPairs ts ps rest) : ∃ c, c.kind = .rbrace ∧ Spans ts (c :: rest) := by
  match h with
  | .none hc => exact ⟨_, hc, Spans.refl _⟩
  | .last hk hd hv hc =>
    exact ⟨_, hc, hk.ends.toSpans.trans (hv.ends.toSpans.cons (by rw [hd]; rfl))⟩
  | .more hk hd hv hc hps =>
    obtain ⟨c, hclose, hspans⟩ := hps.spans
    have hvalue := hv.ends.toSpans.trans (hspans.cons (by rw [hc]; rfl))
    exact ⟨c, hclose, hk.ends.toSpans.trans (hvalue.cons (by rw [hd]; rfl))⟩

theorem DerivesBlock.ends {ts rest : List Token} {b : Block} (h : DerivesBlock ts b rest) :
    Ends ts rest := by
  match h with
  | .closed hb hss hc => exact ends_of_closed hb hss.spans hc
  | .unclosed hb hss => exact ends_of_unclosed hb hss.spans

theorem DerivesStmt.spans {ts rest : List Token} {s : Stmt} (h : DerivesStmt ts s rest) :
    Spans ts rest := by
  match h with
  | .bind ht hx ha he hend =>
    have hvalue := (he.ends.toSpans.trans hend.spans).cons (by rw [ha]; rfl)
    exact (hvalue.cons (by rw [hx]; rfl)).cons (by rw [ht]; rfl)
  | .ret ht he hend => exact (he.ends.toSpans.trans hend.spans).cons (by rw [ht]; rfl)
  | .retNothing ht hc => exact ((Spans.refl _).cons (by rw [hc]; rfl)).cons (by rw [ht]; rfl)
  | .retLast ht _ => exact (Spans.refl _).cons (by rw [ht]; rfl)
  | .expr he hend => exact he.ends.toSpans.trans hend.spans

theorem DerivesStmts.spans {ts rest : List Token} {ss : List Stmt} (h : DerivesStmts ts ss rest) :
    Spans ts rest := by
  match h with
  | .nil => exact Spans.refl _
  | .cons hs hss => exact hs.spans.trans hss.spans

end

/-! ## Texts of whole statements -/

/-- The last token is a semicolon, and there are as many opening as closing braces. -/
structure Sealed (ts : List Token) : Prop where
  last : ts.getLast?.map Token.kind = some .semicolon
  braces : (ts.map Token.kind).count .lbrace = (ts.map Token.kind).count .rbrace

section

variable {ts rest : List Token}

theorem Sealed.braces_eq_zero (h : Sealed ts) : Monkey.braces ts = 0 := by
  rw [braces_eq_count, h.braces]
  omega

/-- After some of its statements the rest of the text is of whole statements too. -/
theorem Sealed.of_spans (h : Sealed ts) (hspans : Spans ts rest) (hrest : rest ≠ []) :
    Sealed rest := by
  have hbraces : Monkey.braces rest = 0 := by
    rw [← hspans.balanced hrest]
    exact h.braces_eq_zero
  rw [braces_eq_count] at hbraces
  have hlast : ts.getLast? = rest.getLast? := by
    obtain ⟨ws, rfl⟩ := hspans.suffix
    rw [List.getLast?_append_of_ne_nil _ hrest]
  exact ⟨by rw [← hlast]; exact h.last, by omega⟩

/-- The last semicolon is not part of an expression. -/
theorem Sealed.rest_ne_nil (h : Sealed ts) (hends : Ends ts rest) : rest ≠ [] := by
  rintro rfl
  obtain ⟨c, ⟨ws, hws⟩, hlast⟩ := hends.last
  have hsemi : c.kind = .semicolon := by
    have hkind := h.last
    rw [← hws, List.getLast?_concat] at hkind
    exact Option.some.inj hkind
  have hlt := hlast hsemi
  rw [h.braces_eq_zero, braces_nil] at hlt
  exact absurd hlt (Int.lt_irrefl 0)

end

end Monkey

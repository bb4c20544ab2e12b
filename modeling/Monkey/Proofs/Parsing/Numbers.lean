import Monkey.Proofs.Parsing.Derivation

/-!
# Numbers in derivations

A derivation takes its tokens one after the other, and an integer only where its value is below
`2 ^ 63`.  So a larger integer anywhere among the tokens leaves them without a derivation.
-/

namespace Monkey

/-- If the token is an integer, its value is below `2 ^ 63`. -/
def Token.InRange (t : Token) : Prop := t.kind = .int → numeral t.literal < 2 ^ 63

theorem Token.inRange_of_kind {t : Token} {k : Token.Kind} (ht : t.kind = k) (hk : k ≠ .int) :
    t.InRange := fun h => absurd (ht.symm.trans h) hk

/-- The tokens before `rest` are in range. -/
def Takes (ts rest : List Token) : Prop := ∃ used, ts = used ++ rest ∧ ∀ t ∈ used, t.InRange

namespace Takes

variable {t : Token} {ts us rest : List Token}

theorem refl (ts : List Token) : Takes ts ts := ⟨[], rfl, fun _ h => absurd h List.not_mem_nil⟩

theorem trans (h : Takes ts us) (h' : Takes us rest) : Takes ts rest := by
  obtain ⟨used, rfl, hused⟩ := h
  obtain ⟨used', rfl, hused'⟩ := h'
  refine ⟨used ++ used', (List.append_assoc _ _ _).symm, fun t ht => ?_⟩
  exact (List.mem_append.mp ht).elim (hused t) (hused' t)

theorem one (ht : t.InRange) (rest : List Token) : Takes (t :: rest) rest :=
  ⟨[t], rfl, fun _ h => List.mem_singleton.mp h ▸ ht⟩

/-- A token of a kind other than integers, and what stands after it. -/
theorem cons {k : Token.Kind} (ht : t.kind = k) (hk : k ≠ .int) (h : Takes us rest) :
    Takes (t :: us) rest :=
  (one (Token.inRange_of_kind ht hk) us).trans h

/-- What ends with a token of a kind other than integers. -/
theorem close {k : Token.Kind} (h : Takes ts (t :: rest)) (ht : t.kind = k) (hk : k ≠ .int) :
    Takes ts rest :=
  h.trans (one (Token.inRange_of_kind ht hk) rest)

end Takes

theorem ne_int_of_mem_operatorsAt {k : Token.Kind} {op : BinaryOp} {n : Nat}
    (h : (k, op) ∈ operatorsAt n) : k ≠ .int := by
  match n, h with
  | 1, h | 2, h | 3, h | 4, h =>
    simp only [operatorsAt, List.mem_cons, List.not_mem_nil, or_false, Prod.mk.injEq] at h
    obtain ⟨rfl, rfl⟩ | ⟨rfl, rfl⟩ := h <;> decide

theorem DerivesEnd.takes {ts rest : List Token} (h : DerivesEnd ts rest) : Takes ts rest := by
  cases h with
  | semicolon hc => exact (Takes.refl rest).cons hc (by decide)
  | none => exact .refl ts

theorem DerivesNames.takes {ts rest : List Token} {xs : List String}
    (h : DerivesNames ts xs rest) : Takes ts rest := by
  induction h with
  | last hx hc => exact ((Takes.refl _).cons hc (by decide)).cons hx (by decide)
  | more hx hc _ ih => exact (ih.cons hc (by decide)).cons hx (by decide)

theorem DerivesParams.takes {ts rest : List Token} {xs : List String}
    (h : DerivesParams ts xs rest) : Takes ts rest := by
  cases h with
  | none hc => exact (Takes.refl rest).cons hc (by decide)
  | some hxs => exact hxs.takes

mutual

theorem DerivesExpr.takes {n : Nat} {ts rest : List Token} {e : Expr}
    (h : DerivesExpr n ts e rest) : Takes ts rest := by
  match h with
  | .tighter h => exact h.takes
  | .binary ha hop hb => exact ha.takes.trans (hb.takes.cons rfl (ne_int_of_mem_operatorsAt hop))
  | .not ht he | .neg ht he => exact he.takes.cons ht (by decide)
  | .call hf ht hargs => exact hf.takes.trans ((hargs.takes (by decide)).cons ht (by decide))
  | .index hl ht hi hc =>
    exact hl.takes.trans ((hi.takes.close hc (by decide)).cons ht (by decide))
  | .primary h => exact h.takes

theorem DerivesPrimary.takes {ts rest : List Token} {e : Expr} (h : DerivesPrimary ts e rest) :
    Takes ts rest := by
  match h with
  | .int _ hlt => exact .one (fun _ => hlt) rest
  | .ident ht | .str ht | .true ht | .false ht => exact (Takes.refl rest).cons ht (by decide)
  | .group ht he hc => exact (he.takes.close hc (by decide)).cons ht (by decide)
  | .cond ht ho hc hp hyes =>
    have hbody := (hc.takes.close hp (by decide)).trans hyes.takes
    exact (hbody.cons ho (by decide)).cons ht (by decide)
  | .condElse ht ho hc hp hyes he hno =>
    have hbranches := (hyes.takes.close he (by decide)).trans hno.takes
    have hbody := (hc.takes.close hp (by decide)).trans hbranches
    exact (hbody.cons ho (by decide)).cons ht (by decide)
  | .func ht ho hparams hbody =>
    exact ((hparams.takes.trans hbody.takes).cons ho (by decide)).cons ht (by decide)
  | .array ht hes => exact (hes.takes (by decide)).cons ht (by decide)
  | .hash ht hps => exact hps.takes.cons ht (by decide)

theorem DerivesItems.takes {close : Token.Kind} {ts rest : List Token} {es : List Expr}
    (h : DerivesItems close ts es rest) (hclose : close ≠ .int) : Takes ts rest := by
  match h with
  | .last he hc => exact he.takes.close hc hclose
  | .more he hc hes => exact (he.takes.close hc (by decide)).trans (hes.takes hclose)

theorem DerivesList.takes {close : Token.Kind} {ts rest : List Token} {es : List Expr}
    (h : DerivesList close ts es rest) (hclose : close ≠ .int) : Takes ts rest := by
  match h with
  | .none hc => exact (Takes.refl rest).cons hc hclose
  | .some hes => exact hes.takes hclose

theorem DerivesPairs.takes {ts rest : List Token} {ps : List (Expr × Expr)}
    (h : DerivesPairs ts ps rest) : Takes ts rest := by
  match h with
  | .none hc => exact (Takes.refl rest).cons hc (by decide)
  | .last hk hd hv hc =>
    exact (hk.takes.close hd (by decide)).trans (hv.takes.close hc (by decide))
  | .more hk hd hv hc hps =>
    have hvalue := (hv.takes.close hc (by decide)).trans hps.takes
    exact (hk.takes.close hd (by decide)).trans hvalue

theorem DerivesBlock.takes {ts rest : List Token} {b : Block} (h : DerivesBlock ts b rest) :
    Takes ts rest := by
  match h with
  | .closed hb hss hc => exact (hss.takes.close hc (by decide)).cons hb (by decide)
  | .unclosed hb hss => exact hss.takes.cons hb (by decide)

theorem DerivesStmt.takes {ts rest : List Token} {s : Stmt} (h : DerivesStmt ts s rest) :
    Takes ts rest := by
  match h with
  | .bind ht hx ha he hend =>
    have hvalue := (he.takes.trans hend.takes).cons ha (by decide)
    exact (hvalue.cons hx (by decide)).cons ht (by decide)
  | .ret ht he hend => exact (he.takes.trans hend.takes).cons ht (by decide)
  | .retNothing ht hc => exact ((Takes.refl rest).cons hc (by decide)).cons ht (by decide)
  | .retLast ht _ => exact (Takes.refl rest).cons ht (by decide)
  | .expr he hend => exact he.takes.trans hend.takes

theorem DerivesStmts.takes {ts rest : List Token} {ss : List Stmt} (h : DerivesStmts ts ss rest) :
    Takes ts rest := by
  match h with
  | .nil => exact .refl _
  | .cons hs hss => exact hs.takes.trans hss.takes

end

end Monkey

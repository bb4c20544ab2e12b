import Monkey.Proofs.Parsing.Spelling

/-!
# One spelling of every program

`tokens` writes a tree with parentheses around every operator and every indexing, and around nothing
else.  For a well-formed tree it is a spelling, whatever place the tree stands in, and it is made of
tokens that a text can have.
-/

namespace Monkey

/-- The token of a kind that has only one text. -/
def Token.Kind.token (k : Token.Kind) : Token := ⟨k, k.text?.getD ""⟩

/-- Names with commas between them. -/
def nameTokens : List String → List Token
  | [] => []
  | [x] => [⟨.ident, x⟩]
  | x :: y :: xs => ⟨.ident, x⟩ :: Token.Kind.comma.token :: nameTokens (y :: xs)

mutual

/-- The tokens of an expression, with parentheses around every operator and every indexing. -/
def Expr.tokens : Expr → List Token
  | .absent => []
  | .ident t _ | .int t _ | .str t _ | .bool t _ => [t]
  | .unary t _ e => Token.Kind.lparen.token :: t :: (e.tokens ++ [Token.Kind.rparen.token])
  | .binary t l _ r =>
    Token.Kind.lparen.token :: (l.tokens ++ t :: r.tokens ++ [Token.Kind.rparen.token])
  | .cond t c yes none =>
    t :: Token.Kind.lparen.token :: (c.tokens ++ Token.Kind.rparen.token :: yes.tokens)
  | .cond t c yes (some no) =>
    t :: Token.Kind.lparen.token :: (c.tokens ++ Token.Kind.rparen.token ::
      (yes.tokens ++ Token.Kind.elseWord.token :: no.tokens))
  | .func t xs body =>
    t :: Token.Kind.lparen.token :: (nameTokens xs ++ Token.Kind.rparen.token :: body.tokens)
  | .call t f args => f.tokens ++ t :: (exprsTokens args ++ [Token.Kind.rparen.token])
  | .array t es => t :: (exprsTokens es ++ [Token.Kind.rbracket.token])
  | .index t l i =>
    Token.Kind.lparen.token ::
      (l.tokens ++ t :: (i.tokens ++ [Token.Kind.rbracket.token]) ++ [Token.Kind.rparen.token])
  | .hash t ps => t :: (pairsTokens ps ++ [Token.Kind.rbrace.token])

/-- Expressions with commas between them. -/
def exprsTokens : List Expr → List Token
  | [] => []
  | [e] => e.tokens
  | e :: e' :: es => e.tokens ++ Token.Kind.comma.token :: exprsTokens (e' :: es)

/-- Keys and values with commas between them, and none at the end. -/
def pairsTokens : List (Expr × Expr) → List Token
  | [] => []
  | [(k, v)] => k.tokens ++ Token.Kind.colon.token :: v.tokens
  | (k, v) :: q :: ps =>
    k.tokens ++ Token.Kind.colon.token ::
      (v.tokens ++ Token.Kind.comma.token :: pairsTokens (q :: ps))

/-- The tokens of a statement and its semicolon. -/
def Stmt.tokens : Stmt → List Token
  | .bind t x e =>
    t :: ⟨.ident, x⟩ :: Token.Kind.assign.token :: (e.tokens ++ [Token.Kind.semicolon.token])
  | .ret t e => t :: (e.tokens ++ [Token.Kind.semicolon.token])
  | .expr _ e => e.tokens ++ [Token.Kind.semicolon.token]
  | .block b => b.tokens

def stmtsTokens : List Stmt → List Token
  | [] => []
  | s :: ss => s.tokens ++ stmtsTokens ss

def Block.tokens : Block → List Token
  | .mk t ss => t :: (stmtsTokens ss ++ [Token.Kind.rbrace.token])

end

/-! ## It is a spelling -/

theorem spellsNames_nameTokens : (xs : List String) → SpellsNames xs (nameTokens xs)
  | [] => .nil
  | [x] => .one (x := ⟨.ident, x⟩) rfl
  | x :: y :: xs => .more (x := ⟨.ident, x⟩) rfl rfl (spellsNames_nameTokens (y :: xs))

mutual

theorem Expr.WellFormed.spells : {e : Expr} → e.WellFormed → (m : Nat) → Spells m e e.tokens
  | .absent, h, _ => h.elim
  | .ident t x, ⟨ht, hx⟩, _ => by
    subst hx
    exact .ident ht.1
  | .int t n, ⟨ht, hlt, hn⟩, _ => by
    subst hn
    exact .int ht.1 hlt
  | .str t s, ⟨ht, hs⟩, _ => by
    subst hs
    exact .str ht.1
  | .bool t true, ht, _ => .true (And.left ht)
  | .bool t false, ht, _ => .false (And.left ht)
  -- From here on, what could be torn apart in the place `m` stands between parentheses.
  | .unary t .not e, ⟨ht, he⟩, _ =>
    .parens rfl rfl (.not (by decide) ht.1 (he.spells 5))
  | .unary t .neg e, ⟨ht, he⟩, _ =>
    .parens rfl rfl (.neg (by decide) ht.1 (he.spells 5))
  | .unary t (.other _) e, h, _ => h.elim
  | .binary t l op r, ⟨⟨n, hop⟩, _, hl, hr⟩, _ => by
    -- between parentheses every stratum may stand, and there is no operator below the first
    have hn : 1 ≤ n := by
      cases n with
      | zero => simp [operatorsAt] at hop
      | succ n => exact Nat.succ_pos n
    exact .parens rfl rfl (.binary hn hop (hl.spells n) (hr.spells (n + 1)))
  | .cond t c yes none, ⟨ht, hc, hyes⟩, _ => .cond ht.1 rfl (hc.spells 1) rfl hyes.spells
  | .cond t c yes (some no), ⟨ht, hc, hyes, hno⟩, _ =>
    .condElse ht.1 rfl (hc.spells 1) rfl hyes.spells rfl hno.spells
  | .func t xs body, ⟨ht, _, hbody⟩, _ =>
    .func ht.1 rfl (spellsNames_nameTokens xs) rfl hbody.spells
  | .call t f args, ⟨ht, hf, hargs⟩, _ => .call (hf.spells 6) ht.1 hargs.spells rfl
  | .array t es, ⟨ht, hes⟩, _ => .array ht.1 hes.spells rfl
  | .index t l i, ⟨ht, hl, hi⟩, _ =>
    .parens rfl rfl (.index (hl.spells 6) ht.1 (hi.spells 1) rfl)
  | .hash t ps, ⟨ht, hps⟩, _ => .hash ht.1 hps.spells rfl

theorem ExprsWellFormed.spells :
    {es : List Expr} → ExprsWellFormed es → SpellsList es (exprsTokens es)
  | [], _ => .nil
  | [_], ⟨he, _⟩ => .one (he.spells 1)
  | _ :: _ :: _, ⟨he, hes⟩ => .more (he.spells 1) rfl hes.spells

theorem PairsWellFormed.spells :
    {ps : List (Expr × Expr)} → PairsWellFormed ps → SpellsPairs ps (pairsTokens ps)
  | [], _ => .nil
  | [(_, _)], ⟨hk, hv, _⟩ => .one (hk.spells 1) rfl (hv.spells 1)
  | (_, _) :: _ :: _, ⟨hk, hv, hps⟩ => .more (hk.spells 1) rfl (hv.spells 1) rfl hps.spells

theorem Stmt.WellFormed.spells : {s : Stmt} → s.WellFormed → SpellsStmt s s.tokens
  | .bind t x e, ⟨ht, _, he⟩ => .bind (x := ⟨.ident, x⟩) ht.1 rfl rfl (he.spells 1) rfl
  | .ret t e, ⟨ht, he⟩ => by
    rcases he with rfl | he
    · exact .retNothing ht.1 rfl
    · exact .ret ht.1 (he.spells 1) rfl
  | .expr t e, he => .expr (Expr.WellFormed.spells he 1) rfl
  | .block b, h => h.elim

theorem StmtsWellFormed.spells :
    {ss : List Stmt} → StmtsWellFormed ss → SpellsStmts ss (stmtsTokens ss)
  | [], _ => .nil
  | _ :: _, ⟨hs, hss⟩ => .cons hs.spells hss.spells

theorem Block.WellFormed.spells : {b : Block} → b.WellFormed → SpellsBlock b b.tokens
  | .mk _ _, ⟨ht, hss⟩ => .mk ht.1 hss.spells rfl

end

/-! ## It can be written -/

theorem isLexeme_nameTokens : {xs : List String} → (∀ x ∈ xs, Token.IsName x) →
    ∀ t ∈ nameTokens xs, t.IsLexeme
  | [], _ => by simp [nameTokens]
  | [x], h => by
    rw [List.forall_mem_singleton] at h
    rw [nameTokens, List.forall_mem_singleton]
    exact h
  | x :: y :: xs, h => by
    obtain ⟨hx, hxs⟩ := List.forall_mem_cons.mp h
    rw [nameTokens, List.forall_mem_cons, List.forall_mem_cons]
    exact ⟨hx, rfl, isLexeme_nameTokens hxs⟩

mutual

theorem Expr.WellFormed.isLexeme : {e : Expr} → e.WellFormed → ∀ t ∈ e.tokens, t.IsLexeme
  | .absent, h => h.elim
  | .ident _ _, ⟨ht, _⟩ | .int _ _, ⟨ht, _⟩ | .str _ _, ⟨ht, _⟩ =>
    List.forall_mem_singleton.mpr ht.2
  | .bool _ true, ht | .bool _ false, ht => List.forall_mem_singleton.mpr (And.right ht)
  | .unary _ .not _, ⟨ht, he⟩ | .unary _ .neg _, ⟨ht, he⟩ => by
    simp only [Expr.tokens, List.forall_mem_cons, List.forall_mem_append]
    exact ⟨rfl, ht.2, he.isLexeme, rfl, by simp⟩
  | .unary _ (.other _) _, h => h.elim
  | .binary _ _ _ _, ⟨_, ht, hl, hr⟩ => by
    simp only [Expr.tokens, List.forall_mem_cons, List.forall_mem_append]
    exact ⟨rfl, ⟨hl.isLexeme, ht, hr.isLexeme⟩, rfl, by simp⟩
  | .cond _ _ _ none, ⟨ht, hc, hyes⟩ => by
    simp only [Expr.tokens, List.forall_mem_cons, List.forall_mem_append]
    exact ⟨ht.2, rfl, hc.isLexeme, rfl, hyes.isLexeme⟩
  | .cond _ _ _ (some _), ⟨ht, hc, hyes, hno⟩ => by
    simp only [Expr.tokens, List.forall_mem_cons, List.forall_mem_append]
    exact ⟨ht.2, rfl, hc.isLexeme, rfl, hyes.isLexeme, rfl, hno.isLexeme⟩
  | .func _ _ _, ⟨ht, hxs, hbody⟩ => by
    simp only [Expr.tokens, List.forall_mem_cons, List.forall_mem_append]
    exact ⟨ht.2, rfl, isLexeme_nameTokens hxs, rfl, hbody.isLexeme⟩
  | .call _ _ _, ⟨ht, hf, hargs⟩ => by
    simp only [Expr.tokens, List.forall_mem_cons, List.forall_mem_append]
    exact ⟨hf.isLexeme, ht.2, hargs.isLexeme, rfl, by simp⟩
  | .array _ _, ⟨ht, hes⟩ => by
    simp only [Expr.tokens, List.forall_mem_cons, List.forall_mem_append]
    exact ⟨ht.2, hes.isLexeme, rfl, by simp⟩
  | .index _ _ _, ⟨ht, hl, hi⟩ => by
    simp only [Expr.tokens, List.forall_mem_cons, List.forall_mem_append]
    exact ⟨rfl, ⟨hl.isLexeme, ht.2, hi.isLexeme, rfl, by simp⟩, rfl, by simp⟩
  | .hash _ _, ⟨ht, hps⟩ => by
    simp only [Expr.tokens, List.forall_mem_cons, List.forall_mem_append]
    exact ⟨ht.2, hps.isLexeme, rfl, by simp⟩

theorem ExprsWellFormed.isLexeme :
    {es : List Expr} → ExprsWellFormed es → ∀ t ∈ exprsTokens es, t.IsLexeme
  | [], _ => by simp [exprsTokens]
  | [_], ⟨he, _⟩ => he.isLexeme
  | _ :: _ :: _, ⟨he, hes⟩ => by
    simp only [exprsTokens, List.forall_mem_cons, List.forall_mem_append]
    exact ⟨he.isLexeme, rfl, hes.isLexeme⟩

theorem PairsWellFormed.isLexeme :
    {ps : List (Expr × Expr)} → PairsWellFormed ps → ∀ t ∈ pairsTokens ps, t.IsLexeme
  | [], _ => by simp [pairsTokens]
  | [(_, _)], ⟨hk, hv, _⟩ => by
    simp only [pairsTokens, List.forall_mem_cons, List.forall_mem_append]
    exact ⟨hk.isLexeme, rfl, hv.isLexeme⟩
  | (_, _) :: _ :: _, ⟨hk, hv, hps⟩ => by
    simp only [pairsTokens, List.forall_mem_cons, List.forall_mem_append]
    exact ⟨hk.isLexeme, rfl, hv.isLexeme, rfl, hps.isLexeme⟩

theorem Stmt.WellFormed.isLexeme : {s : Stmt} → s.WellFormed → ∀ t ∈ s.tokens, t.IsLexeme
  | .bind _ _ _, ⟨ht, hx, he⟩ => by
    simp only [Stmt.tokens, List.forall_mem_cons, List.forall_mem_append]
    exact ⟨ht.2, hx, rfl, he.isLexeme, rfl, by simp⟩
  | .ret _ e, ⟨ht, he⟩ => by
    have hvalue : ∀ t ∈ e.tokens, t.IsLexeme := by
      rcases he with rfl | he
      · simp [Expr.tokens]
      · exact he.isLexeme
    simp only [Stmt.tokens, List.forall_mem_cons, List.forall_mem_append]
    exact ⟨ht.2, hvalue, rfl, by simp⟩
  | .expr _ _, he => by
    simp only [Stmt.tokens, List.forall_mem_cons, List.forall_mem_append]
    exact ⟨Expr.WellFormed.isLexeme he, rfl, by simp⟩
  | .block _, h => h.elim

theorem StmtsWellFormed.isLexeme :
    {ss : List Stmt} → StmtsWellFormed ss → ∀ t ∈ stmtsTokens ss, t.IsLexeme
  | [], _ => by simp [stmtsTokens]
  | _ :: _, ⟨hs, hss⟩ => List.forall_mem_append.mpr ⟨hs.isLexeme, hss.isLexeme⟩

theorem Block.WellFormed.isLexeme : {b : Block} → b.WellFormed → ∀ t ∈ b.tokens, t.IsLexeme
  | .mk _ _, ⟨ht, hss⟩ => by
    simp only [Block.tokens, List.forall_mem_cons, List.forall_mem_append]
    exact ⟨ht.2, hss.isLexeme, rfl, by simp⟩

end

/-- Every well-formed program has a spelling that is the tokens of some text. -/
theorem Program.WellFormed.exists_source {p : Program} (h : p.WellFormed) :
    ∃ source : String, p.Spelled (Token.scan source.toList) := by
  refine ⟨String.ofList ((stmtsTokens p.statements).flatMap fun t => t.spelling ++ [' ']), ?_⟩
  rw [String.toList_ofList, Token.scan_spaced (StmtsWellFormed.isLexeme h)]
  exact StmtsWellFormed.spells h

end Monkey

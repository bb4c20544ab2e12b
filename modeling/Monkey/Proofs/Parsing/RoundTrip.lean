import Monkey.Proofs.Evaluation.Statements
import Monkey.Proofs.Parsing.Completeness
import Monkey.Proofs.Parsing.WellFormed

/-!
# Reading back what was written

A program without `if` and `fn` whose statements, except the last, end with a semicolon when they
are written, is read back from its text: the same nodes with the same tokens, without an error.

The text is scanned piece by piece.  `Scans cs ts` says that the characters `cs` are the tokens `ts`
wherever no letter and no digit follows, and the text of an expression is shown to scan as its
spelling with parentheses around every operator.
-/

namespace Monkey

/-! ## Programs that can be read back -/

mutual

/-- Neither `if` nor `fn` occurs. -/
def Expr.plain : Expr → Bool
  | .absent | .ident _ _ | .int _ _ | .str _ _ | .bool _ _ => true
  | .unary _ _ e => e.plain
  | .binary _ l _ r => l.plain && r.plain
  | .cond _ _ _ _ | .func _ _ _ => false
  | .call _ f args => f.plain && plainExprs args
  | .array _ es => plainExprs es
  | .index _ l i => l.plain && i.plain
  | .hash _ ps => plainPairs ps

def plainExprs : List Expr → Bool
  | [] => true
  | e :: es => e.plain && plainExprs es

def plainPairs : List (Expr × Expr) → Bool
  | [] => true
  | (k, v) :: ps => k.plain && v.plain && plainPairs ps

end

mutual

def Stmt.plain : Stmt → Bool
  | .bind _ _ e | .ret _ e | .expr _ e => e.plain
  | .block b => b.plain

def plainStmts : List Stmt → Bool
  | [] => true
  | s :: ss => s.plain && plainStmts ss

def Block.plain : Block → Bool
  | .mk _ ss => plainStmts ss

end

def Program.plain (p : Program) : Bool := plainStmts p.statements

/-- The statement is written with a semicolon at its end. -/
def Stmt.closed : Stmt → Bool
  | .bind _ _ _ | .ret _ _ => true
  | .expr _ _ | .block _ => false

/-! ## Scanning what was written -/

/-- No word and no number goes on here. -/
def Apart (cs : List Char) : Prop := ∀ c ∈ cs.head?, Token.isLetter c = false ∧ c.isDigit = false

/-- The characters are the tokens, unless a word or a number goes on after them. -/
def Scans (cs : List Char) (ts : List Token) : Prop :=
  ∀ rest, Apart rest → Token.scan (cs ++ rest) = ts ++ Token.scan rest

theorem apart_cons {c : Char} (rest : List Char) (hl : Token.isLetter c = false)
    (hd : c.isDigit = false) : Apart (c :: rest) := by
  intro d hd'
  simp only [List.head?_cons, Option.mem_some_iff] at hd'
  subst hd'
  exact ⟨hl, hd⟩

/-- A token of a kind that has only one text is the token of that kind. -/
theorem Token.Is.eq_token {t : Token} {k : Token.Kind} {s : String} (h : t.Is k)
    (hk : k.text? = some s) : t = k.token := by
  obtain ⟨rfl, ht⟩ := h
  rw [Token.Kind.token, hk]
  exact ht.eq hk

theorem Apart.endsBefore {t : Token} {rest : List Char} (h : Apart rest)
    (hassign : t.kind ≠ .assign) (hbang : t.kind ≠ .bang) : t.EndsBefore rest := by
  unfold Token.EndsBefore
  split
  · exact fun c hc => (h c hc).2
  · exact absurd ‹_› hassign
  · exact absurd ‹_› hbang
  all_goals first | exact fun c hc => (h c hc).1 | trivial

theorem scans_spelling {t : Token} (ht : t.IsLexeme) (hassign : t.kind ≠ .assign)
    (hbang : t.kind ≠ .bang) : Scans t.spelling [t] :=
  fun _ hrest => Token.scan_spelling ht (hrest.endsBefore hassign hbang)

/-- A symbol that is no part of a longer one is a token, whatever follows. -/
theorem scan_symbol {c : Char} {k : Token.Kind} (hc : Token.Kind.ofSymbol? c = some k)
    (hassign : c ≠ '=') (hbang : c ≠ '!') (rest : List Char) :
    Token.scan (c :: rest) = k.token :: Token.scan rest := by
  have hlexeme : k.token.IsLexeme ∧ k.token.spelling = [c] ∧ k.token.EndsBefore rest := by
    unfold Token.Kind.ofSymbol? at hc
    split at hc <;> first | contradiction | (cases hc; exact ⟨rfl, rfl, trivial⟩)
  obtain ⟨hk, hspelling, hends⟩ := hlexeme
  have h := Token.scan_spelling hk hends
  rw [hspelling] at h
  exact h

/-- An operator between two operands is written between blanks. -/
theorem scan_operator {t : Token} {op : BinaryOp} {n : Nat} (hop : (t.kind, op) ∈ operatorsAt n)
    (ht : t.IsLexeme) (rest : List Char) :
    Token.scan (' ' :: (op.spelling.toList ++ ' ' :: rest)) = t :: Token.scan rest := by
  have hspelling : t.spelling = op.spelling.toList ∧ t.EndsBefore (' ' :: rest) := by
    obtain ⟨k, s⟩ := t
    match n, hop with
    | 1, h | 2, h | 3, h | 4, h =>
      simp only [operatorsAt, List.mem_cons, List.not_mem_nil, or_false, Prod.mk.injEq] at h
      obtain ⟨rfl, rfl⟩ | ⟨rfl, rfl⟩ := h <;> (cases ht; exact ⟨rfl, trivial⟩)
  rw [Token.scan_blank (by decide), ← hspelling.1, Token.scan_spelling ht hspelling.2,
    Token.scan_blank (by decide)]

/-- The sign of equality begins one of two tokens. -/
theorem exists_scan_equals (cs : List Char) :
    ∃ t us, Token.scan ('=' :: cs) = t :: us ∧ (t.kind = .equal ∨ t.kind = .assign) := by
  have hblank : ('=' :: cs).dropWhile Token.isBlank = '=' :: cs := rfl
  rw [Token.scan_eq, hblank]
  by_cases h : cs.head? = some '='
  · exact ⟨⟨.equal, "=="⟩, Token.scan cs.tail, by simp [Token.next?, Token.isLetter, h], .inl rfl⟩
  · exact ⟨⟨.assign, "="⟩, Token.scan cs,
      by simp [Token.next?, Token.isLetter, Token.Kind.ofSymbol?, h], .inr rfl⟩

/-- What begins like an expression does not begin with the sign of equality. -/
theorem Scans.head?_ne {cs rest : List Char} {t : Token} {us : List Token}
    (h : Scans cs (t :: us)) (ht : t.kind.startsExpr) (hrest : Apart rest) :
    (cs ++ rest).head? ≠ some '=' := by
  intro hhead
  obtain ⟨ds, hds⟩ := List.head?_eq_some_iff.mp hhead
  obtain ⟨t', us', hscan, hkind⟩ := exists_scan_equals ds
  rw [← hds, h rest hrest, List.cons_append, List.cons.injEq] at hscan
  rw [hscan.1] at ht
  rcases hkind with hk | hk <;> rw [hk] at ht <;> contradiction

/-- An operator before its operand is written right before it. -/
theorem Scans.unary {t : Token} {e : Expr} {spelling : String} (ht : t.IsLexeme)
    (hspelling : t.spelling = spelling.toList)
    (hends : ∀ cs : List Char, cs.head? ≠ some '=' → t.EndsBefore cs) (he : e.WellFormed)
    (h : Scans e.render.toList e.tokens) :
    Scans ("(" ++ spelling ++ e.render ++ ")").toList
      (Token.Kind.lparen.token :: t :: (e.tokens ++ [Token.Kind.rparen.token])) := by
  intro rest _
  have hrest : Apart (')' :: rest) := apart_cons rest rfl rfl
  -- `!` before an equality sign would be another token, but no expression begins with one
  obtain ⟨u, us, hus, hu⟩ := (he.spells 1).exists_cons
  have hhead : (e.render.toList ++ ')' :: rest).head? ≠ some '=' :=
    Scans.head?_ne (by rw [← hus]; exact h) hu hrest
  have hcs : ("(" ++ spelling ++ e.render ++ ")").toList ++ rest =
      '(' :: (t.spelling ++ (e.render.toList ++ ')' :: rest)) := by
    simp [hspelling]
  rw [hcs, scan_symbol (k := .lparen) rfl (by decide) (by decide),
    Token.scan_spelling ht (hends _ hhead), h _ hrest,
    scan_symbol (k := .rparen) rfl (by decide) (by decide)]
  simp

mutual

/-- The text of an expression is scanned as its spelling. -/
theorem Expr.WellFormed.scans :
    {e : Expr} → e.WellFormed → e.plain → Scans e.render.toList e.tokens
  | .absent, h, _ => h.elim
  | .ident t x, ⟨ht, hx⟩, _ => by
    subst hx
    have h := scans_spelling ht.2 (by simp [ht.1]) (by simp [ht.1])
    rw [Token.spelling, if_neg (by simp [ht.1])] at h
    exact h
  | .int t n, ⟨ht, _⟩, _ => by
    have h := scans_spelling ht.2 (by simp [ht.1]) (by simp [ht.1])
    rw [Token.spelling, if_neg (by simp [ht.1])] at h
    exact h
  | .str t s, ⟨ht, hs⟩, _ => by
    subst hs
    have h := scans_spelling ht.2 (by simp [ht.1]) (by simp [ht.1])
    rw [Token.spelling, if_pos ht.1] at h
    simpa [Expr.render, Expr.tokens] using h
  | .bool t true, ht, _ | .bool t false, ht, _ => by
    have hk := And.left ht
    have h := scans_spelling (And.right ht) (by simp [hk]) (by simp [hk])
    rw [Token.spelling, if_neg (by simp [hk])] at h
    exact h
  | .unary t .not e, ⟨ht, he⟩, hp => by
    obtain rfl := ht.eq_token rfl
    exact .unary rfl rfl (fun _ h => h) he (he.scans hp)
  | .unary t .neg e, ⟨ht, he⟩, hp => by
    obtain rfl := ht.eq_token rfl
    exact .unary rfl rfl (fun _ _ => trivial) he (he.scans hp)
  | .unary _ (.other _) _, h, _ => h.elim
  -- From here on the text is cut into pieces, which are scanned from left to right; after each
  -- piece stands a blank or a symbol, so no word and no number goes on.
  | .binary t l op r, ⟨⟨n, hop⟩, ht, hl, hr⟩, hp => by
    rw [Expr.plain, Bool.and_eq_true] at hp
    intro rest _
    have hcs : (Expr.binary t l op r).render.toList ++ rest =
        '(' :: (l.render.toList ++ ' ' :: (op.spelling.toList ++ ' ' ::
          (r.render.toList ++ ')' :: rest))) := by
      simp [Expr.render]
    rw [hcs, scan_symbol (k := .lparen) rfl (by decide) (by decide),
      hl.scans hp.1 _ (apart_cons _ rfl rfl), scan_operator hop ht,
      hr.scans hp.2 _ (apart_cons _ rfl rfl),
      scan_symbol (k := .rparen) rfl (by decide) (by decide)]
    simp [Expr.tokens]
  | .call t f args, ⟨ht, hf, hargs⟩, hp => by
    rw [Expr.plain, Bool.and_eq_true] at hp
    obtain rfl := ht.eq_token rfl
    intro rest _
    have hcs : (Expr.call Token.Kind.lparen.token f args).render.toList ++ rest =
        f.render.toList ++
          '(' :: ((", ".intercalate (renderExprs args)).toList ++ ')' :: rest) := by
      simp [Expr.render]
    rw [hcs, hf.scans hp.1 _ (apart_cons _ rfl rfl),
      scan_symbol (k := .lparen) rfl (by decide) (by decide),
      hargs.scans hp.2 _ (apart_cons _ rfl rfl),
      scan_symbol (k := .rparen) rfl (by decide) (by decide)]
    simp [Expr.tokens]
  | .array t es, ⟨ht, hes⟩, hp => by
    obtain rfl := ht.eq_token rfl
    intro rest _
    have hcs : (Expr.array Token.Kind.lbracket.token es).render.toList ++ rest =
        '[' :: ((", ".intercalate (renderExprs es)).toList ++ ']' :: rest) := by
      simp [Expr.render]
    rw [hcs, scan_symbol (k := .lbracket) rfl (by decide) (by decide),
      hes.scans hp _ (apart_cons _ rfl rfl),
      scan_symbol (k := .rbracket) rfl (by decide) (by decide)]
    simp [Expr.tokens]
  | .index t l i, ⟨ht, hl, hi⟩, hp => by
    rw [Expr.plain, Bool.and_eq_true] at hp
    obtain rfl := ht.eq_token rfl
    intro rest _
    have hcs : (Expr.index Token.Kind.lbracket.token l i).render.toList ++ rest =
        '(' :: (l.render.toList ++ '[' :: (i.render.toList ++ ']' :: ')' :: rest)) := by
      simp [Expr.render]
    rw [hcs, scan_symbol (k := .lparen) rfl (by decide) (by decide),
      hl.scans hp.1 _ (apart_cons _ rfl rfl),
      scan_symbol (k := .lbracket) rfl (by decide) (by decide),
      hi.scans hp.2 _ (apart_cons _ rfl rfl),
      scan_symbol (k := .rbracket) rfl (by decide) (by decide),
      scan_symbol (k := .rparen) rfl (by decide) (by decide)]
    simp [Expr.tokens]
  | .hash t ps, ⟨ht, hps⟩, hp => by
    obtain rfl := ht.eq_token rfl
    intro rest _
    have hcs : (Expr.hash Token.Kind.lbrace.token ps).render.toList ++ rest =
        '\x7b' :: ((", ".intercalate (renderPairs ps)).toList ++ '\x7d' :: rest) := by
      simp [Expr.render]
    rw [hcs, scan_symbol (k := .lbrace) rfl (by decide) (by decide),
      hps.scans hp _ (apart_cons _ rfl rfl),
      scan_symbol (k := .rbrace) rfl (by decide) (by decide)]
    simp [Expr.tokens]

theorem ExprsWellFormed.scans : {es : List Expr} → ExprsWellFormed es → plainExprs es →
    Scans (", ".intercalate (renderExprs es)).toList (exprsTokens es)
  | [], _, _ => fun _ _ => rfl
  | [e], ⟨he, _⟩, hp => by
    rw [plainExprs, Bool.and_eq_true] at hp
    rw [renderExprs, renderExprs, String.intercalate_singleton]
    exact he.scans hp.1
  | e :: e' :: es, ⟨he, hes⟩, hp => by
    rw [plainExprs, Bool.and_eq_true] at hp
    intro rest hrest
    have hcs : (", ".intercalate (renderExprs (e :: e' :: es))).toList ++ rest =
        e.render.toList ++ ',' :: ' ' ::
          ((", ".intercalate (renderExprs (e' :: es))).toList ++ rest) := by
      rw [renderExprs, renderExprs, String.intercalate_cons_cons, ← renderExprs]
      simp
    rw [hcs, he.scans hp.1 _ (apart_cons _ rfl rfl),
      scan_symbol (k := .comma) rfl (by decide) (by decide), Token.scan_blank (by decide),
      hes.scans hp.2 _ hrest]
    simp [exprsTokens]

theorem PairsWellFormed.scans : {ps : List (Expr × Expr)} → PairsWellFormed ps → plainPairs ps →
    Scans (", ".intercalate (renderPairs ps)).toList (pairsTokens ps)
  | [], _, _ => fun _ _ => rfl
  | [(k, v)], ⟨hk, hv, _⟩, hp => by
    rw [plainPairs, Bool.and_eq_true, Bool.and_eq_true] at hp
    intro rest hrest
    have hcs : (", ".intercalate (renderPairs [(k, v)])).toList ++ rest =
        k.render.toList ++ ':' :: (v.render.toList ++ rest) := by
      rw [renderPairs, renderPairs, String.intercalate_singleton]
      simp
    rw [hcs, hk.scans hp.1.1 _ (apart_cons _ rfl rfl),
      scan_symbol (k := .colon) rfl (by decide) (by decide), hv.scans hp.1.2 _ hrest]
    simp [pairsTokens]
  | (k, v) :: q :: ps, ⟨hk, hv, hps⟩, hp => by
    rw [plainPairs, Bool.and_eq_true, Bool.and_eq_true] at hp
    intro rest hrest
    have hcs : (", ".intercalate (renderPairs ((k, v) :: q :: ps))).toList ++ rest =
        k.render.toList ++ ':' :: (v.render.toList ++ ',' :: ' ' ::
          ((", ".intercalate (renderPairs (q :: ps))).toList ++ rest)) := by
      obtain ⟨k', v'⟩ := q
      rw [renderPairs, renderPairs, String.intercalate_cons_cons, ← renderPairs]
      simp
    rw [hcs, hk.scans hp.1.1 _ (apart_cons _ rfl rfl),
      scan_symbol (k := .colon) rfl (by decide) (by decide),
      hv.scans hp.1.2 _ (apart_cons _ rfl rfl),
      scan_symbol (k := .comma) rfl (by decide) (by decide), Token.scan_blank (by decide),
      hps.scans hp.2 _ hrest]
    simp [pairsTokens]

end

theorem Stmt.render_ret {t : Token} {e : Expr} (he : e.WellFormed) :
    (Stmt.ret t e).render = t.literal ++ " " ++ e.render ++ ";" := by
  cases e with
  | absent => exact he.elim
  | _ => rfl

theorem scan_assign (rest : List Char) :
    Token.scan ('=' :: ' ' :: rest) = Token.Kind.assign.token :: Token.scan rest := by
  have hends : Token.Kind.assign.token.EndsBefore (' ' :: rest) := by
    simp [Token.EndsBefore, Token.Kind.token]
  have h := Token.scan_spelling (t := Token.Kind.assign.token) rfl hends
  rw [Token.scan_blank (by decide)] at h
  exact h

/-- A statement that ends with its semicolon is scanned by itself. -/
theorem Stmt.WellFormed.scan_render {s : Stmt} (hs : s.WellFormed) (hp : s.plain)
    (hc : s.closed) (rest : List Char) :
    Token.scan (s.render.toList ++ rest) = s.tokens ++ Token.scan rest := by
  match s, hs, hp, hc with
  | .bind t x e, ⟨ht, hx, he⟩, hp, _ =>
    obtain rfl := ht.eq_token rfl
    have hcs : (Stmt.bind Token.Kind.letWord.token x e).render.toList ++ rest =
        Token.Kind.letWord.token.spelling ++ ' ' :: (x.toList ++ ' ' :: '=' :: ' ' ::
          (e.render.toList ++ ';' :: rest)) := by
      simp [Stmt.render, Token.spelling, Token.Kind.token, Token.Kind.text?]
    have hlet := scans_spelling (t := Token.Kind.letWord.token) rfl (by decide) (by decide)
    have hname := scans_spelling (t := ⟨.ident, x⟩) hx (by simp) (by simp)
    rw [hcs, hlet _ (apart_cons _ rfl rfl), Token.scan_blank (by decide),
      show x.toList = Token.spelling ⟨.ident, x⟩ from rfl, hname _ (apart_cons _ rfl rfl),
      Token.scan_blank (by decide), scan_assign, he.scans hp _ (apart_cons _ rfl rfl),
      scan_symbol (k := .semicolon) rfl (by decide) (by decide)]
    simp [Stmt.tokens]
  | .ret t e, ⟨ht, he⟩, hp, _ =>
    obtain rfl := ht.eq_token rfl
    have hreturn := scans_spelling (t := Token.Kind.returnWord.token) rfl (by decide) (by decide)
    rcases he with rfl | he
    · have hcs : (Stmt.ret Token.Kind.returnWord.token .absent).render.toList ++ rest =
          Token.Kind.returnWord.token.spelling ++ ';' :: rest := by
        simp [Stmt.render, Token.spelling, Token.Kind.token, Token.Kind.text?]
      rw [hcs, hreturn _ (apart_cons _ rfl rfl),
        scan_symbol (k := .semicolon) rfl (by decide) (by decide)]
      rfl
    · have hcs : (Stmt.ret Token.Kind.returnWord.token e).render.toList ++ rest =
          Token.Kind.returnWord.token.spelling ++ ' ' :: (e.render.toList ++ ';' :: rest) := by
        rw [Stmt.render_ret he]
        simp [Token.spelling, Token.Kind.token, Token.Kind.text?]
      rw [hcs, hreturn _ (apart_cons _ rfl rfl), Token.scan_blank (by decide),
        he.scans hp _ (apart_cons _ rfl rfl),
        scan_symbol (k := .semicolon) rfl (by decide) (by decide)]
      simp [Stmt.tokens]

/-! ## Reading back -/

section

open Parsed Grammar

variable {tracing : Bool}

theorem reads_statements_nil : (statements tracing []).Reads [] [] := by
  rw [statements.eq_def]
  exact reads_done.mpr ⟨rfl, rfl⟩

/-- An expression at the end of the text needs no semicolon. -/
theorem Spells.reads_statements {e : Expr} {ts : List Token} (h : Spells 1 e ts) :
    ∃ u e', e'.unmarked = e.unmarked ∧ (statements tracing ts).Reads [.expr u e'] [] := by
  obtain ⟨e', heq, hread⟩ : ∃ e', e'.unmarked = e.unmarked ∧ ReadAs tracing 1 ts e' := h.readAs
  obtain ⟨u, us, hus, hu⟩ := h.exists_cons
  have hend : Follows 1 [] := ⟨fun _ => Nat.zero_le 1, by decide⟩
  have h : (expression tracing .lowest (ts ++ [])).Reads (some e') [] :=
    hread.reads (Nat.zero_le 5) (.inl Nat.zero_lt_one) hend (Nat.le_refl 0)
  rw [List.append_nil, hus] at h
  refine ⟨u, e', heq, ?_⟩
  rw [hus]
  exact reads_statements_cons (reads_statement_expr hu h) reads_statements_nil

theorem reads_statements_last {t : Token} {e : Expr} (he : e.WellFormed) :
    ∃ ss', unmarkedStmts ss' = unmarkedStmts [.expr t e] ∧
      (statements tracing e.tokens).Reads ss' [] := by
  obtain ⟨u, e', heq, hread⟩ := (he.spells 1).reads_statements
  exact ⟨[.expr u e'], by simp only [unmarkedStmts, Stmt.unmarked, heq], hread⟩

/-- A statement before others is read back, and then the others are. -/
theorem reads_renderStmts_cons {s : Stmt} {ss : List Stmt} (hs : s.WellFormed) (hp : s.plain)
    (hc : s.closed) (hss : ∃ ss', unmarkedStmts ss' = unmarkedStmts ss ∧
      (statements tracing (Token.scan (String.join (renderStmts ss)).toList)).Reads ss' []) :
    ∃ ss', unmarkedStmts ss' = unmarkedStmts (s :: ss) ∧
      (statements tracing (Token.scan (String.join (renderStmts (s :: ss))).toList)).Reads ss'
        [] := by
  obtain ⟨ss', hsseq, hssread⟩ := hss
  obtain ⟨t, us, s', htokens, -, hseq, hsread⟩ := hs.spells.reads
  refine ⟨s' :: ss', by rw [unmarkedStmts, unmarkedStmts, hseq, hsseq], ?_⟩
  rw [renderStmts, String.join_cons, String.toList_append, hs.scan_render hp hc, htokens]
  exact reads_statements_cons (hsread _) hssread

/-- The text of statements is read back as these statements. -/
theorem reads_renderStmts : {ss : List Stmt} → StmtsWellFormed ss → plainStmts ss →
    ss.dropLast.all Stmt.closed → ∃ ss', unmarkedStmts ss' = unmarkedStmts ss ∧
      (statements tracing (Token.scan (String.join (renderStmts ss)).toList)).Reads ss' []
  | [], _, _, _ => by
    refine ⟨[], rfl, ?_⟩
    rw [renderStmts, String.join_nil, String.toList_empty, Token.scan_nil]
    exact reads_statements_nil
  | [s], ⟨hs, _⟩, hp, _ => by
    rw [plainStmts, Bool.and_eq_true] at hp
    match s, hs, hp.1 with
    | .bind _ _ _, hs, hp | .ret _ _, hs, hp =>
      exact reads_renderStmts_cons hs hp rfl (reads_renderStmts trivial rfl rfl)
    | .expr t e, he, hp =>
      -- no semicolon is written after it, but nothing follows either
      have hscan := Expr.WellFormed.scans he hp [] (fun c hc => nomatch hc)
      rw [List.append_nil, Token.scan_nil, List.append_nil] at hscan
      rw [renderStmts, renderStmts, String.join_cons, String.join_nil, String.append_empty,
        Stmt.render, hscan]
      exact reads_statements_last he
  | s :: s' :: ss, ⟨hs, hss⟩, hp, hc => by
    rw [plainStmts, Bool.and_eq_true] at hp
    rw [List.dropLast_cons_cons, List.all_cons, Bool.and_eq_true] at hc
    exact reads_renderStmts_cons hs hp.1 hc.1 (reads_renderStmts hss hp.2 hc.2)

end

/-! ## The token of an expression statement does not matter -/

mutual

theorem Expr.plain_unmarked : (e : Expr) → e.unmarked.plain = e.plain
  | .absent | .ident _ _ | .int _ _ | .str _ _ | .bool _ _ => rfl
  | .unary _ _ e => e.plain_unmarked
  | .binary _ l _ r => by simp only [Expr.unmarked, Expr.plain, l.plain_unmarked, r.plain_unmarked]
  | .cond _ _ _ none | .cond _ _ _ (some _) | .func _ _ _ => rfl
  | .call _ f args => by
    simp only [Expr.unmarked, Expr.plain, f.plain_unmarked, plainExprs_unmarked args]
  | .array _ es => plainExprs_unmarked es
  | .index _ l i => by simp only [Expr.unmarked, Expr.plain, l.plain_unmarked, i.plain_unmarked]
  | .hash _ ps => plainPairs_unmarked ps

theorem plainExprs_unmarked : (es : List Expr) → plainExprs (unmarkedExprs es) = plainExprs es
  | [] => rfl
  | e :: es => by simp only [unmarkedExprs, plainExprs, e.plain_unmarked, plainExprs_unmarked es]

theorem plainPairs_unmarked :
    (ps : List (Expr × Expr)) → plainPairs (unmarkedPairs ps) = plainPairs ps
  | [] => rfl
  | (k, v) :: ps => by
    simp only [unmarkedPairs, plainPairs, k.plain_unmarked, v.plain_unmarked,
      plainPairs_unmarked ps]

end

mutual

/-- Without `fn` and `if` there is no statement in an expression. -/
theorem Expr.unmarked_of_plain : {e : Expr} → e.plain → e.unmarked = e
  | .absent, _ | .ident _ _, _ | .int _ _, _ | .str _ _, _ | .bool _ _, _ => rfl
  | .unary _ _ e, h => by
    rw [Expr.plain] at h
    rw [Expr.unmarked, e.unmarked_of_plain h]
  | .binary _ l _ r, h => by
    rw [Expr.plain, Bool.and_eq_true] at h
    rw [Expr.unmarked, l.unmarked_of_plain h.1, r.unmarked_of_plain h.2]
  | .call _ f args, h => by
    rw [Expr.plain, Bool.and_eq_true] at h
    rw [Expr.unmarked, f.unmarked_of_plain h.1, unmarkedExprs_of_plain h.2]
  | .array _ es, h => by
    rw [Expr.plain] at h
    rw [Expr.unmarked, unmarkedExprs_of_plain h]
  | .index _ l i, h => by
    rw [Expr.plain, Bool.and_eq_true] at h
    rw [Expr.unmarked, l.unmarked_of_plain h.1, i.unmarked_of_plain h.2]
  | .hash _ ps, h => by
    rw [Expr.plain] at h
    rw [Expr.unmarked, unmarkedPairs_of_plain h]

theorem unmarkedExprs_of_plain : {es : List Expr} → plainExprs es → unmarkedExprs es = es
  | [], _ => rfl
  | e :: es, h => by
    rw [plainExprs, Bool.and_eq_true] at h
    rw [unmarkedExprs, e.unmarked_of_plain h.1, unmarkedExprs_of_plain h.2]

theorem unmarkedPairs_of_plain :
    {ps : List (Expr × Expr)} → plainPairs ps → unmarkedPairs ps = ps
  | [], _ => rfl
  | (k, v) :: ps, h => by
    rw [plainPairs, Bool.and_eq_true, Bool.and_eq_true] at h
    rw [unmarkedPairs, k.unmarked_of_plain h.1.1, v.unmarked_of_plain h.1.2,
      unmarkedPairs_of_plain h.2]

end

theorem Expr.eq_of_unmarked {e e' : Expr} (hp : e.plain) (h : e'.unmarked = e.unmarked) :
    e' = e := by
  have hp' : e'.plain := by
    rw [← e'.plain_unmarked, h, e.plain_unmarked]
    exact hp
  rw [← e'.unmarked_of_plain hp', h, e.unmarked_of_plain hp]

/-- Statements that differ in the token of an expression statement are written alike and do the
same. -/
theorem Stmt.eq_of_unmarked {s s' : Stmt} (hs : s.WellFormed) (hp : s.plain)
    (h : s'.unmarked = s.unmarked) :
    s'.render = s.render ∧ ∀ call scope, s'.eval call scope = s.eval call scope := by
  cases s with
  | bind t x e =>
    cases s' with
    | bind t' x' e' =>
      rw [Stmt.unmarked, Stmt.unmarked, Stmt.bind.injEq] at h
      obtain ⟨rfl, rfl, he⟩ := h
      rw [e.eq_of_unmarked hp he]
      exact ⟨rfl, fun _ _ => rfl⟩
    | _ => simp only [Stmt.unmarked, reduceCtorEq] at h
  | ret t e =>
    cases s' with
    | ret t' e' =>
      rw [Stmt.unmarked, Stmt.unmarked, Stmt.ret.injEq] at h
      obtain ⟨rfl, he⟩ := h
      rw [e.eq_of_unmarked hp he]
      exact ⟨rfl, fun _ _ => rfl⟩
    | _ => simp only [Stmt.unmarked, reduceCtorEq] at h
  | expr t e =>
    cases s' with
    | expr t' e' =>
      -- `t` and `t'` may differ, and neither text nor value depends on them
      rw [Stmt.unmarked, Stmt.unmarked, Stmt.expr.injEq] at h
      rw [e.eq_of_unmarked hp h.2]
      exact ⟨rfl, fun _ _ => rfl⟩
    | _ => simp only [Stmt.unmarked, reduceCtorEq] at h
  | block b => exact hs.elim

theorem stmts_eq_of_unmarked : {ss ss' : List Stmt} → StmtsWellFormed ss → plainStmts ss →
    unmarkedStmts ss' = unmarkedStmts ss →
    renderStmts ss' = renderStmts ss ∧
      ∀ call scope last, evalStmts call scope last ss' = evalStmts call scope last ss
  | [], [], _, _, _ => ⟨rfl, fun _ _ _ => rfl⟩
  | s :: ss, s' :: ss', ⟨hs, hss⟩, hp, h => by
    rw [plainStmts, Bool.and_eq_true] at hp
    rw [unmarkedStmts, unmarkedStmts, List.cons.injEq] at h
    obtain ⟨hrender, heval⟩ := Stmt.eq_of_unmarked hs hp.1 h.1
    obtain ⟨hrenders, hevals⟩ := stmts_eq_of_unmarked hss hp.2 h.2
    refine ⟨by rw [renderStmts, renderStmts, hrender, hrenders], fun call scope last => ?_⟩
    rw [evalStmts, evalStmts, heval]
    simp only [hevals]

/-- The text of a parsed program is read back as the same program, if neither `if` nor `fn` occurs
in it and all its statements but the last are `let` or `return` statements. -/
theorem parse_render (tracing : Bool) (source : String) (p : Program)
    (hsource : (parse tracing source).program = p) (hplain : p.plain)
    (hclosed : p.statements.dropLast.all Stmt.closed) :
    (parse tracing p.render).errors = [] ∧
    (parse tracing p.render).program.unmarked = p.unmarked ∧
    (parse tracing p.render).program.render = p.render ∧
    ∀ depth scope, (parse tracing p.render).program.eval depth scope = p.eval depth scope := by
  have hp : p.WellFormed := hsource ▸ parse_wellFormed tracing source
  obtain ⟨ss', hsseq, hvalue, -, herrors⟩ :
      ∃ ss', unmarkedStmts ss' = unmarkedStmts p.statements ∧
        (Grammar.statements tracing (Token.scan p.render.toList)).Reads ss' [] :=
    reads_renderStmts hp hplain hclosed
  obtain ⟨hrender, heval⟩ := stmts_eq_of_unmarked hp hplain hsseq
  rw [parse, Parse.ofTokens]
  simp only [hvalue, herrors, true_and]
  refine ⟨?_, ?_, fun depth scope => ?_⟩
  · rw [Program.unmarked, Program.unmarked, hsseq]
  · rw [Program.render, Program.render, hrender]
  · rw [Program.eval_eq, Program.eval_eq, heval]

def mixedText : String := "let x = -f(1)[0]; !y == \x7b\"b c\": 2,\x7d"

theorem parse_render_mixed :
    (parse false mixedText).program.statements.length = 2 ∧
    (parse false mixedText).program.plain = true ∧
    (parse false mixedText).program.statements.dropLast.all Stmt.closed = true ∧
    (parse false (parse false mixedText).program.render).errors = [] ∧
    (parse false (parse false mixedText).program.render).program.unmarked =
      (parse false mixedText).program.unmarked := by
  have hlength : (parse false mixedText).program.statements.length = 2 := by
    cbv
  have hboth : ((parse false mixedText).program.plain &&
      (parse false mixedText).program.statements.dropLast.all Stmt.closed) = true := by
    cbv
  obtain ⟨hplain, hclosed⟩ := Bool.and_eq_true_iff.mp hboth
  have h := parse_render false mixedText _ rfl hplain hclosed
  exact ⟨hlength, hplain, hclosed, h.1, h.2.1⟩

end Monkey

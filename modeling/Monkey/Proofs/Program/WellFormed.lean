import Monkey.Proofs.Parsing.Derivation
import Monkey.Proofs.Token.Lexeme

/-!
# Complete and well-formed trees

A tree is complete if no expression is left out of it, the value of a `return` apart.  It is
well-formed if, beyond that, every node carries a token that a text can have at that place: a name
is a word that is not reserved, a number has digits below `2 ^ 63`, and an operator is spelled as
its token says.
-/

namespace Monkey

/-- The token is of the kind, with a text the kind allows. -/
def Token.Is (t : Token) (k : Token.Kind) : Prop := t.kind = k ∧ t.IsLexeme

mutual

/-- No expression is left out. -/
def Expr.Complete : Expr → Prop
  | .absent => False
  | .ident _ _ | .int _ _ | .str _ _ | .bool _ _ => True
  | .unary _ _ e => e.Complete
  | .binary _ l _ r => l.Complete ∧ r.Complete
  | .cond _ c yes none => c.Complete ∧ yes.Complete
  | .cond _ c yes (some no) => c.Complete ∧ yes.Complete ∧ no.Complete
  | .func _ _ body => body.Complete
  | .call _ f args => f.Complete ∧ ExprsComplete args
  | .array _ es => ExprsComplete es
  | .index _ l i => l.Complete ∧ i.Complete
  | .hash _ ps => PairsComplete ps

def ExprsComplete : List Expr → Prop
  | [] => True
  | e :: es => e.Complete ∧ ExprsComplete es

def PairsComplete : List (Expr × Expr) → Prop
  | [] => True
  | (k, v) :: ps => k.Complete ∧ v.Complete ∧ PairsComplete ps

/-- Only a `return` may do without its expression. -/
def Stmt.Complete : Stmt → Prop
  | .bind _ _ e => e.Complete
  | .ret _ e => e = .absent ∨ e.Complete
  | .expr _ e => e.Complete
  | .block b => b.Complete

def StmtsComplete : List Stmt → Prop
  | [] => True
  | s :: ss => s.Complete ∧ StmtsComplete ss

def Block.Complete : Block → Prop
  | .mk _ ss => StmtsComplete ss

end

/-- Every statement of the program is complete. -/
def Program.Complete (p : Program) : Prop := StmtsComplete p.statements

mutual

/-- Every node carries a token it can be made from. -/
def Expr.WellFormed : Expr → Prop
  | .absent => False
  | .ident t x => t.Is .ident ∧ t.literal = x
  | .int t n => t.Is .int ∧ numeral t.literal < 2 ^ 63 ∧ n = Int64.ofNat (numeral t.literal)
  | .str t s => t.Is .string ∧ t.literal = s
  | .bool t true => t.Is .trueWord
  | .bool t false => t.Is .falseWord
  | .unary t .not e => t.Is .bang ∧ e.WellFormed
  | .unary t .neg e => t.Is .minus ∧ e.WellFormed
  | .unary _ (.other _) _ => False
  | .binary t l op r =>
    (∃ n, (t.kind, op) ∈ operatorsAt n) ∧ t.IsLexeme ∧ l.WellFormed ∧ r.WellFormed
  | .cond t c yes none => t.Is .ifWord ∧ c.WellFormed ∧ yes.WellFormed
  | .cond t c yes (some no) => t.Is .ifWord ∧ c.WellFormed ∧ yes.WellFormed ∧ no.WellFormed
  | .func t xs body => t.Is .fnWord ∧ (∀ x ∈ xs, Token.IsName x) ∧ body.WellFormed
  | .call t f args => t.Is .lparen ∧ f.WellFormed ∧ ExprsWellFormed args
  | .array t es => t.Is .lbracket ∧ ExprsWellFormed es
  | .index t l i => t.Is .lbracket ∧ l.WellFormed ∧ i.WellFormed
  | .hash t ps => t.Is .lbrace ∧ PairsWellFormed ps

def ExprsWellFormed : List Expr → Prop
  | [] => True
  | e :: es => e.WellFormed ∧ ExprsWellFormed es

def PairsWellFormed : List (Expr × Expr) → Prop
  | [] => True
  | (k, v) :: ps => k.WellFormed ∧ v.WellFormed ∧ PairsWellFormed ps

/-- An expression statement may carry any token: it is the first token of its spelling, and that can
be a parenthesis. -/
def Stmt.WellFormed : Stmt → Prop
  | .bind t x e => t.Is .letWord ∧ Token.IsName x ∧ e.WellFormed
  | .ret t e => t.Is .returnWord ∧ (e = .absent ∨ e.WellFormed)
  | .expr _ e => e.WellFormed
  | .block _ => False

def StmtsWellFormed : List Stmt → Prop
  | [] => True
  | s :: ss => s.WellFormed ∧ StmtsWellFormed ss

def Block.WellFormed : Block → Prop
  | .mk t ss => t.Is .lbrace ∧ StmtsWellFormed ss

end

/-- Every statement of the program is well-formed. -/
def Program.WellFormed (p : Program) : Prop := StmtsWellFormed p.statements

/-! ## Well-formed trees are complete -/

mutual

theorem Expr.WellFormed.complete : {e : Expr} → e.WellFormed → e.Complete
  | .absent, h => h
  | .ident _ _, _ | .int _ _, _ | .str _ _, _ | .bool _ _, _ => trivial
  | .unary _ .not _, h | .unary _ .neg _, h => h.2.complete
  | .unary _ (.other _) _, h => h.elim
  | .binary _ _ _ _, ⟨_, _, hl, hr⟩ => ⟨hl.complete, hr.complete⟩
  | .cond _ _ _ none, ⟨_, hc, hyes⟩ => ⟨hc.complete, hyes.complete⟩
  | .cond _ _ _ (some _), ⟨_, hc, hyes, hno⟩ => ⟨hc.complete, hyes.complete, hno.complete⟩
  | .func _ _ _, ⟨_, _, hbody⟩ => hbody.complete
  | .call _ _ _, ⟨_, hf, hargs⟩ => ⟨hf.complete, hargs.complete⟩
  | .array _ _, ⟨_, hes⟩ => hes.complete
  | .index _ _ _, ⟨_, hl, hi⟩ => ⟨hl.complete, hi.complete⟩
  | .hash _ _, ⟨_, hps⟩ => hps.complete

theorem ExprsWellFormed.complete : {es : List Expr} → ExprsWellFormed es → ExprsComplete es
  | [], _ => trivial
  | _ :: _, ⟨he, hes⟩ => ⟨he.complete, hes.complete⟩

theorem PairsWellFormed.complete :
    {ps : List (Expr × Expr)} → PairsWellFormed ps → PairsComplete ps
  | [], _ => trivial
  | (_, _) :: _, ⟨hk, hv, hps⟩ => ⟨hk.complete, hv.complete, hps.complete⟩

theorem Stmt.WellFormed.complete : {s : Stmt} → s.WellFormed → s.Complete
  | .bind _ _ _, ⟨_, _, he⟩ => he.complete
  | .ret _ _, ⟨_, he⟩ => he.imp id fun he => he.complete
  | .expr _ _, he => Expr.WellFormed.complete he
  | .block _, h => h.elim

theorem StmtsWellFormed.complete : {ss : List Stmt} → StmtsWellFormed ss → StmtsComplete ss
  | [], _ => trivial
  | _ :: _, ⟨hs, hss⟩ => ⟨hs.complete, hss.complete⟩

theorem Block.WellFormed.complete : {b : Block} → b.WellFormed → b.Complete
  | .mk _ _, ⟨_, hss⟩ => hss.complete

end

end Monkey

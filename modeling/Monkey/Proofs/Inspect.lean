import Mathlib
import Monkey.Proofs.Coincidence
import Monkey.Proofs.Hash
import Monkey.Proofs.Interpreter
import Monkey.Proofs.Parsing.Numbers
import Monkey.Proofs.Parsing.RoundTrip
import Monkey.Proofs.Parsing.Soundness

/-!
# The text of data is a source

Data are integers, booleans, arrays of data, and hashes of data whose keys are integers and
booleans.  The text by which such a value is shown can be evaluated: it is scanned as the tokens
`tokens`, these spell the expression `literal`, and this expression has the value.

There is one exception.  An integer below zero is shown as a minus sign before a number, and the
number of the least integer is too large.  So a value with this integer in it is shown by a text
that does not parse.
-/

namespace Monkey

/-! ## 1. Data -/

mutual

def Value.IsData : Value → Prop
  | .int _ | .bool _ => True
  | .array es => AllData es
  | .hash ps => PairsData ps ∧ (Table.keys ps).Nodup
  | .null | .str _ | .function _ _ _ | .builtin _ | .error _ | .returned _ => False

def AllData : List Value → Prop
  | [] => True
  | v :: vs => v.IsData ∧ AllData vs

/-- Each pair is stored under the key of its own key value, an integer or a boolean. -/
def PairsData : List (HashKey × (Value × Value)) → Prop
  | [] => True
  | (key, (k, v)) :: ps =>
    (k.kind = .integer ∨ k.kind = .boolean) ∧ k.hashKey? = some key ∧ v.IsData ∧ PairsData ps

end

theorem Value.isData_of_kind {k : Value} (h : k.kind = .integer ∨ k.kind = .boolean) :
    k.IsData := by
  cases k with
  | int n => trivial
  | bool b => trivial
  | _ => rcases h with h | h <;> cases h

/-! ## 2. Numbers -/

def numberToken (n : Nat) : Token := ⟨.int, n.repr⟩

theorem numeral_repr (n : Nat) : numeral n.repr = n := by
  rw [← foldl_digits_eq_numeral, Nat.toList_repr]
  exact Nat.ofDigitChars_toDigits (by decide) (by decide)

theorem scans_number (n : Nat) : Scans n.repr.toList [numberToken n] := by
  have hlexeme : (numberToken n).IsLexeme := by
    show Token.IsNumber n.repr
    rw [Token.IsNumber, Nat.toList_repr]
    exact ⟨Nat.toDigits_ne_nil, fun c hc => Nat.isDigit_of_mem_toDigits (by decide) (by decide) hc⟩
  exact scans_spelling hlexeme (by simp [numberToken]) (by simp [numberToken])

theorem inRange_numberToken_iff {n : Nat} : (numberToken n).InRange ↔ n < 2 ^ 63 := by
  rw [Token.InRange, numberToken, numeral_repr]
  exact ⟨fun h => h rfl, fun h _ => h⟩

/-- An integer is shown as a number, with a minus sign before it if it is below zero. -/
theorem Value.inspect_int (n : Int64) :
    (Value.int n).inspect =
      if n.toInt < 0 then "-" ++ n.toInt.natAbs.repr else n.toInt.natAbs.repr := by
  rw [Value.inspect, Int.toString_eq_repr]
  cases n.toInt with
  | ofNat m => rfl
  | negSucc m =>
    rw [if_pos (Int.negSucc_lt_zero m)]
    rfl

/-- Only the number of the least integer is too large. -/
theorem natAbs_toInt_lt_iff {n : Int64} : n.toInt.natAbs < 2 ^ 63 ↔ n ≠ Int64.minValue := by
  rw [Ne, ← Int64.toInt_inj, Int64.toInt_minValue]
  have hlo := n.le_toInt
  have hhi := n.toInt_lt
  omega

theorem ofNat_natAbs_toInt (n : Int64) :
    Int64.ofNat n.toInt.natAbs = if n.toInt < 0 then -n else n := by
  rw [← Int64.ofInt_eq_ofNat, Int.natCast_natAbs]
  split
  next h => rw [abs_of_neg h, Int64.ofInt_neg, Int64.ofInt_toInt]
  next h => rw [abs_of_nonneg (Int.not_lt.mp h), Int64.ofInt_toInt]

/-! ## 3. The tokens of the text -/

mutual

def Value.tokens : Value → List Token
  | .int n =>
    if n.toInt < 0 then [Token.Kind.minus.token, numberToken n.toInt.natAbs]
    else [numberToken n.toInt.natAbs]
  | .bool true => [Token.Kind.trueWord.token]
  | .bool false => [Token.Kind.falseWord.token]
  | .array es => Token.Kind.lbracket.token :: (valuesTokens es ++ [Token.Kind.rbracket.token])
  | .hash ps => Token.Kind.lbrace.token :: (entriesTokens ps ++ [Token.Kind.rbrace.token])
  | .null | .str _ | .function _ _ _ | .builtin _ | .error _ | .returned _ => []

/-- Values with commas between them. -/
def valuesTokens : List Value → List Token
  | [] => []
  | [v] => v.tokens
  | v :: v' :: vs => v.tokens ++ Token.Kind.comma.token :: valuesTokens (v' :: vs)

/-- Keys and values with commas between them. -/
def entriesTokens : List (HashKey × (Value × Value)) → List Token
  | [] => []
  | [(_, (k, v))] => k.tokens ++ Token.Kind.colon.token :: v.tokens
  | (_, (k, v)) :: p :: ps =>
    k.tokens ++ Token.Kind.colon.token ::
      (v.tokens ++ Token.Kind.comma.token :: entriesTokens (p :: ps))

end

theorem scans_int (n : Int64) : Scans (Value.int n).inspect.toList (Value.int n).tokens := by
  rw [Value.inspect_int, Value.tokens]
  split
  next =>
    intro rest hrest
    have hcs : ("-" ++ n.toInt.natAbs.repr).toList ++ rest =
        '-' :: (n.toInt.natAbs.repr.toList ++ rest) := by
      simp
    rw [hcs, scan_symbol (k := .minus) rfl (by decide) (by decide), scans_number _ _ hrest]
    rfl
  next => exact scans_number _

mutual

/-- The text of data is scanned as its tokens. -/
theorem Value.IsData.scans : {v : Value} → v.IsData → Scans v.inspect.toList v.tokens
  | .int n, _ => scans_int n
  | .bool true, _ => scans_spelling (t := Token.Kind.trueWord.token) rfl (by decide) (by decide)
  | .bool false, _ => scans_spelling (t := Token.Kind.falseWord.token) rfl (by decide) (by decide)
  | .array es, hes => by
    intro rest _
    have hcs : (Value.array es).inspect.toList ++ rest =
        '[' :: ((", ".intercalate (Value.inspectAll es)).toList ++ ']' :: rest) := by
      simp [Value.inspect]
    rw [hcs, scan_symbol (k := .lbracket) rfl (by decide) (by decide),
      AllData.scans hes _ (apart_cons _ rfl rfl),
      scan_symbol (k := .rbracket) rfl (by decide) (by decide)]
    simp [Value.tokens]
  | .hash ps, ⟨hps, _⟩ => by
    intro rest _
    have hcs : (Value.hash ps).inspect.toList ++ rest =
        '\x7b' :: ((", ".intercalate (Value.inspectPairs ps)).toList ++ '\x7d' :: rest) := by
      simp [Value.inspect]
    rw [hcs, scan_symbol (k := .lbrace) rfl (by decide) (by decide),
      PairsData.scans hps _ (apart_cons _ rfl rfl),
      scan_symbol (k := .rbrace) rfl (by decide) (by decide)]
    simp [Value.tokens]

theorem AllData.scans : {vs : List Value} → AllData vs →
    Scans (", ".intercalate (Value.inspectAll vs)).toList (valuesTokens vs)
  | [], _ => fun _ _ => rfl
  | [v], ⟨hv, _⟩ => by
    rw [Value.inspectAll, Value.inspectAll, String.intercalate_singleton]
    exact hv.scans
  | v :: v' :: vs, ⟨hv, hvs⟩ => by
    intro rest hrest
    have hcs : (", ".intercalate (Value.inspectAll (v :: v' :: vs))).toList ++ rest =
        v.inspect.toList ++ ',' :: ' ' ::
          ((", ".intercalate (Value.inspectAll (v' :: vs))).toList ++ rest) := by
      rw [Value.inspectAll, Value.inspectAll, String.intercalate_cons_cons, ← Value.inspectAll]
      simp
    rw [hcs, hv.scans _ (apart_cons _ rfl rfl),
      scan_symbol (k := .comma) rfl (by decide) (by decide), Token.scan_blank (by decide),
      AllData.scans hvs _ hrest]
    simp [valuesTokens]

theorem PairsData.scans : {ps : List (HashKey × (Value × Value))} → PairsData ps →
    Scans (", ".intercalate (Value.inspectPairs ps)).toList (entriesTokens ps)
  | [], _ => fun _ _ => rfl
  | [(key, (k, v))], ⟨hk, _, hv, _⟩ => by
    intro rest hrest
    have hcs : (", ".intercalate (Value.inspectPairs [(key, (k, v))])).toList ++ rest =
        k.inspect.toList ++ ':' :: (v.inspect.toList ++ rest) := by
      rw [Value.inspectPairs, Value.inspectPairs, String.intercalate_singleton]
      simp
    rw [hcs, (Value.isData_of_kind hk).scans _ (apart_cons _ rfl rfl),
      scan_symbol (k := .colon) rfl (by decide) (by decide), hv.scans _ hrest]
    simp [entriesTokens]
  | (key, (k, v)) :: p :: ps, ⟨hk, _, hv, hps⟩ => by
    intro rest hrest
    have hcs : (", ".intercalate (Value.inspectPairs ((key, (k, v)) :: p :: ps))).toList ++ rest =
        k.inspect.toList ++ ':' :: (v.inspect.toList ++ ',' :: ' ' ::
          ((", ".intercalate (Value.inspectPairs (p :: ps))).toList ++ rest)) := by
      obtain ⟨key', k', v'⟩ := p
      simp [Value.inspectPairs, String.intercalate_cons_cons]
    rw [hcs, (Value.isData_of_kind hk).scans _ (apart_cons _ rfl rfl),
      scan_symbol (k := .colon) rfl (by decide) (by decide),
      hv.scans _ (apart_cons _ rfl rfl),
      scan_symbol (k := .comma) rfl (by decide) (by decide), Token.scan_blank (by decide),
      PairsData.scans hps _ hrest]
    simp [entriesTokens]

end

/-! ## 4. Numbers that are too large -/

section

variable {es : List Value} {ps : List (HashKey × (Value × Value))} {m n : Int64}

theorem Value.int_holds_int : (Value.int m).Holds (.int n) ↔ m = n := by
  constructor
  · rintro ⟨⟩
    rfl
  · rintro rfl
    exact .self _

theorem Value.bool_holds_int {b : Bool} : ¬(Value.bool b).Holds (.int n) := by
  rintro ⟨⟩

theorem Value.array_holds_int : (Value.array es).Holds (.int n) ↔ ∃ v ∈ es, v.Holds (.int n) := by
  constructor
  · rintro ⟨⟩
    exact ⟨_, ‹_›, ‹_›⟩
  · rintro ⟨v, hv, h⟩
    exact .element hv h

theorem Value.hash_holds_int : (Value.hash ps).Holds (.int n) ↔
    ∃ p ∈ ps, p.2.1.Holds (.int n) ∨ p.2.2.Holds (.int n) := by
  constructor
  · rintro ⟨⟩
    · exact ⟨_, ‹_›, .inl ‹_›⟩
    · exact ⟨_, ‹_›, .inr ‹_›⟩
  · rintro ⟨⟨key, k, v⟩, hp, h | h⟩
    · exact .key hp h
    · exact .value hp h

end

theorem Token.Kind.inRange_token {k : Token.Kind} (hk : k ≠ .int) : k.token.InRange :=
  Token.inRange_of_kind rfl hk

theorem forall_inRange_bracketed {o c : Token.Kind} {ts : List Token} (ho : o ≠ .int)
    (hc : c ≠ .int) :
    (∀ t ∈ o.token :: (ts ++ [c.token]), t.InRange) ↔ ∀ t ∈ ts, t.InRange := by
  rw [List.forall_mem_cons, List.forall_mem_append, List.forall_mem_singleton,
    and_iff_right (Token.Kind.inRange_token ho), and_iff_left (Token.Kind.inRange_token hc)]

theorem forall_inRange_separated {k : Token.Kind} {ts us : List Token} (hk : k ≠ .int) :
    (∀ t ∈ ts ++ k.token :: us, t.InRange) ↔
      (∀ t ∈ ts, t.InRange) ∧ ∀ t ∈ us, t.InRange := by
  rw [List.forall_mem_append, List.forall_mem_cons, and_iff_right (Token.Kind.inRange_token hk)]

mutual

/-- A number among the tokens is too large exactly if the least integer lies in the value. -/
theorem Value.IsData.inRange_iff : {v : Value} → v.IsData →
    ((∀ t ∈ v.tokens, t.InRange) ↔ ¬v.Holds (.int Int64.minValue))
  | .int n, _ => by
    have hminus : Token.Kind.minus.token.InRange := Token.Kind.inRange_token (by decide)
    rw [Value.int_holds_int, ← Ne, ← natAbs_toInt_lt_iff, ← inRange_numberToken_iff, Value.tokens]
    split
    next => simp [hminus]
    next => simp
  | .bool true, _ | .bool false, _ => by
    simp [Value.tokens, Value.bool_holds_int, Token.Kind.inRange_token]
  | .array es, hes => by
    rw [Value.tokens, forall_inRange_bracketed (by decide) (by decide), AllData.inRange_iff hes,
      Value.array_holds_int]
    push Not
    rfl
  | .hash ps, ⟨hps, _⟩ => by
    rw [Value.tokens, forall_inRange_bracketed (by decide) (by decide), PairsData.inRange_iff hps,
      Value.hash_holds_int]
    push Not
    rfl

theorem AllData.inRange_iff : {vs : List Value} → AllData vs →
    ((∀ t ∈ valuesTokens vs, t.InRange) ↔ ∀ v ∈ vs, ¬v.Holds (.int Int64.minValue))
  | [], _ => by simp [valuesTokens]
  | [v], ⟨hv, _⟩ => by rw [valuesTokens, hv.inRange_iff, List.forall_mem_singleton]
  | v :: v' :: vs, ⟨hv, hvs⟩ => by
    rw [valuesTokens, forall_inRange_separated (by decide), hv.inRange_iff,
      AllData.inRange_iff hvs, List.forall_mem_cons (a := v)]

theorem PairsData.inRange_iff : {ps : List (HashKey × (Value × Value))} → PairsData ps →
    ((∀ t ∈ entriesTokens ps, t.InRange) ↔ ∀ p ∈ ps,
      ¬p.2.1.Holds (.int Int64.minValue) ∧ ¬p.2.2.Holds (.int Int64.minValue))
  | [], _ => by simp [entriesTokens]
  | [(key, (k, v))], ⟨hk, _, hv, _⟩ => by
    rw [entriesTokens, forall_inRange_separated (by decide),
      (Value.isData_of_kind hk).inRange_iff, hv.inRange_iff, List.forall_mem_singleton]
  | (key, (k, v)) :: p :: ps, ⟨hk, _, hv, hps⟩ => by
    rw [entriesTokens, forall_inRange_separated (by decide), forall_inRange_separated (by decide),
      (Value.isData_of_kind hk).inRange_iff, hv.inRange_iff, PairsData.inRange_iff hps,
      List.forall_mem_cons (a := (key, (k, v))), and_assoc]

end

/-! ## 5. The literal of a value -/

def numberLiteral (n : Nat) : Expr := .int (numberToken n) (Int64.ofNat n)

mutual

/-- The expression that the tokens spell. -/
def Value.literal : Value → Expr
  | .int n =>
    if n.toInt < 0 then .unary Token.Kind.minus.token .neg (numberLiteral n.toInt.natAbs)
    else numberLiteral n.toInt.natAbs
  | .bool true => .bool Token.Kind.trueWord.token true
  | .bool false => .bool Token.Kind.falseWord.token false
  | .array es => .array Token.Kind.lbracket.token (literals es)
  | .hash ps => .hash Token.Kind.lbrace.token (literalPairs ps)
  | .null | .str _ | .function _ _ _ | .builtin _ | .error _ | .returned _ => .absent

def literals : List Value → List Expr
  | [] => []
  | v :: vs => v.literal :: literals vs

def literalPairs : List (HashKey × (Value × Value)) → List (Expr × Expr)
  | [] => []
  | (_, (k, v)) :: ps => (k.literal, v.literal) :: literalPairs ps

end

mutual

theorem Value.plain_literal : (v : Value) → v.literal.plain
  | .int n => by
    rw [Value.literal]
    split <;> rfl
  | .array es => plain_literals es
  | .hash ps => plain_literalPairs ps
  | .bool true | .bool false | .null | .str _ | .function _ _ _ | .builtin _ | .error _
  | .returned _ => rfl

theorem plain_literals : (vs : List Value) → plainExprs (literals vs)
  | [] => rfl
  | v :: vs => by
    rw [literals, plainExprs, v.plain_literal, plain_literals vs]
    rfl

theorem plain_literalPairs :
    (ps : List (HashKey × (Value × Value))) → plainPairs (literalPairs ps)
  | [] => rfl
  | (_, (k, v)) :: ps => by
    rw [literalPairs, plainPairs, k.plain_literal, v.plain_literal, plain_literalPairs ps]
    rfl

end

theorem spells_number {m n : Nat} (hn : (numberToken n).InRange) :
    Spells m (numberLiteral n) [numberToken n] := by
  have h : Spells m (.int (numberToken n) (Int64.ofNat (numeral n.repr))) [numberToken n] :=
    .int rfl (hn rfl)
  rw [numeral_repr] at h
  exact h

theorem spells_int {n : Int64} (hrange : ∀ t ∈ (Value.int n).tokens, t.InRange) :
    Spells 1 (Value.int n).literal (Value.int n).tokens := by
  rw [Value.tokens] at hrange ⊢
  rw [Value.literal]
  split at hrange
  next h =>
    rw [if_pos h, if_pos h]
    exact .neg (by decide) rfl (spells_number (hrange _ (by simp)))
  next h =>
    rw [if_neg h, if_neg h]
    exact spells_number (hrange _ (by simp))

mutual

/-- The tokens spell the literal, unless a number is too large. -/
theorem Value.IsData.spells : {v : Value} → v.IsData →
    (∀ t ∈ v.tokens, t.InRange) → Spells 1 v.literal v.tokens
  | .int n, _, hrange => spells_int hrange
  | .bool true, _, _ => .true rfl
  | .bool false, _, _ => .false rfl
  | .array es, hes, hrange => by
    rw [Value.tokens, forall_inRange_bracketed (by decide) (by decide)] at hrange
    exact .array rfl (AllData.spells hes hrange) rfl
  | .hash ps, ⟨hps, _⟩, hrange => by
    rw [Value.tokens, forall_inRange_bracketed (by decide) (by decide)] at hrange
    exact .hash rfl (PairsData.spells hps hrange) rfl

theorem AllData.spells : {vs : List Value} → AllData vs →
    (∀ t ∈ valuesTokens vs, t.InRange) → SpellsList (literals vs) (valuesTokens vs)
  | [], _, _ => .nil
  | [v], ⟨hv, _⟩, hrange => .one (hv.spells hrange)
  | v :: v' :: vs, ⟨hv, hvs⟩, hrange => by
    rw [valuesTokens, forall_inRange_separated (by decide)] at hrange
    exact .more (hv.spells hrange.1) rfl (AllData.spells hvs hrange.2)

theorem PairsData.spells : {ps : List (HashKey × (Value × Value))} → PairsData ps →
    (∀ t ∈ entriesTokens ps, t.InRange) → SpellsPairs (literalPairs ps) (entriesTokens ps)
  | [], _, _ => .nil
  | [(key, (k, v))], ⟨hk, _, hv, _⟩, hrange => by
    rw [entriesTokens, forall_inRange_separated (by decide)] at hrange
    exact .one ((Value.isData_of_kind hk).spells hrange.1) rfl (hv.spells hrange.2)
  | (key, (k, v)) :: p :: ps, ⟨hk, _, hv, hps⟩, hrange => by
    rw [entriesTokens, forall_inRange_separated (by decide),
      forall_inRange_separated (by decide)] at hrange
    exact .more ((Value.isData_of_kind hk).spells hrange.1) rfl (hv.spells hrange.2.1) rfl
      (PairsData.spells hps hrange.2.2)

end

/-! ## 6. The value of the literal -/

section

variable {call : Value → List Value → Eval Value} {scope : Nat} {s : Scopes}

theorem eval_literal_int (n : Int64) :
    (Value.int n).literal.eval call scope s = .ok (.int n) s := by
  have hnumber : (numberLiteral n.toInt.natAbs).eval call scope s =
      .ok (.int (if n.toInt < 0 then -n else n)) s := by
    rw [← ofNat_natAbs_toInt]
    rfl
  rw [Value.literal]
  split
  next h =>
    -- the number stands for `-n`, and the sign before it is evaluated too
    rw [if_pos h] at hnumber
    rw [Expr.eval, Eval.bind_of_ok hnumber, UnaryOp.apply, Int64.neg_neg]
    rfl
  next h =>
    rw [if_neg h] at hnumber
    exact hnumber

theorem PairsData.keysOf {ps : List (HashKey × (Value × Value))} (h : PairsData ps) :
    KeysOf (ps.map Prod.snd) (Table.keys ps) := by
  induction ps with
  | nil => exact .nil
  | cons p ps ih =>
    obtain ⟨-, hkey, -, hps⟩ := h
    exact .cons hkey (ih hps)

mutual

theorem Value.IsData.eval_literal :
    {v : Value} → v.IsData → v.literal.eval call scope s = .ok v s
  | .int n, _ => eval_literal_int n
  | .bool true, _ | .bool false, _ => rfl
  | .array es, hes => by
    rw [Value.literal, Expr.eval, Eval.bind_of_ok (AllData.eval_literals hes)]
    rfl
  | .hash ps, ⟨hps, hkeys⟩ => by
    -- no key comes twice, so the insertions only append
    have hpairs : (Table.keys ps).zip (ps.map Prod.snd) = ps := (List.zip_of_prod rfl rfl).symm
    rw [Value.literal, (PairsData.yields hps).eval_eq hps.keysOf, hpairs,
      Table.ofList_of_nodup hkeys]

theorem AllData.eval_literals :
    {vs : List Value} → AllData vs → evalExprs call scope (literals vs) s = .ok vs s
  | [], _ => rfl
  | v :: vs, ⟨hv, hvs⟩ => by
    rw [literals, evalExprs, Eval.bind_of_ok hv.eval_literal,
      Eval.bind_of_ok (AllData.eval_literals hvs)]
    rfl

theorem PairsData.yields : {ps : List (HashKey × (Value × Value))} → PairsData ps →
    PairsYield call scope (literalPairs ps) s (ps.map Prod.snd) s
  | [], _ => .nil
  | (_, (_, _)) :: _, ⟨hk, _, hv, hps⟩ =>
    .cons (Value.isData_of_kind hk).eval_literal hv.eval_literal (PairsData.yields hps)

end

end

/-! ## 7. Evaluating the text -/

theorem Value.IsData.scan_inspect {v : Value} (hv : v.IsData) :
    Token.scan v.inspect.toList = v.tokens := by
  have h := hv.scans [] (fun c hc => nomatch hc)
  rw [List.append_nil, Token.scan_nil, List.append_nil] at h
  exact h

/-- Without the least integer in it, the text of data is parsed as the literal. -/
theorem Value.IsData.parse_inspect {v : Value} (hv : v.IsData)
    (hmin : ¬v.Holds (.int Int64.minValue)) (tracing : Bool) :
    (parse tracing v.inspect).errors = [] ∧
      ∃ t, (parse tracing v.inspect).program = ⟨[.expr t v.literal]⟩ := by
  obtain ⟨t, e, he, hvalue, -, herrors⟩ :
      ∃ t e, e.unmarked = v.literal.unmarked ∧
        (Grammar.statements tracing v.tokens).Reads [.expr t e] [] :=
    (hv.spells (hv.inRange_iff.mpr hmin)).reads_statements
  -- a literal has no statement in it whose token could be another one
  rw [Expr.eq_of_unmarked v.plain_literal he] at hvalue
  rw [parse, Parse.ofTokens, hv.scan_inspect]
  exact ⟨herrors, t, congrArg Program.mk hvalue⟩

/-- With the least integer in it, the text has an error. -/
theorem Value.IsData.errors_inspect_ne_nil {v : Value} (hv : v.IsData)
    (hmin : v.Holds (.int Int64.minValue)) (tracing : Bool) :
    (parse tracing v.inspect).errors ≠ [] := by
  intro herrors
  rw [parse, Parse.ofTokens, hv.scan_inspect] at herrors
  -- a derivation takes all tokens, and no number that is too large
  obtain ⟨used, hused, hrange⟩ :=
    (statements_sound v.tokens (Parsed.reads_of_errors_eq_nil herrors)).takes
  rw [List.append_nil] at hused
  rw [← hused] at hrange
  exact hv.inRange_iff.mp hrange hmin

theorem Value.IsData.eval_program {v : Value} (hv : v.IsData) (depth scope : Nat) (t : Token)
    (s : Scopes) : Program.eval depth scope ⟨[.expr t v.literal]⟩ s = .ok (some v) s := by
  have hstmt : (Stmt.expr t v.literal).eval (applyWithin depth) scope s = .ok (some v) s := by
    rw [Stmt.eval, Eval.bind_of_ok hv.eval_literal]
    rfl
  rw [Program.eval_eq, Eval.catchReturn, evalStmts, Eval.bind_of_ok hstmt]
  rfl

theorem Value.IsData.ofOutcome {v : Value} (hv : v.IsData) :
    Answer.ofOutcome (.value (some v)) = .value (some v) := by
  cases v with
  | error message => exact hv.elim
  | _ => rfl

/-- Evaluating the text by which data is shown gives the same data again, in any state, and changes
nothing.  But if the least integer lies in it, the text does not parse. -/
theorem Interpreter.eval_inspect (i : Interpreter) (s : Scopes) (v : Value) (hv : v.IsData) :
    (¬v.Holds (.int Int64.minValue) →
      (i.eval v.inspect s).1.result = .value (some v) ∧ (i.eval v.inspect s).2 = s) ∧
    (v.Holds (.int Int64.minValue) →
      ∃ errors ≠ [], (i.eval v.inspect s).1.result = .parseErrors errors ∧
        (i.eval v.inspect s).2 = s) := by
  constructor
  · intro hmin
    obtain ⟨herrors, t, hprogram⟩ := hv.parse_inspect hmin i.tracing
    obtain ⟨hanswer, hstate⟩ := eval_of_errors_eq_nil (i := i) (s := s) herrors
    rw [hanswer, hstate, hprogram, Eval.outcome_of_ok (hv.eval_program _ _ t s)]
    exact ⟨hv.ofOutcome, rfl⟩
  · intro hmin
    have herrors := hv.errors_inspect_ne_nil hmin i.tracing
    exact ⟨_, herrors, eval_of_errors_ne_nil herrors⟩

/-- A hash with a key below zero and a boolean key, in an array. -/
def nestedData : Value :=
  .array [.int (-5), .hash [
    (⟨.integer, (-1 : Int64).toUInt64⟩, (.int (-1), .array [.bool true, .int 0])),
    (⟨.boolean, 0⟩, (.bool false, .hash []))]]

theorem Interpreter.eval_inspect_nested :
    nestedData.IsData ∧ ¬nestedData.Holds (.int Int64.minValue) ∧
    (Interpreter.standard.eval nestedData.inspect .fresh).1.result = .value (some nestedData) ∧
    (Value.array [nestedData, .int Int64.minValue]).IsData ∧
    (Value.array [nestedData, .int Int64.minValue]).Holds (.int Int64.minValue) ∧
    ∃ errors, (Interpreter.standard.eval
      (Value.array [nestedData, .int Int64.minValue]).inspect .fresh).1.result =
        .parseErrors errors := by
  have hdata : nestedData.IsData := by
    simp [nestedData, Value.IsData, AllData, PairsData, Value.kind, Value.hashKey?, Table.keys]
  have hnot : ¬nestedData.Holds (.int Int64.minValue) := by
    simp only [nestedData, Value.array_holds_int, Value.hash_holds_int, Value.int_holds_int,
      Value.bool_holds_int, List.exists_mem_cons_iff, List.not_mem_nil, false_and, exists_false]
    decide
  have hdata' : (Value.array [nestedData, .int Int64.minValue]).IsData := ⟨hdata, trivial, trivial⟩
  have hholds : (Value.array [nestedData, .int Int64.minValue]).Holds (.int Int64.minValue) :=
    .element (by simp) (.self _)
  obtain ⟨errors, -, hanswer, -⟩ := (eval_inspect .standard .fresh _ hdata').2 hholds
  exact ⟨hdata, hnot, ((eval_inspect .standard .fresh _ hdata).1 hnot).1, hdata', hholds, errors,
    hanswer⟩

end Monkey

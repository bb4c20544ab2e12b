import Mathlib
import Monkey.Parsing

/-!
# The record of a parse

A parser that records the rules it uses reads every text as one that does not.  What it records is
made of matched pairs: every rule that was entered is left again, whether it gave a value or met an
error, and the rules that were entered in between were left before.

Not every rule is recorded, so how far a line is indented is not how deep the rules are nested.  It
is the number of recorded rules that are open around it, and the writer of the lines keeps count of
them.
-/

namespace Monkey

/-! ## 1. Matched pairs -/

/-- Every rule that is entered is left again, and so is everything entered in between. -/
inductive TraceEvent.Matched : List TraceEvent → Prop where
  | nil : Matched []
  | pair (rule : Rule) {body rest : List TraceEvent} :
      Matched body → Matched rest → Matched (.enter rule :: (body ++ .leave rule :: rest))

theorem TraceEvent.Matched.append {es fs : List TraceEvent} (hes : Matched es) (hfs : Matched fs) :
    Matched (es ++ fs) := by
  induction hes with
  | nil => exact hfs
  | pair rule hbody _ _ ih =>
    rw [List.cons_append, List.append_assoc, List.cons_append]
    exact .pair rule hbody ih

namespace Parsed

variable {α β : Type} {m n : Nat}

/-- `r` is the result `r'` with a record of matched pairs, and `r'` has no record. -/
structure Recorded (r r' : Parsed α n) : Prop where
  value : r.value = r'.value
  rest : r.rest = r'.rest
  errors : r.errors = r'.errors
  matched : TraceEvent.Matched r.trace
  silent : r'.trace = []

/-! ## 2. Putting results together -/

theorem recorded_done {a : α} {ts : List Token} {h : ts.length ≤ n} :
    Recorded (done a ts h) (done a ts h) :=
  ⟨rfl, rfl, rfl, .nil, rfl⟩

theorem recorded_failed {e : ParseError} {ts : List Token} {h : ts.length ≤ n} :
    Recorded (failed (α := α) e ts h) (failed e ts h) :=
  ⟨rfl, rfl, rfl, .nil, rfl⟩

theorem Recorded.andThen {r r' : Parsed α m}
    {next next' : α → (ts : List Token) → ts.length ≤ m → Parsed β n} (hr : Recorded r r')
    (hnext : ∀ a ts h, Recorded (next a ts h) (next' a ts h)) :
    Recorded (r.andThen next) (r'.andThen next') := by
  obtain ⟨value', rest', errors', trace', bound'⟩ := r'
  obtain ⟨hvalue, hrest, herrors, hmatched, hsilent⟩ := hr
  dsimp only at hvalue hrest herrors hsilent
  subst hvalue hrest herrors hsilent
  have hs := hnext r.value r.rest r.bound
  exact ⟨hs.value, hs.rest, congrArg (r.errors ++ ·) hs.errors, hmatched.append hs.matched,
    hs.silent⟩

theorem Recorded.map {r r' : Parsed α n} (h : Recorded r r') (f : α → β) :
    Recorded (r.map f) (r'.map f) :=
  ⟨congrArg f h.value, h.rest, h.errors, h.matched, h.silent⟩

theorem Recorded.widen {r r' : Parsed α m} (h : Recorded r r') {hn : m ≤ n} :
    Recorded (r.widen hn) (r'.widen hn) :=
  ⟨h.value, h.rest, h.errors, h.matched, h.silent⟩

/-- The rule is left wherever its result comes from, so an error inside does not leave it open. -/
theorem Recorded.traced {r r' : Parsed α n} (h : Recorded r r') (rule : Rule) :
    Recorded (traced true rule r) (traced false rule r') :=
  ⟨h.value, h.rest, h.errors, .pair rule h.matched .nil, h.silent⟩

theorem Recorded.ite {c : Prop} [Decidable c] {r r' s s' : Parsed α n} (hr : c → Recorded r r')
    (hs : ¬c → Recorded s s') : Recorded (if c then r else s) (if c then r' else s') := by
  by_cases h : c
  · rw [if_pos h, if_pos h]
    exact hr h
  · rw [if_neg h, if_neg h]
    exact hs h

theorem recorded_expecting {want : Token.Kind} {ts : List Token} {h : ts.length ≤ n}
    {next next' : Token → (us : List Token) → us.length < ts.length → Parsed (Option α) n}
    (hnext : ∀ t us hu, Recorded (next t us hu) (next' t us hu)) :
    Recorded (expecting want ts h next) (expecting want ts h next') := by
  cases ts with
  | nil => exact recorded_failed
  | cons t us => exact .ite (fun _ => hnext t us _) fun _ => recorded_failed

section

variable {close : Token.Kind}
  {element element' : (ts : List Token) → ts.length ≤ m → Parsed (Option α) (ts.length - 1)}

theorem recorded_items (helement : ∀ ts h, Recorded (element ts h) (element' ts h))
    (ts : List Token) (h : ts.length ≤ m) :
    Recorded (items close element ts h) (items close element' ts h) := by
  rw [items, items]
  apply (helement ts h).andThen
  intro first us hu
  by_cases hc : nextKind us = .comma
  · have ht : us.tail.length < us.length := length_tail_lt (by rw [hc]; decide)
    rw [dif_pos hc, dif_pos hc]
    apply Recorded.widen
    apply Recorded.map
    exact recorded_items helement us.tail _
  · rw [dif_neg hc, dif_neg hc]
    apply recorded_expecting
    intro t vs _
    exact recorded_done
termination_by ts.length
decreasing_by omega

theorem recorded_separated (helement : ∀ ts h, Recorded (element ts h) (element' ts h))
    {ts : List Token} {h : ts.length ≤ m} :
    Recorded (separated close element ts h) (separated close element' ts h) :=
  .ite (fun _ => recorded_done) fun _ => recorded_items helement ts h

end

end Parsed

/-! ## 3. The rules of the grammar -/

open Parsed Grammar

section

variable {n : Nat}

theorem recorded_parameter (ts : List Token) : Recorded (parameter ts) (parameter ts) := by
  cases ts with
  | nil => exact recorded_failed
  | cons t us => exact .ite (fun _ => recorded_done) fun _ => recorded_failed

/-- On at most `n` tokens, an expression is read alike with and without a record. -/
def ExpressionRecorded (n : Nat) : Prop :=
  ∀ (level : Level) (ts : List Token), ts.length ≤ n →
    Recorded (expression true level ts) (expression false level ts)

/-- On at most `n` tokens, a block is read alike with and without a record. -/
def BlockRecorded (n : Nat) : Prop :=
  ∀ ts : List Token, ts.length ≤ n → Recorded (block true ts) (block false ts)

theorem recorded_unary (hexpr : ExpressionRecorded n) {t : Token} {op : UnaryOp} {us : List Token}
    (hus : us.length ≤ n) : Recorded (unary true t op us) (unary false t op us) := by
  rw [unary, unary]
  apply Recorded.traced
  apply Recorded.widen
  apply Recorded.map
  exact hexpr .unary us hus

theorem recorded_conditional (hexpr : ExpressionRecorded n) (hblock : BlockRecorded n) {t : Token}
    {us : List Token} (hus : us.length ≤ n) :
    Recorded (conditional true t us) (conditional false t us) := by
  rw [conditional, conditional]
  apply recorded_expecting
  intro o vs hv
  apply (hexpr .lowest vs (by omega)).andThen
  intro c ws hw
  cases c with
  | none => exact recorded_done
  | some c =>
    apply recorded_expecting
    intro p xs hx
    apply recorded_expecting
    intro b ys hy
    apply (hblock ys (by omega)).andThen
    intro yes zs hz
    have htail : zs.tail.length ≤ zs.length := by simp
    apply Recorded.ite
    · intro _
      apply recorded_expecting
      intro b' us' hu'
      apply Recorded.widen
      apply Recorded.map
      exact hblock us' (by omega)
    · intro _
      exact recorded_done

theorem recorded_function (hblock : BlockRecorded n) {t : Token} {us : List Token}
    (hus : us.length ≤ n) : Recorded (function true t us) (function false t us) := by
  rw [function, function]
  apply recorded_expecting
  intro o vs hv
  apply (recorded_separated fun ts _ => recorded_parameter ts).andThen
  intro ps ws hw
  cases ps with
  | none => exact recorded_done
  | some ps =>
    apply recorded_expecting
    intro b xs hx
    apply Recorded.widen
    apply Recorded.map
    exact hblock xs (by omega)

theorem recorded_hashPairs (hexpr : ExpressionRecorded n) (ts : List Token) (hts : ts.length ≤ n) :
    Recorded (hashPairs true ts) (hashPairs false ts) := by
  rw [hashPairs, hashPairs]
  apply Recorded.ite
  · intro _
    exact recorded_done
  intro _
  apply (hexpr .lowest ts hts).andThen
  intro key us hu
  apply recorded_expecting
  intro d vs hv
  apply (hexpr .lowest vs (by omega)).andThen
  intro value ws hw
  cases key with
  | none => exact recorded_done
  | some k =>
    cases value with
    | none => exact recorded_done
    | some v =>
      apply Recorded.ite
      · intro _
        exact recorded_done
      · intro _
        apply recorded_expecting
        intro c xs hx
        apply Recorded.widen
        apply Recorded.map
        exact recorded_hashPairs hexpr xs (by omega)
termination_by ts.length
decreasing_by omega

theorem recorded_expressions (hexpr : ExpressionRecorded n) {close : Token.Kind} {ts : List Token}
    (hts : ts.length ≤ n) :
    Recorded (separated close (fun ts _ => expression true .lowest ts) ts (Nat.le_refl _))
      (separated close (fun ts _ => expression false .lowest ts) ts (Nat.le_refl _)) :=
  recorded_separated fun us hu => hexpr .lowest us (Nat.le_trans hu hts)

theorem recorded_operand (hexpr : ExpressionRecorded n) (hblock : BlockRecorded n) {t : Token}
    {us : List Token} (hus : us.length ≤ n) :
    Recorded (operand true t us) (operand false t us) := by
  rw [operand.eq_def, operand.eq_def]
  split
  · exact recorded_done
  · apply Recorded.traced
    split
    · exact recorded_done
    · exact recorded_failed
  · exact recorded_done
  · exact recorded_done
  · exact recorded_done
  · exact recorded_unary hexpr hus
  · exact recorded_unary hexpr hus
  · apply (hexpr .lowest us hus).andThen
    intro inner vs _
    apply recorded_expecting
    intro c ws _
    exact recorded_done
  · exact recorded_conditional hexpr hblock hus
  · exact recorded_function hblock hus
  · exact (recorded_expressions hexpr hus).map _
  · exact (recorded_hashPairs hexpr us hus).map _
  · exact recorded_failed

theorem recorded_operator (hexpr : ExpressionRecorded n) {left : Option Expr} {t : Token}
    {us : List Token} (hus : us.length ≤ n) :
    Recorded (operator true left t us) (operator false left t us) := by
  rw [operator.eq_def, operator.eq_def]
  split
  · exact (recorded_expressions hexpr hus).map _
  · apply (hexpr .lowest us hus).andThen
    intro i vs _
    apply recorded_expecting
    intro c ws _
    exact recorded_done
  · apply Recorded.traced
    apply Recorded.widen
    apply Recorded.map
    exact hexpr _ us hus

theorem recorded_operators (hexpr : ExpressionRecorded n) {level : Level} (left : Option Expr)
    (ts : List Token) (hts : ts.length ≤ n) :
    Recorded (operators true level left ts) (operators false level left ts) := by
  match ts, hts with
  | [], _ =>
    rw [operators.eq_def, operators.eq_def]
    exact recorded_done
  | t :: us, hts =>
    rw [List.length_cons] at hts
    rw [operators.eq_def, operators.eq_def false]
    apply Recorded.ite
    · intro _
      apply (recorded_operator hexpr (by omega)).andThen
      intro whole vs hv
      apply Recorded.widen
      exact recorded_operators hexpr whole vs (by omega)
    · intro _
      exact recorded_done
termination_by ts.length
decreasing_by simp only [List.length_cons]; omega

theorem recorded_statement (hexpr : ExpressionRecorded n) {t : Token} {us : List Token}
    (hus : us.length < n) : Recorded (statement true t us) (statement false t us) := by
  rw [statement.eq_def, statement.eq_def]
  split
  · apply recorded_expecting
    intro x vs hv
    apply recorded_expecting
    intro a ws hw
    apply (hexpr .lowest ws (by omega)).andThen
    intro e xs _
    cases e <;> exact recorded_done
  · apply Recorded.ite
    · intro _
      exact recorded_done
    intro _
    apply Recorded.ite
    · intro _
      exact recorded_done
    intro _
    apply (hexpr .lowest us (by omega)).andThen
    intro e vs _
    cases e <;> exact recorded_done
  · apply Recorded.traced
    have htus : (t :: us).length ≤ n := hus
    apply (hexpr .lowest (t :: us) htus).andThen
    intro e vs _
    cases e <;> exact recorded_done

theorem recorded_block (hexpr : ExpressionRecorded n) : BlockRecorded n
  | [], _ => by
    rw [block.eq_def, block.eq_def]
    exact recorded_done
  | t :: us, hts => by
    rw [List.length_cons] at hts
    rw [block.eq_def, block.eq_def false]
    apply Recorded.ite
    · intro _
      exact recorded_done
    · intro _
      apply (recorded_statement hexpr hts).andThen
      intro s vs hv
      apply Recorded.widen
      apply Recorded.map
      exact recorded_block hexpr vs (by omega)
termination_by ts => ts.length
decreasing_by simp only [List.length_cons]; omega

/-- The induction is on the number of tokens: after its first token, an expression has fewer of them
for everything inside it. -/
theorem recorded_expression (n : Nat) : ExpressionRecorded n := by
  induction n with
  | zero =>
    intro level ts hts
    rw [List.eq_nil_of_length_eq_zero (Nat.le_zero.mp hts), expression.eq_def, expression.eq_def]
    exact recorded_failed.traced _
  | succ n ih =>
    intro level ts hts
    rw [expression.eq_def, expression.eq_def]
    apply Recorded.traced
    cases ts with
    | nil => exact recorded_failed
    | cons t us =>
      have hus : us.length ≤ n := Nat.le_of_succ_le_succ hts
      apply Recorded.ite
      · intro _
        apply (recorded_operand ih (recorded_block ih) hus).andThen
        intro first vs hv
        apply Recorded.widen
        exact recorded_operators ih first vs (by omega)
      · intro _
        exact recorded_failed

theorem recorded_statements (ts : List Token) :
    Recorded (statements true ts) (statements false ts) := by
  match ts with
  | [] =>
    rw [statements.eq_def, statements.eq_def]
    exact recorded_done
  | t :: us =>
    rw [statements.eq_def, statements.eq_def false]
    apply (recorded_statement (recorded_expression _) (Nat.lt_succ_self _)).andThen
    intro s vs hv
    apply Recorded.widen
    apply Recorded.map
    exact recorded_statements vs
termination_by ts.length
decreasing_by simp only [List.length_cons]; omega

end

/-! ## 4. Writing the record -/

namespace TraceEvent

/-- Lines with `depth` pairs around them: pairs of lines with `depth` tabs that begin and end one
rule, each around lines that have one pair more around them. -/
inductive Nested : Nat → List String → Prop where
  | nil {depth : Nat} : Nested depth []
  | pair {depth : Nat} (rule : Rule) {inner rest : List String} :
      Nested (depth + 1) inner → Nested depth rest →
      Nested depth (line depth "BEGIN" rule :: (inner ++ line depth "END" rule :: rest))

/-- The rules that were entered less those that were left. -/
def opened : List TraceEvent → Int
  | [] => 0
  | enter _ :: es => opened es + 1
  | leave _ :: es => opened es - 1

end TraceEvent

/-- What writes a record, line by line, while the rules are entered and left. -/
structure Tracer where
  level : Int
  lines : List String

namespace Tracer

def start : Tracer := ⟨0, []⟩

/-- Writes a line with one tab less than the level says, which must leave no negative number. -/
def print (w : Tracer) (text : String) : Option Tracer :=
  if w.level - 1 < 0 then none
  else some { w with lines := w.lines ++ ["".pushn '\t' (w.level - 1).toNat ++ text ++ "\n"] }

/-- The level goes up before the line that begins a rule, and down after the line that ends it. -/
def write (w : Tracer) : TraceEvent → Option Tracer
  | .enter rule => { w with level := w.level + 1 }.print ("BEGIN " ++ rule.label)
  | .leave rule => do
    let w ← w.print ("END " ++ rule.label)
    return { w with level := w.level - 1 }

def writeAll (w : Tracer) (es : List TraceEvent) : Option Tracer := es.foldlM write w

theorem print_of_level (depth : Nat) (ls : List String) (word : String) (rule : Rule) :
    print ⟨depth + 1, ls⟩ (word ++ " " ++ rule.label) =
      some ⟨depth + 1, ls ++ [TraceEvent.line depth word rule]⟩ := by
  have hlevel : (depth : Int) + 1 - 1 = depth := by omega
  have hnonneg : ¬(depth : Int) < 0 := by omega
  simp only [print, hlevel, if_neg hnonneg, Int.toNat_natCast, TraceEvent.line, String.append_assoc]

theorem write_enter (depth : Nat) (ls : List String) (rule : Rule) :
    write ⟨depth, ls⟩ (.enter rule) =
      some ⟨(depth + 1 : Nat), ls ++ [TraceEvent.line depth "BEGIN" rule]⟩ :=
  print_of_level depth ls "BEGIN" rule

theorem write_leave (depth : Nat) (ls : List String) (rule : Rule) :
    write ⟨(depth + 1 : Nat), ls⟩ (.leave rule) =
      some ⟨depth, ls ++ [TraceEvent.line depth "END" rule]⟩ := by
  have hprint := print_of_level depth ls "END" rule
  have hlevel : (depth : Int) + 1 - 1 = depth := by omega
  show (print ⟨depth + 1, ls⟩ ("END" ++ " " ++ rule.label)).bind _ = _
  rw [hprint, Option.bind_some]
  simp only [hlevel]
  rfl

theorem writeAll_cons (w : Tracer) (e : TraceEvent) (es : List TraceEvent) :
    w.writeAll (e :: es) = (w.write e).bind fun w' => w'.writeAll es :=
  List.foldlM_cons

theorem writeAll_append (w : Tracer) (es fs : List TraceEvent) :
    w.writeAll (es ++ fs) = (w.writeAll es).bind fun w' => w'.writeAll fs :=
  List.foldlM_append

theorem level_of_print {w w' : Tracer} {text : String} (h : w.print text = some w') :
    w'.level = w.level := by
  unfold print at h
  split at h
  · cases h
  · cases h
    rfl

/-- One event changes the level by one. -/
theorem level_of_write {w w' : Tracer} {e : TraceEvent} (h : w.write e = some w') :
    w'.level = w.level + TraceEvent.opened [e] := by
  cases e with
  | enter rule => exact level_of_print h
  | leave rule =>
    obtain ⟨w₁, hprint, hw⟩ := Option.bind_eq_some_iff.mp h
    cases hw
    show w₁.level - 1 = w.level + (0 - 1)
    rw [level_of_print hprint]
    omega

/-- Whoever gets through the events has kept count of the rules that are open. -/
theorem level_of_writeAll {w w' : Tracer} {es : List TraceEvent} (h : w.writeAll es = some w') :
    w'.level = w.level + TraceEvent.opened es := by
  induction es generalizing w with
  | nil =>
    cases h
    exact (Int.add_zero _).symm
  | cons e es ih =>
    rw [writeAll_cons] at h
    obtain ⟨w₁, hwrite, hrest⟩ := Option.bind_eq_some_iff.mp h
    have hopened : TraceEvent.opened (e :: es) = TraceEvent.opened [e] + TraceEvent.opened es := by
      cases e <;> simp only [TraceEvent.opened] <;> omega
    rw [ih hrest, level_of_write hwrite, hopened]
    omega

end Tracer

namespace TraceEvent.Matched

variable {es : List TraceEvent}

/-- Matched pairs leave as many rules open as there were before. -/
theorem lines_append (h : Matched es) (depth : Nat) (fs : List TraceEvent) :
    lines depth (es ++ fs) = lines depth es ++ lines depth fs := by
  induction h generalizing depth fs with
  | nil => rfl
  | pair rule _ _ ihbody ihrest =>
    rw [List.cons_append, List.append_assoc, List.cons_append]
    simp only [lines, ihbody, ihrest, Nat.add_sub_cancel, List.cons_append, List.append_assoc]

theorem nested (h : Matched es) (depth : Nat) : Nested depth (lines depth es) := by
  induction h generalizing depth with
  | nil => exact .nil
  | pair rule hbody _ ihbody ihrest =>
    rw [lines, hbody.lines_append, lines, Nat.add_sub_cancel]
    exact .pair rule (ihbody (depth + 1)) (ihrest depth)

/-- Matched pairs can be written at every level, and the level is what it was. -/
theorem writeAll_eq (h : Matched es) (depth : Nat) (ls : List String) :
    Tracer.writeAll ⟨depth, ls⟩ es = some ⟨depth, ls ++ lines depth es⟩ := by
  induction h generalizing depth ls with
  | nil =>
    rw [lines, List.append_nil]
    rfl
  | pair rule hbody _ ihbody ihrest =>
    -- the rule is entered, the body is written one level up, and the rule is left
    rw [Tracer.writeAll_cons, Tracer.write_enter, Option.bind_some, Tracer.writeAll_append, ihbody,
      Option.bind_some, Tracer.writeAll_cons, Tracer.write_leave, Option.bind_some, ihrest]
    simp only [lines, hbody.lines_append, Nat.add_sub_cancel, List.append_assoc, List.cons_append,
      List.nil_append]

end TraceEvent.Matched

/-- A parser that records its rules gives the same program and the same errors for every text as one
that does not, and the other one records nothing.  The text of the record is made of lines in nested
pairs, each indented by the number of pairs around it.  The writer of these lines never comes to a
line at level zero, its level is at every moment the number of rules that are open, and it ends at
level zero. -/
theorem parse_recorded (source : String) :
    (parse true source).program = (parse false source).program ∧
    (parse true source).errors = (parse false source).errors ∧
    (parse false source).trace = [] ∧
    ∃ ls : List String, TraceEvent.render (parse true source).trace = String.join ls ∧
      TraceEvent.Nested 0 ls ∧
      Tracer.start.writeAll (parse true source).trace = some ⟨0, ls⟩ ∧
      ∀ k, ∃ w, Tracer.start.writeAll ((parse true source).trace.take k) = some w ∧
        w.level = TraceEvent.opened ((parse true source).trace.take k) := by
  have h := recorded_statements (Token.scan source.toList)
  have hmatched : TraceEvent.Matched (parse true source).trace := h.matched
  have hwrite := hmatched.writeAll_eq 0 []
  refine ⟨congrArg Program.mk h.value, h.errors, h.silent, _, rfl, hmatched.nested 0, hwrite, ?_⟩
  intro k
  rw [← List.take_append_drop k (parse true source).trace, Tracer.writeAll_append] at hwrite
  obtain ⟨w, hw, -⟩ := Option.bind_eq_some_iff.mp hwrite
  exact ⟨w, hw, (Tracer.level_of_writeAll hw).trans (Int.zero_add _)⟩

/-- What is written for `1 + -`.  The operand is missing, and the rules that looked for it are left
one after the other. -/
def missingOperandLines : List String :=
  ["BEGIN parseExpressionStatement\n", "\tBEGIN parseExpression\n",
    "\t\tBEGIN parseIntegerLiteral\n", "\t\tEND parseIntegerLiteral\n",
    "\t\tBEGIN parseInfixExpression\n", "\t\t\tBEGIN parseExpression\n",
    "\t\t\t\tBEGIN parsePrefixExpression\n", "\t\t\t\t\tBEGIN parseExpression\n",
    "\t\t\t\t\tEND parseExpression\n", "\t\t\t\tEND parsePrefixExpression\n",
    "\t\t\tEND parseExpression\n", "\t\tEND parseInfixExpression\n",
    "\tEND parseExpression\n", "END parseExpressionStatement\n"]

theorem parse_recorded_missingOperand :
    (parse true "1 + -").errors = (parse false "1 + -").errors ∧
    TraceEvent.render (parse true "1 + -").trace = String.join missingOperandLines ∧
    TraceEvent.Nested 0 missingOperandLines ∧
    Tracer.start.writeAll (parse true "1 + -").trace = some ⟨0, missingOperandLines⟩ := by
  obtain ⟨-, herrors, -, ls, hrender, hnested, hwrite, -⟩ := parse_recorded "1 + -"
  have hlines : Tracer.start.writeAll (parse true "1 + -").trace =
      some ⟨0, missingOperandLines⟩ := by
    cbv
  rw [hlines, Option.some.injEq, Tracer.mk.injEq] at hwrite
  rw [← hwrite.2] at hrender hnested
  exact ⟨herrors, hrender, hnested, hlines⟩

end Monkey

import Monkey.Parsing.Diagnostic

/-!
# Results of parsing

A rule of the grammar reads tokens from the front of a list and returns a value, the tokens it left,
the errors it met and the record of its use.  `Parsed α n` says that at most `n` tokens are left,
which is how parsing is seen to end: every rule that calls itself hands on fewer tokens than it got.
-/

namespace Monkey

structure Parsed (α : Type) (n : Nat) where
  value : α
  rest : List Token
  errors : List ParseError
  trace : List TraceEvent
  bound : rest.length ≤ n

/-- The kind of the next token; a list of tokens is followed by the end of the text. -/
def nextKind : List Token → Token.Kind
  | [] => .eof
  | t :: _ => t.kind

@[simp] theorem nextKind_nil : nextKind [] = .eof := rfl

@[simp] theorem nextKind_cons (t : Token) (ts : List Token) : nextKind (t :: ts) = t.kind := rfl

theorem length_tail_lt {ts : List Token} (h : nextKind ts ≠ .eof) : ts.tail.length < ts.length := by
  cases ts with
  | nil => exact absurd rfl h
  | cons t ts => exact Nat.lt_succ_self _

namespace Parsed

variable {α β : Type} {m n : Nat}

/-- A value that needs no further token. -/
def done (value : α) (rest : List Token) (bound : rest.length ≤ n) : Parsed α n :=
  ⟨value, rest, [], [], bound⟩

/-- An error in place of a value. -/
def failed (error : ParseError) (rest : List Token) (bound : rest.length ≤ n) :
    Parsed (Option α) n :=
  ⟨none, rest, [error], [], bound⟩

/-- Goes on with the tokens that are left. -/
def andThen (r : Parsed α m) (next : α → (ts : List Token) → ts.length ≤ m → Parsed β n) :
    Parsed β n :=
  let s := next r.value r.rest r.bound
  ⟨s.value, s.rest, r.errors ++ s.errors, r.trace ++ s.trace, s.bound⟩

def map (f : α → β) (r : Parsed α n) : Parsed β n := { r with value := f r.value }

/-- The same result under a weaker bound. -/
def widen (r : Parsed α m) (h : m ≤ n) : Parsed α n := { r with bound := Nat.le_trans r.bound h }

/-- Records that the result belongs to a rule. -/
def traced (tracing : Bool) (rule : Rule) (r : Parsed α n) : Parsed α n :=
  { r with
    trace := if tracing then .enter rule :: (r.trace ++ [.leave rule]) else r.trace }

/-- Takes the next token if it is of the kind that is needed, and reports an error otherwise. -/
def expecting (want : Token.Kind) (ts : List Token) (h : ts.length ≤ n)
    (next : Token → (rest : List Token) → rest.length < ts.length → Parsed (Option α) n) :
    Parsed (Option α) n :=
  match ts with
  | [] => failed (.expected want .eof) [] h
  | t :: rest =>
    if t.kind = want then next t rest (Nat.lt_succ_self _)
    else failed (.expected want t.kind) (t :: rest) h

/-- One or more elements with commas between them, up to and including a closing token.  After an
element without a value the others are still read. -/
def items (close : Token.Kind)
    (element : (ts : List Token) → ts.length ≤ m → Parsed (Option α) (ts.length - 1))
    (ts : List Token) (h : ts.length ≤ m) : Parsed (Option (List α)) ts.length :=
  (element ts h).andThen fun first us hu =>
    if hc : nextKind us = .comma then
      have ht : us.tail.length < us.length := length_tail_lt (by simp [hc])
      ((items close element us.tail (by omega)).map fun others => do
        return (← first) :: (← others)).widen (by omega)
    else
      expecting close us (by omega) fun _ vs hv => done (first.map ([·])) vs (by omega)
termination_by ts.length

/-- Elements with commas between them, up to and including a closing token.  The list may be
empty. -/
def separated (close : Token.Kind)
    (element : (ts : List Token) → ts.length ≤ m → Parsed (Option α) (ts.length - 1))
    (ts : List Token) (h : ts.length ≤ m) : Parsed (Option (List α)) ts.length :=
  if nextKind ts = close then done (some []) ts.tail (by simp)
  else items close element ts h

end Parsed

/-- Leaves out a semicolon at the front. -/
def skipSemicolon (ts : List Token) : List Token :=
  if nextKind ts = .semicolon then ts.tail else ts

theorem length_skipSemicolon_le (ts : List Token) : (skipSemicolon ts).length ≤ ts.length := by
  unfold skipSemicolon
  split <;> simp

/-- The value of a row of decimal digits, if it is below `2 ^ 63`. -/
def decimal? (digits : String) : Option Int64 :=
  let n := digits.toList.foldl (fun n c => 10 * n + (c.toNat - '0'.toNat)) 0
  if n < Int64.size / 2 then some (Int64.ofNat n) else none

end Monkey

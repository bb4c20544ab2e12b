import Monkey.Proofs.Token.Layout

/-!
# Scanning with a cursor

A cursor stands at a character of a text and moves on one character at a time.  Behind the text it
sees the character NUL, which may also stand in the text, and it may go on moving there.  A word, a
number or a string is the piece of the text between two places of the cursor.

Scanning in this way gives the tokens of the text, so no piece is ever asked for that does not lie
in the text.  With this the scanner is described completely: the tokens are those into which the
text is cut, and after them comes the end of the text, however often it is asked for.
-/

namespace Monkey.Token

/-- The character seen behind the text. -/
def nul : Char := '\x00'

/-- A place in a text: the character `ch` stands at `position`, and the next one to read at
`readPosition`. -/
structure Cursor (input : List Char) where
  position : Nat
  readPosition : Nat
  ch : Char
  readPosition_eq : readPosition = position + 1
  ch_eq : ch = input.getD position nul

/-- The piece of a text between two places, which have to lie in the text in this order. -/
def slice? (input : List Char) (low high : Nat) : Option (List Char) :=
  if low ≤ high ∧ high ≤ input.length then some ((input.drop low).take (high - low)) else none

namespace Cursor

variable {input : List Char}

/-! ## 1. Moving -/

/-- The cursor at the front of a text. -/
def start (input : List Char) : Cursor input where
  position := 0
  readPosition := 1
  ch := input.getD 0 nul
  readPosition_eq := rfl
  ch_eq := rfl

/-- Moves on by one character. -/
def advance (c : Cursor input) : Cursor input where
  position := c.readPosition
  readPosition := c.readPosition + 1
  ch := input.getD c.readPosition nul
  readPosition_eq := rfl
  ch_eq := rfl

/-- The character after the one the cursor stands at. -/
def peek (c : Cursor input) : Char := input.getD c.readPosition nul

/-- What the cursor has not passed yet. -/
def rest (c : Cursor input) : List Char := input.drop c.position

theorem position_advance (c : Cursor input) : c.advance.position = c.position + 1 :=
  c.readPosition_eq

theorem position_lt_of_ch_ne {c : Cursor input} (h : c.ch ≠ nul) : c.position < input.length := by
  by_contra hle
  apply h
  rw [c.ch_eq, List.getD_eq_default _ _ (by omega)]

/-- Moves on as long as the character is of a class to which NUL does not belong. -/
def skip (p : Char → Bool) (hp : p nul = false) (c : Cursor input) : Cursor input :=
  if p c.ch = true then c.advance.skip p hp else c
termination_by input.length - c.position
decreasing_by
  rename_i h
  have hne : c.ch ≠ nul := fun he => by rw [he, hp] at h; contradiction
  have hlt := position_lt_of_ch_ne hne
  have hstep := c.position_advance
  omega

/-- Moves on to the next quote or to the end of the text. -/
def toQuote (c : Cursor input) : Cursor input :=
  if c.advance.ch = '"' ∨ input.length ≤ c.advance.position then c.advance
  else c.advance.toQuote
termination_by input.length - c.position
decreasing_by
  have hstep := c.position_advance
  omega

/-- Reads the token that begins where the cursor stands, and moves behind it. -/
def token (c : Cursor input) : Option (Token × Cursor input) :=
  if c.ch = '=' ∧ c.peek = '=' then some (⟨.equal, "=="⟩, c.advance.advance)
  else if c.ch = '!' ∧ c.peek = '=' then some (⟨.notEqual, "!="⟩, c.advance.advance)
  else
    match Kind.ofSymbol? c.ch with
    | some kind => some (⟨kind, String.singleton c.ch⟩, c.advance)
    | none =>
      if c.ch = '"' then do
        let text ← slice? input (c.position + 1) c.toQuote.position
        return (⟨.string, String.ofList text⟩, c.toQuote.advance)
      else if c.ch = nul ∧ input.length ≤ c.position then some (endOfText, c.advance)
      else if isLetter c.ch then do
        let d := c.skip isLetter (by decide)
        let word ← slice? input c.position d.position
        return (⟨.ofWord (String.ofList word), String.ofList word⟩, d)
      else if c.ch.isDigit then do
        let d := c.skip Char.isDigit (by decide)
        let digits ← slice? input c.position d.position
        return (⟨.int, String.ofList digits⟩, d)
      else some (⟨.illegal, String.singleton c.ch⟩, c.advance)

/-- Reads the next token behind any blanks. -/
def next (c : Cursor input) : Option (Token × Cursor input) :=
  (c.skip isBlank (by decide)).token

/-- The token that is read after `k` others. -/
def tokenAt (c : Cursor input) : Nat → Option Token
  | 0 => c.next.map Prod.fst
  | k + 1 => c.next.bind fun (_, d) => d.tokenAt k

/-! ## 2. What is left of the text -/

theorem ch_eq_headD (c : Cursor input) : c.ch = c.rest.headD nul := by
  rw [c.ch_eq, rest, List.headD_eq_head?_getD, List.head?_drop, List.getD_eq_getElem?_getD]

theorem rest_advance (c : Cursor input) : c.advance.rest = c.rest.tail := by
  rw [rest, rest, position_advance, List.tail_drop]

theorem peek_eq_headD (c : Cursor input) : c.peek = c.rest.tail.headD nul := by
  rw [← rest_advance, ← ch_eq_headD]
  rfl

/-- At the end of the text the cursor sees NUL and has nothing left. -/
theorem rest_cases (c : Cursor input) :
    c.ch = nul ∧ c.rest = [] ∧ input.length ≤ c.position ∨
      ∃ cs, c.rest = c.ch :: cs ∧ c.position < input.length := by
  have hch := c.ch_eq_headD
  by_cases h : input.length ≤ c.position
  · have hnil : c.rest = [] := List.drop_eq_nil_of_le h
    rw [hnil] at hch
    exact .inl ⟨hch, hnil, h⟩
  · have hne : c.rest ≠ [] := fun hnil => h (List.drop_eq_nil_iff.mp hnil)
    obtain ⟨d, ds, hcons⟩ := List.exists_cons_of_ne_nil hne
    rw [hcons] at hch
    exact .inr ⟨ds, by rw [hcons, hch]; rfl, by omega⟩

/-- Skipping a class passes the longest run of that class. -/
theorem skip_eq (p : Char → Bool) (hp : p nul = false) (c : Cursor input) :
    (c.skip p hp).rest = c.rest.dropWhile p ∧
      (c.skip p hp).position = c.position + (c.rest.takeWhile p).length := by
  fun_induction skip p hp c with
  | case1 c h ih =>
    rcases c.rest_cases with ⟨hnul, -⟩ | ⟨cs, hrest, -⟩
    · rw [hnul, hp] at h
      contradiction
    · rw [rest_advance, position_advance, hrest, List.tail_cons] at ih
      rw [hrest, List.dropWhile_cons_of_pos h, List.takeWhile_cons_of_pos h, List.length_cons]
      exact ⟨ih.1, by omega⟩
  | case2 c h =>
    rcases c.rest_cases with ⟨-, hrest, -⟩ | ⟨cs, hrest, -⟩
    · rw [hrest]
      exact ⟨rfl, rfl⟩
    · rw [hrest, List.dropWhile_cons_of_neg h, List.takeWhile_cons_of_neg h]
      exact ⟨rfl, rfl⟩

/-- The next quote is the first one among the characters after this one. -/
theorem toQuote_eq (c : Cursor input) :
    c.toQuote.rest = c.rest.tail.dropWhile (· != '"') ∧
      c.toQuote.position = c.position + 1 + (c.rest.tail.takeWhile (· != '"')).length := by
  fun_induction toQuote c with
  | case1 c h =>
    rw [← rest_advance, ← position_advance]
    rcases c.advance.rest_cases with ⟨-, hrest, -⟩ | ⟨cs, hrest, hlt⟩
    · rw [hrest]
      exact ⟨rfl, rfl⟩
    · have hquote : c.advance.ch = '"' := by
        rcases h with h | h
        · exact h
        · omega
      have hneg : ¬(c.advance.ch != '"') = true := by simp [hquote]
      rw [hrest, List.dropWhile_cons, List.takeWhile_cons, if_neg hneg, if_neg hneg]
      exact ⟨rfl, rfl⟩
  | case2 c h ih =>
    rcases c.advance.rest_cases with ⟨-, -, hle⟩ | ⟨cs, hrest, -⟩
    · exact absurd (.inr hle) h
    · have hpos : (c.advance.ch != '"') = true := by
        rw [bne_iff_ne]
        exact fun hq => h (.inl hq)
      rw [hrest, List.tail_cons, position_advance] at ih
      rw [← rest_advance, hrest, List.dropWhile_cons, List.takeWhile_cons, if_pos hpos,
        if_pos hpos, List.length_cons]
      exact ⟨ih.1, by omega⟩

/-- A piece that stands in the text at a place can be taken out of it. -/
theorem slice?_eq {low : Nat} {s t : List Char} (hlow : low ≤ input.length)
    (h : input.drop low = s ++ t) : slice? input low (low + s.length) = some s := by
  have hlength := congrArg List.length h
  rw [List.length_drop, List.length_append] at hlength
  unfold slice?
  rw [if_pos (by omega), h, Nat.add_sub_cancel_left, List.take_left]

/-- A word or a number is taken out of the text where the cursor passed it. -/
theorem slice?_skip {p : Char → Bool} (hp : p nul = false) (c : Cursor input)
    (h : c.position < input.length) :
    slice? input c.position (c.skip p hp).position = some (c.rest.takeWhile p) := by
  rw [(skip_eq p hp c).2]
  exact slice?_eq (Nat.le_of_lt h) List.takeWhile_append_dropWhile.symm

/-- A string is taken out of the text from behind its first quote. -/
theorem slice?_toQuote (c : Cursor input) (h : c.position < input.length) :
    slice? input (c.position + 1) c.toQuote.position =
      some (c.rest.tail.takeWhile (· != '"')) := by
  have htail : input.drop (c.position + 1) = c.rest.tail := by rw [rest, List.tail_drop]
  rw [c.toQuote_eq.2]
  apply slice?_eq (by omega)
  rw [htail]
  exact List.takeWhile_append_dropWhile.symm

/-! ## 3. Reading tokens -/

/-- What begins a word, a number or a string is no symbol. -/
theorem ofSymbol?_eq_none {ch : Char} (h : isLetter ch = true ∨ ch.isDigit = true ∨ ch = '"') :
    Kind.ofSymbol? ch = none := by
  unfold Kind.ofSymbol?
  split <;> first | rfl | exact absurd h (by decide)

section

variable {c : Cursor input} {cs : List Char}

theorem token_end (hnul : c.ch = nul) (hle : input.length ≤ c.position) :
    c.token = some (endOfText, c.advance) := by
  simp [token, hnul, hle, nul, Kind.ofSymbol?]

/-- A word is read by passing its letters. -/
theorem token_word (h : isLetter c.ch = true) (hlt : c.position < input.length) :
    ∃ d, c.token = some (⟨.ofWord (String.ofList (c.rest.takeWhile isLetter)),
        String.ofList (c.rest.takeWhile isLetter)⟩, d) ∧ d.rest = c.rest.dropWhile isLetter := by
  have hsym := ofSymbol?_eq_none (.inl h)
  have hne : c.ch ≠ '=' ∧ c.ch ≠ '!' ∧ c.ch ≠ '"' := by
    refine ⟨?_, ?_, ?_⟩ <;> (intro he; rw [he] at h; contradiction)
  refine ⟨c.skip isLetter (by decide), ?_, (skip_eq isLetter _ c).1⟩
  simp [token, hsym, hne, h, slice?_skip, hlt, Nat.not_le_of_lt hlt]

/-- A number is read by passing its digits. -/
theorem token_number (h : c.ch.isDigit = true) (hlt : c.position < input.length) :
    ∃ d, c.token = some (⟨.int, String.ofList (c.rest.takeWhile Char.isDigit)⟩, d) ∧
      d.rest = c.rest.dropWhile Char.isDigit := by
  have hsym := ofSymbol?_eq_none (.inr (.inl h))
  have hletter := isLetter_of_isDigit h
  have hne : c.ch ≠ '=' ∧ c.ch ≠ '!' ∧ c.ch ≠ '"' := by
    refine ⟨?_, ?_, ?_⟩ <;> (intro he; rw [he] at h; contradiction)
  refine ⟨c.skip Char.isDigit (by decide), ?_, (skip_eq Char.isDigit _ c).1⟩
  simp [token, hsym, hne, hletter, h, slice?_skip, hlt, Nat.not_le_of_lt hlt]

/-- A string is read by passing everything up to the next quote. -/
theorem token_string (h : c.ch = '"') (hlt : c.position < input.length) :
    ∃ d, c.token = some (⟨.string, String.ofList (c.rest.tail.takeWhile (· != '"'))⟩, d) ∧
      d.rest = (c.rest.tail.dropWhile (· != '"')).tail := by
  refine ⟨c.toQuote.advance, ?_, ?_⟩
  · simp [token, h, Kind.ofSymbol?, slice?_toQuote, hlt]
  · rw [rest_advance, c.toQuote_eq.1]

end

/-- Where a token begins, the cursor reads the token that the scanner takes. -/
theorem token_eq (c : Cursor input) :
    ∃ d, c.token = some (((next? c.rest).getD (endOfText, [])).1, d) ∧
      d.rest = ((next? c.rest).getD (endOfText, [])).2 := by
  rcases c.rest_cases with ⟨hnul, hrest, hle⟩ | ⟨cs, hrest, hlt⟩
  · refine ⟨c.advance, ?_, ?_⟩
    · rw [token_end hnul hle, hrest]
      rfl
    · rw [rest_advance, hrest]
      rfl
  have hpeek : c.peek = '=' ↔ cs.head? = some '=' := by
    rw [peek_eq_headD, hrest, List.tail_cons]
    cases cs with
    | nil => decide
    | cons d ds => simp
  -- in the order in which the scanner tries them
  simp only [hrest, next?]
  split
  · rename_i h
    have hword := token_word h hlt
    rw [hrest, List.takeWhile_cons_of_pos h, List.dropWhile_cons_of_pos h] at hword
    exact hword
  split
  · rename_i h
    have hnumber := token_number h hlt
    rw [hrest, List.takeWhile_cons_of_pos h, List.dropWhile_cons_of_pos h] at hnumber
    exact hnumber
  split
  · rename_i h
    have hstring := token_string h hlt
    rw [hrest, List.tail_cons] at hstring
    exact hstring
  split
  · rename_i h
    rw [← hpeek] at h
    refine ⟨c.advance.advance, ?_, ?_⟩
    · rw [token, if_pos h]
      rfl
    · rw [rest_advance, rest_advance, hrest]
      rfl
  rename_i heq
  split
  · rename_i h
    rw [← hpeek] at h heq
    refine ⟨c.advance.advance, ?_, ?_⟩
    · rw [token, if_neg heq, if_pos h]
      rfl
    · rw [rest_advance, rest_advance, hrest]
      rfl
  · rename_i hl hd hq hbang
    rw [← hpeek] at heq hbang
    refine ⟨c.advance, ?_, ?_⟩
    · rw [token, if_neg heq, if_neg hbang]
      cases Kind.ofSymbol? c.ch with
      | some k => rfl
      | none => simp [hl, hd, hq, Nat.not_le_of_lt hlt]
    · rw [rest_advance, hrest]
      rfl

/-- The cursor reads the next token of what is left, and leaves what is left after it. -/
theorem next_eq (c : Cursor input) :
    ∃ d, c.next = some ((read c.rest).1, d) ∧ d.rest = (read c.rest).2 := by
  have h := (c.skip isBlank (by decide)).token_eq
  rw [(skip_eq isBlank _ c).1] at h
  exact h

theorem tokenAt_eq (c : Cursor input) (k : Nat) : c.tokenAt k = some (readAt c.rest k) := by
  induction k generalizing c with
  | zero =>
    obtain ⟨d, hnext, -⟩ := c.next_eq
    rw [tokenAt, hnext]
    rfl
  | succ k ih =>
    obtain ⟨d, hnext, hrest⟩ := c.next_eq
    rw [tokenAt, hnext, readAt, ← hrest]
    exact ih d

end Cursor

/-! ## 4. The whole text -/

/-- Scanning loses nothing.  However often the next token is asked for, no piece outside the text is
taken: the tokens come one after the other, at most one for each character, and then the end of the
text for ever.  They are the tokens into which the text is cut, and it can be cut in no other
way. -/
theorem scan_lossless (input : List Char) :
    (∀ k, (Cursor.start input).tokenAt k = some ((scan input).getD k endOfText)) ∧
    (scan input).length ≤ input.length ∧
    ∀ ts, scan input = ts ↔ Cut input ts := by
  refine ⟨fun k => ?_, length_scan_le input, fun ts => scan_eq_iff_cut⟩
  rw [Cursor.tokenAt_eq, readAt_eq]
  rfl

end Monkey.Token

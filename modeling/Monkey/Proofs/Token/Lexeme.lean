import Mathlib
import Monkey.Token.Scan

/-!
# The texts of tokens

The kind of a token settles what its text can be.  Scanning makes only tokens with a text of their
kind, and the spelling of such a token scans back to it, if what follows cannot be read as a part of
it.
-/

namespace Monkey.Token

/-- The text of a kind of token that has only one. -/
def Kind.text? : Kind → Option String
  | assign => some "="
  | plus => some "+"
  | minus => some "-"
  | bang => some "!"
  | asterisk => some "*"
  | slash => some "/"
  | lessThan => some "<"
  | greaterThan => some ">"
  | equal => some "=="
  | notEqual => some "!="
  | comma => some ","
  | semicolon => some ";"
  | colon => some ":"
  | lparen => some "("
  | rparen => some ")"
  | lbrace => some "\x7b"
  | rbrace => some "\x7d"
  | lbracket => some "["
  | rbracket => some "]"
  | fnWord => some "fn"
  | letWord => some "let"
  | trueWord => some "true"
  | falseWord => some "false"
  | ifWord => some "if"
  | elseWord => some "else"
  | returnWord => some "return"
  | illegal | eof | ident | int | string => none

/-- One or more letters. -/
def IsWord (s : String) : Prop := s.toList ≠ [] ∧ ∀ c ∈ s.toList, isLetter c = true

/-- A word that is not reserved. -/
def IsName (s : String) : Prop := IsWord s ∧ Kind.ofWord s = .ident

-- Through `List.all`, so that the instance does not search among all characters.
instance : DecidablePred IsWord := fun s =>
  have h : s.toList ≠ [] ∧ s.toList.all isLetter = true ↔ IsWord s := by
    rw [IsWord, List.all_eq_true]
  decidable_of_decidable_of_iff h

instance : DecidablePred IsName := fun _ => inferInstanceAs (Decidable (_ ∧ _))

/-- One or more digits. -/
def IsNumber (s : String) : Prop := s.toList ≠ [] ∧ ∀ c ∈ s.toList, c.isDigit = true

/-- A character that neither separates tokens nor begins one. -/
def IsStray (c : Char) : Prop :=
  isBlank c = false ∧ isLetter c = false ∧ c.isDigit = false ∧ c ≠ '"' ∧ Kind.ofSymbol? c = none

/-- The text of the token is one that its kind allows. -/
def IsLexeme (t : Token) : Prop :=
  match t.kind with
  | .illegal => ∃ c, IsStray c ∧ t.literal = String.singleton c
  | .eof => False
  | .ident => IsName t.literal
  | .int => IsNumber t.literal
  | .string => '"' ∉ t.literal.toList
  | k => k.text? = some t.literal

/-- A token of a kind that has only one text is known by its kind. -/
theorem IsLexeme.eq {t : Token} {s : String} (h : t.IsLexeme) (hs : t.kind.text? = some s) :
    t = ⟨t.kind, s⟩ := by
  obtain ⟨k, literal⟩ := t
  cases k <;> simp_all [IsLexeme, Kind.text?]

/-! ## Scanning -/

/-- A word that is reserved is the only text of its kind. -/
theorem ofWord_eq_ident_or (w : String) :
    Kind.ofWord w = .ident ∨ (Kind.ofWord w).text? = some w := by
  simp only [Kind.ofWord, reserved, List.lookup]
  -- one case for each reserved word, in which it equals `w`, and one for no reserved word
  repeat' split
  all_goals simp_all [Kind.text?]

theorem isLexeme_of_ofWord {w : String} (hw : IsWord w) : IsLexeme ⟨Kind.ofWord w, w⟩ := by
  rcases ofWord_eq_ident_or w with h | h
  · simp only [IsLexeme, h]
    exact ⟨hw, h⟩
  · generalize Kind.ofWord w = k at h
    cases k <;> simp_all [IsLexeme, Kind.text?]

theorem isLexeme_of_ofSymbol? {c : Char} {k : Kind} (h : Kind.ofSymbol? c = some k) :
    IsLexeme ⟨k, String.singleton c⟩ := by
  unfold Kind.ofSymbol? at h
  split at h
  all_goals simp_all
  all_goals subst h; rfl

theorem isLexeme_of_next? {cs rest : List Char} {t : Token}
    (hblank : ∀ c ∈ cs.head?, isBlank c = false) (h : next? cs = some (t, rest)) : t.IsLexeme := by
  cases cs with
  | nil => simp [next?] at h
  | cons c cs =>
    simp only [next?] at h
    -- in the order in which the scanner tries them: a word, a number, a string, a symbol of two
    -- characters (there are two), a single character
    split at h
    · rename_i hc
      cases h
      apply isLexeme_of_ofWord
      rw [IsWord, String.toList_ofList]
      refine ⟨by simp, fun d hd => ?_⟩
      rcases List.mem_cons.mp hd with rfl | hd
      · exact hc
      · exact List.mem_takeWhile_imp hd
    split at h
    · rename_i hc
      cases h
      show IsNumber _
      rw [IsNumber, String.toList_ofList]
      refine ⟨by simp, fun d hd => ?_⟩
      rcases List.mem_cons.mp hd with rfl | hd
      · exact hc
      · exact List.mem_takeWhile_imp hd
    split at h
    · cases h
      show '"' ∉ _
      rw [String.toList_ofList]
      intro hd
      simpa using List.mem_takeWhile_imp hd
    split at h
    · cases h
      rfl
    split at h
    · cases h
      rfl
    · rename_i hl hd hq _ _
      cases h
      cases hs : Kind.ofSymbol? c with
      | some k => exact isLexeme_of_ofSymbol? hs
      | none =>
        have hb : isBlank c = false := hblank c (by simp)
        exact ⟨c, ⟨hb, by simpa using hl, by simpa using hd, hq, hs⟩, rfl⟩

/-- The character at which a run ends is not of its class. -/
theorem head?_dropWhile_eq_false (p : Char → Bool) (cs : List Char) :
    ∀ c ∈ (cs.dropWhile p).head?, p c = false := by
  intro c hc
  have h := List.head?_dropWhile_not p cs
  rw [Option.mem_def.mp hc] at h
  exact h

theorem scan_eq (cs : List Char) :
    scan cs =
      match next? (cs.dropWhile isBlank) with
      | none => []
      | some (t, rest) => t :: scan rest := by
  rw [scan.eq_def]
  split
  · rename_i h
    rw [h]
  · rename_i t rest h
    show t :: scan rest = _
    rw [h]

@[simp] theorem scan_nil : scan [] = [] := by
  rw [scan_eq]
  rfl

/-- Every token of a text has a text that its kind allows. -/
theorem isLexeme_of_mem_scan {cs : List Char} {t : Token} (ht : t ∈ scan cs) : t.IsLexeme := by
  rw [scan_eq] at ht
  split at ht
  · simp at ht
  · rename_i u rest h
    -- the recursion goes on with a shorter text
    have hlt := Nat.lt_of_lt_of_le (next?_shorter h) (length_dropWhile_le isBlank cs)
    rcases List.mem_cons.mp ht with rfl | ht
    · exact isLexeme_of_next? (head?_dropWhile_eq_false isBlank cs) h
    · exact isLexeme_of_mem_scan ht
termination_by cs.length

/-! ## Spelling -/

/-- How a token is written: a string between quotes, anything else as its text. -/
def spelling (t : Token) : List Char :=
  if t.kind = .string then '"' :: (t.literal.toList ++ ['"']) else t.literal.toList

/-- What follows the token is not read as a part of it. -/
def EndsBefore (t : Token) (cs : List Char) : Prop :=
  match t.kind with
  | .int => ∀ c ∈ cs.head?, c.isDigit = false
  | .assign | .bang => cs.head? ≠ some '='
  | .ident | .fnWord | .letWord | .trueWord | .falseWord | .ifWord | .elseWord | .returnWord =>
    ∀ c ∈ cs.head?, isLetter c = false
  | _ => True

theorem takeWhile_eq_nil_of_head? {p : Char → Bool} {cs : List Char}
    (h : ∀ c ∈ cs.head?, p c = false) : cs.takeWhile p = [] ∧ cs.dropWhile p = cs := by
  cases cs with
  | nil => exact ⟨rfl, rfl⟩
  | cons c cs =>
    have hc : p c = false := h c (by simp)
    simp [hc]

/-- A run of characters of one class ends where the next character is not of that class. -/
theorem takeWhile_append_of_head? {p : Char → Bool} (ws : List Char) {cs : List Char}
    (hw : ∀ c ∈ ws, p c = true) (h : ∀ c ∈ cs.head?, p c = false) :
    (ws ++ cs).takeWhile p = ws ∧ (ws ++ cs).dropWhile p = cs := by
  obtain ⟨ht, hd⟩ := takeWhile_eq_nil_of_head? h
  rw [List.takeWhile_append_of_pos hw, List.dropWhile_append_of_pos hw, ht, hd, List.append_nil]
  exact ⟨rfl, rfl⟩

theorem next?_word {w : String} {cs : List Char} (hw : IsWord w)
    (h : ∀ c ∈ cs.head?, isLetter c = false) :
    next? (w.toList ++ cs) = some (⟨Kind.ofWord w, w⟩, cs) := by
  obtain ⟨hne, hall⟩ := hw
  obtain ⟨c, ds, hcd⟩ := List.exists_cons_of_ne_nil hne
  have hc : isLetter c = true := hall c (by simp [hcd])
  obtain ⟨ht, hd⟩ := takeWhile_append_of_head? ds (fun d hd => hall d (by simp [hcd, hd])) h
  have hword : String.ofList (c :: ds) = w := by rw [← hcd, String.ofList_toList]
  simp only [hcd, List.cons_append, next?, hc, if_true, ht, hd, hword]

theorem isLetter_of_isDigit {c : Char} (h : c.isDigit = true) : isLetter c = false := by
  have hle : c.toNat ≤ 57 := by
    simp only [Char.isDigit, Bool.and_eq_true, decide_eq_true_eq] at h
    exact h.2
  have hne : c ≠ '_' := by
    rintro rfl
    exact absurd hle (by decide)
  -- every letter has a greater number than the digits
  simp [isLetter, hne, Char.isAlpha, Char.isUpper, Char.isLower, UInt32.le_iff_toNat_le]
  omega

theorem next?_number {w : String} {cs : List Char} (hw : IsNumber w)
    (h : ∀ c ∈ cs.head?, c.isDigit = false) :
    next? (w.toList ++ cs) = some (⟨.int, w⟩, cs) := by
  obtain ⟨hne, hall⟩ := hw
  obtain ⟨c, ds, hcd⟩ := List.exists_cons_of_ne_nil hne
  have hc : c.isDigit = true := hall c (by simp [hcd])
  have hl : isLetter c = false := isLetter_of_isDigit hc
  obtain ⟨ht, hd⟩ := takeWhile_append_of_head? ds (fun d hd => hall d (by simp [hcd, hd])) h
  have hword : String.ofList (c :: ds) = w := by rw [← hcd, String.ofList_toList]
  simp [hcd, List.cons_append, next?, hl, hc, ht, hd, hword]

theorem next?_quoted {s : String} {cs : List Char} (hs : '"' ∉ s.toList) :
    next? ('"' :: (s.toList ++ ['"']) ++ cs) = some (⟨.string, s⟩, cs) := by
  have hall : ∀ d ∈ s.toList, (d != '"') = true :=
    fun d hd => by simpa using fun he : d = '"' => hs (he ▸ hd)
  have hhead : ∀ d ∈ ('"' :: cs).head?, (d != '"') = false := by simp
  obtain ⟨ht, hd⟩ := takeWhile_append_of_head? s.toList hall hhead
  simp [next?, isLetter, ht, hd]

/-- The spelling of a token is read as this token. -/
theorem next?_spelling {t : Token} {cs : List Char} (ht : t.IsLexeme) (hcs : t.EndsBefore cs) :
    next? (t.spelling ++ cs) = some (t, cs) := by
  obtain ⟨k, s⟩ := t
  cases k with
  | illegal =>
    obtain ⟨c, ⟨-, hl, hd, hq, hs⟩, rfl⟩ := ht
    -- the beginnings of longer symbols are symbols themselves
    have he : c ≠ '=' := by rintro rfl; exact absurd hs (by decide)
    have hb : c ≠ '!' := by rintro rfl; exact absurd hs (by decide)
    simp [spelling, next?, hl, hd, hq, he, hb, hs]
  | eof => exact ht.elim
  | ident =>
    have h := next?_word ht.1 hcs
    rw [ht.2] at h
    exact h
  | int => exact next?_number ht hcs
  | string => exact next?_quoted ht
  | equal | notEqual =>
    cases ht
    simp [spelling, next?, isLetter]
  | fnWord | letWord | trueWord | falseWord | ifWord | elseWord | returnWord =>
    cases ht
    exact next?_word (by decide) hcs
  | assign | bang =>
    cases ht
    -- the only two symbols that begin a longer one
    have hne : cs.head? ≠ some '=' := hcs
    simp [spelling, next?, isLetter, Kind.ofSymbol?, hne]
  | _ =>
    cases ht
    simp [spelling, next?, isLetter, Kind.ofSymbol?]

/-- No character of a word or a number separates tokens. -/
theorem isBlank_eq_false {c : Char} (h : isLetter c = true ∨ c.isDigit = true) :
    isBlank c = false := by
  rw [← Bool.not_eq_true]
  intro hb
  simp only [isBlank, Bool.or_eq_true, beq_iff_eq] at hb
  rcases hb with ((rfl | rfl) | rfl) | rfl <;> exact absurd h (by decide)

theorem exists_spelling_eq_cons {t : Token} (ht : t.IsLexeme) :
    ∃ c ds, t.spelling = c :: ds ∧ isBlank c = false := by
  obtain ⟨k, s⟩ := t
  cases k with
  | illegal =>
    obtain ⟨c, hc, rfl⟩ := ht
    exact ⟨c, [], by simp [spelling], hc.1⟩
  | eof => exact ht.elim
  | ident =>
    obtain ⟨⟨hne, hall⟩, -⟩ := ht
    obtain ⟨c, ds, hcd⟩ := List.exists_cons_of_ne_nil hne
    exact ⟨c, ds, hcd, isBlank_eq_false (.inl (hall c (by simp [hcd])))⟩
  | int =>
    obtain ⟨hne, hall⟩ := ht
    obtain ⟨c, ds, hcd⟩ := List.exists_cons_of_ne_nil hne
    exact ⟨c, ds, hcd, isBlank_eq_false (.inr (hall c (by simp [hcd])))⟩
  | string => exact ⟨'"', _, rfl, by decide⟩
  | _ =>
    cases ht
    exact ⟨_, _, by simp only [spelling]; rfl, by decide⟩

theorem scan_blank {c : Char} (h : isBlank c = true) (cs : List Char) :
    scan (c :: cs) = scan cs := by
  rw [scan_eq, scan_eq cs, List.dropWhile_cons, if_pos h]

/-- Scanning takes a token off the front of its spelling. -/
theorem scan_spelling {t : Token} {cs : List Char} (ht : t.IsLexeme) (hcs : t.EndsBefore cs) :
    scan (t.spelling ++ cs) = t :: scan cs := by
  obtain ⟨c, ds, hcd, hb⟩ := exists_spelling_eq_cons ht
  have hdrop : (t.spelling ++ cs).dropWhile isBlank = t.spelling ++ cs := by
    rw [hcd, List.cons_append, List.dropWhile_cons, if_neg (by simp [hb])]
  rw [scan_eq, hdrop, next?_spelling ht hcs]

/-- With a blank after each of them, tokens are scanned one by one. -/
theorem scan_spaced {ts : List Token} (h : ∀ t ∈ ts, t.IsLexeme) :
    scan (ts.flatMap fun t => t.spelling ++ [' ']) = ts := by
  induction ts with
  | nil => exact scan_nil
  | cons t ts ih =>
    obtain ⟨ht, hts⟩ := List.forall_mem_cons.mp h
    have hcs (cs : List Char) : t.EndsBefore (' ' :: cs) := by
      unfold EndsBefore
      split <;> simp [isLetter]
    rw [List.flatMap_cons, List.append_assoc, List.singleton_append, scan_spelling ht (hcs _),
      scan_blank (by decide), ih hts]

end Monkey.Token

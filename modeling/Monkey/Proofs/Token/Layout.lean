import Monkey.Parsing
import Monkey.Proofs.Token.Concat

/-!
# Tokens and the blanks between them

`Cut cs ts` says that the text `cs` is the tokens `ts` written one after the other, with blanks
around them, where no token could have been longer.  Every text can be cut in exactly one way, and
scanning finds it.

So the blanks between the tokens do not matter, as long as there are any: a text with the same
tokens and other blanks is scanned and parsed in the same way.
-/

namespace Monkey.Token

/-! ## 1. Reading token after token -/

/-- The token that is read after `k` others.  Reading goes on at the end of the text. -/
def readAt (cs : List Char) : Nat → Token
  | 0 => (read cs).1
  | k + 1 => readAt (read cs).2 k

theorem read_of_next? {cs rest : List Char} {t : Token}
    (h : next? (cs.dropWhile isBlank) = some (t, rest)) : read cs = (t, rest) := by
  unfold read
  rw [h]
  rfl

theorem read_of_scan_eq_nil {cs : List Char} (h : scan cs = []) : read cs = (endOfText, []) := by
  unfold read
  cases hnext : next? (cs.dropWhile isBlank) with
  | none => rfl
  | some p =>
    rw [scan_of_next? hnext] at h
    contradiction

/-- Reading gives the tokens of the text in their order, and then the end of the text for ever. -/
theorem readAt_eq (cs : List Char) (k : Nat) : readAt cs k = (scan cs).getD k endOfText := by
  induction k generalizing cs with
  | zero =>
    cases hnext : next? (cs.dropWhile isBlank) with
    | none =>
      have hscan : scan cs = [] := by rw [scan_eq, hnext]
      rw [readAt, read_of_scan_eq_nil hscan, hscan]
      rfl
    | some p =>
      rw [readAt, read_of_next? hnext, scan_of_next? hnext]
      rfl
  | succ k ih =>
    cases hnext : next? (cs.dropWhile isBlank) with
    | none =>
      have hscan : scan cs = [] := by rw [scan_eq, hnext]
      rw [readAt, read_of_scan_eq_nil hscan, ih, hscan, scan_nil]
      rfl
    | some p =>
      rw [readAt, read_of_next? hnext, ih, scan_of_next? hnext]
      rfl

/-- Every token uses up a character, so there are not more tokens than characters. -/
theorem length_scan_le (cs : List Char) : (scan cs).length ≤ cs.length := by
  cases hnext : next? (cs.dropWhile isBlank) with
  | none =>
    have hscan : scan cs = [] := by rw [scan_eq, hnext]
    rw [hscan]
    exact Nat.zero_le _
  | some p =>
    obtain ⟨t, rest⟩ := p
    have hshorter := Nat.lt_of_lt_of_le (next?_shorter hnext) (length_dropWhile_le isBlank cs)
    have ih := length_scan_le rest
    rw [scan_of_next? hnext, List.length_cons]
    omega
termination_by cs.length

/-! ## 2. Texts cut into tokens -/

/-- Blanks and nothing else. -/
def IsGap (w : List Char) : Prop := ∀ c ∈ w, isBlank c = true

/-- The kinds of words: identifiers and keywords. -/
def Kind.isWord : Kind → Bool
  | ident | fnWord | letWord | trueWord | falseWord | ifWord | elseWord | returnWord => true
  | _ => false

/-- The token is written as `s` where `rest` follows, and what follows cannot make it longer.  Only
a string at the end of the text may lack its closing quote, and the keywords are the words that are
reserved. -/
structure Fits (t : Token) (s rest : List Char) : Prop where
  written : s = t.spelling ∨ t.kind = .string ∧ rest = [] ∧ s = '"' :: t.literal.toList
  lexeme : t.IsLexeme
  word : t.kind.isWord = true →
    IsWord t.literal ∧ t.kind = Kind.ofWord t.literal ∧ (t.kind ≠ .ident ↔ t.literal ∈ keywords)
  ends : t.EndsBefore rest

/-- The text is cut into the tokens: blanks, the first token, blanks, the second token, and so on,
and blanks at the end. -/
inductive Cut : List Char → List Token → Prop where
  | done {w : List Char} : IsGap w → Cut w []
  | token {w s rest : List Char} {t : Token} {ts : List Token} :
      IsGap w → t.Fits s rest → Cut rest ts → Cut (w ++ (s ++ rest)) (t :: ts)

theorem IsGap.append {v w : List Char} (hv : IsGap v) (hw : IsGap w) : IsGap (v ++ w) :=
  List.forall_mem_append.mpr ⟨hv, hw⟩

theorem isGap_takeWhile (cs : List Char) : IsGap (cs.takeWhile isBlank) :=
  fun _ => List.mem_takeWhile_imp

/-- No blank has to stand before a token. -/
theorem Fits.cut {t : Token} {s rest : List Char} {ts : List Token} (ht : t.Fits s rest)
    (h : Cut rest ts) : Cut (s ++ rest) (t :: ts) := by
  have hnil : IsGap [] := fun _ hc => nomatch hc
  exact .token hnil ht h

/-- More blanks may stand in front. -/
theorem Cut.gap {w cs : List Char} {ts : List Token} (hw : IsGap w) (h : Cut cs ts) :
    Cut (w ++ cs) ts := by
  cases h with
  | done hv => exact .done (hw.append hv)
  | @token v s rest t ts hv ht hrest =>
    rw [← List.append_assoc]
    exact .token (hw.append hv) ht hrest

/-- A word is a keyword exactly when it is reserved. -/
theorem IsLexeme.word {t : Token} (h : t.IsLexeme) (ht : t.kind.isWord = true) :
    IsWord t.literal ∧ t.kind = Kind.ofWord t.literal ∧
      (t.kind ≠ .ident ↔ t.literal ∈ keywords) := by
  obtain ⟨k, w⟩ := t
  cases k with
  | ident =>
    obtain ⟨hword, hname⟩ : IsName w := h
    refine ⟨hword, hname.symm, fun hne => absurd rfl hne, fun hmem => ?_⟩
    -- none of the reserved words is an identifier
    have hall : ∀ x ∈ keywords, Kind.ofWord x ≠ .ident := by decide
    exact absurd hname (hall w hmem)
  | fnWord | letWord | trueWord | falseWord | ifWord | elseWord | returnWord =>
    cases h
    decide
  | _ => contradiction

theorem IsLexeme.fits {t : Token} {s rest : List Char} (h : t.IsLexeme)
    (hs : s = t.spelling ∨ t.kind = .string ∧ rest = [] ∧ s = '"' :: t.literal.toList)
    (hrest : t.EndsBefore rest) : t.Fits s rest := ⟨hs, h, h.word, hrest⟩

theorem isWord_ofWord (w : String) : (Kind.ofWord w).isWord = true := by
  simp only [Kind.ofWord, reserved, List.lookup]
  -- one case for each reserved word, and one for no reserved word
  repeat' split
  all_goals rfl

theorem endsBefore_of_isWord {t : Token} {cs : List Char} (ht : t.kind.isWord = true)
    (h : ∀ c ∈ cs.head?, isLetter c = false) : t.EndsBefore cs := by
  obtain ⟨k, s⟩ := t
  cases k <;> first | exact h | contradiction

/-- A single character that begins `==` or `!=` is a token of its own only before other
characters. -/
theorem endsBefore_ofSymbol? {c : Char} {cs : List Char}
    (heq : ¬(c = '=' ∧ cs.head? = some '=')) (hbang : ¬(c = '!' ∧ cs.head? = some '=')) :
    EndsBefore ⟨(Kind.ofSymbol? c).getD .illegal, String.singleton c⟩ cs := by
  unfold Kind.ofSymbol?
  split <;> simp_all [EndsBefore]

/-- What is not a string is written as its text. -/
theorem spelling_of_ne_string {t : Token} (h : t.kind ≠ .string) :
    t.spelling = t.literal.toList := if_neg h

theorem ofSymbol?_ne_string (c : Char) : (Kind.ofSymbol? c).getD .illegal ≠ .string := by
  unfold Kind.ofSymbol?
  split <;> decide

theorem spelling_ofWord (cs : List Char) :
    spelling ⟨Kind.ofWord (String.ofList cs), String.ofList cs⟩ = cs := by
  have hne : Kind.ofWord (String.ofList cs) ≠ .string := by
    intro h
    have hword := isWord_ofWord (String.ofList cs)
    rw [h] at hword
    contradiction
  rw [spelling_of_ne_string hne, String.toList_ofList]

/-- A string runs to the next quote, which belongs to it, or to the end of the text. -/
theorem fits_string (cs : List Char) :
    ∃ s, '"' :: cs = s ++ (cs.dropWhile (· != '"')).tail ∧
      Fits ⟨.string, String.ofList (cs.takeWhile (· != '"'))⟩ s (cs.dropWhile (· != '"')).tail := by
  have hlexeme : IsLexeme ⟨.string, String.ofList (cs.takeWhile (· != '"'))⟩ := by
    show '"' ∉ (String.ofList _).toList
    rw [String.toList_ofList]
    intro hd
    simpa using List.mem_takeWhile_imp hd
  have hsplit := List.takeWhile_append_dropWhile (p := (· != '"')) (l := cs)
  cases hrest : cs.dropWhile (· != '"') with
  | nil =>
    rw [hrest, List.append_nil] at hsplit
    refine ⟨'"' :: cs, (List.append_nil _).symm, hlexeme.fits (.inr ⟨rfl, rfl, ?_⟩) trivial⟩
    rw [String.toList_ofList, hsplit]
  | cons d ds =>
    have hd : (d != '"') = false :=
      head?_dropWhile_eq_false (· != '"') cs d (by rw [hrest]; rfl)
    obtain rfl : d = '"' := by simpa using hd
    rw [hrest] at hsplit
    refine ⟨'"' :: (cs.takeWhile (· != '"') ++ ['"']), ?_, hlexeme.fits (.inl ?_) trivial⟩
    · rw [List.cons_append, List.append_assoc]
      exact congrArg ('"' :: ·) hsplit.symm
    · show _ = '"' :: ((String.ofList _).toList ++ ['"'])
      rw [String.toList_ofList]

/-- What the scanner takes for the first token is written there, and could not be longer. -/
theorem fits_of_next? {cs rest : List Char} {t : Token}
    (hblank : ∀ c ∈ cs.head?, isBlank c = false) (h : next? cs = some (t, rest)) :
    ∃ s, cs = s ++ rest ∧ t.Fits s rest := by
  have hlexeme := isLexeme_of_next? hblank h
  cases cs with
  | nil => simp [next?] at h
  | cons c cs =>
    simp only [next?] at h
    -- in the order in which the scanner tries them
    split at h
    · cases h
      refine ⟨c :: cs.takeWhile isLetter, ?_, hlexeme.fits (.inl (spelling_ofWord _).symm) ?_⟩
      · rw [List.cons_append, List.takeWhile_append_dropWhile]
      · exact endsBefore_of_isWord (isWord_ofWord _) (head?_dropWhile_eq_false isLetter cs)
    split at h
    · cases h
      refine ⟨c :: cs.takeWhile Char.isDigit, ?_, hlexeme.fits (.inl ?_) ?_⟩
      · rw [List.cons_append, List.takeWhile_append_dropWhile]
      · exact String.toList_ofList.symm
      · exact head?_dropWhile_eq_false Char.isDigit cs
    split at h
    · rename_i hc
      cases h
      subst hc
      exact fits_string cs
    split at h
    · rename_i hc
      cases h
      obtain ⟨ds, rfl⟩ := List.head?_eq_some_iff.mp hc.2
      exact ⟨['=', '='], by rw [hc.1]; rfl, hlexeme.fits (.inl rfl) trivial⟩
    split at h
    · rename_i hc
      cases h
      obtain ⟨ds, rfl⟩ := List.head?_eq_some_iff.mp hc.2
      exact ⟨['!', '='], by rw [hc.1]; rfl, hlexeme.fits (.inl rfl) trivial⟩
    · rename_i heq hbang
      cases h
      refine ⟨[c], rfl, hlexeme.fits (.inl ?_) (endsBefore_ofSymbol? heq hbang)⟩
      rw [spelling_of_ne_string (ofSymbol?_ne_string c), String.toList_singleton]

/-- The scanner cuts the text. -/
theorem cut_scan (cs : List Char) : Cut cs (scan cs) := by
  have hsplit := List.takeWhile_append_dropWhile (p := isBlank) (l := cs)
  cases hnext : next? (cs.dropWhile isBlank) with
  | none =>
    have hscan : scan cs = [] := by rw [scan_eq, hnext]
    have hnil : cs.dropWhile isBlank = [] := by
      cases hcs : cs.dropWhile isBlank with
      | nil => rfl
      | cons c rest =>
        rw [hcs] at hnext
        exact absurd hnext (next?_cons_ne_none c rest)
    rw [hnil, List.append_nil] at hsplit
    rw [hscan, ← hsplit]
    exact .done (isGap_takeWhile cs)
  | some p =>
    obtain ⟨t, rest⟩ := p
    have hshorter := Nat.lt_of_lt_of_le (next?_shorter hnext) (length_dropWhile_le isBlank cs)
    obtain ⟨s, hs, ht⟩ := fits_of_next? (head?_dropWhile_eq_false isBlank cs) hnext
    rw [hs] at hsplit
    rw [scan_of_next? hnext]
    nth_rewrite 1 [← hsplit]
    exact .token (isGap_takeWhile cs) ht (cut_scan rest)
termination_by cs.length

theorem scan_gap {w : List Char} (hw : IsGap w) (cs : List Char) : scan (w ++ cs) = scan cs := by
  rw [scan_eq, scan_eq cs, List.dropWhile_append_of_pos hw]

/-- A string that is not closed is read to the end. -/
theorem scan_unclosed {s : String} (hs : '"' ∉ s.toList) :
    scan ('"' :: s.toList) = [⟨.string, s⟩] := by
  have hall : ∀ d ∈ s.toList, (d != '"') = true :=
    fun d hd => by simpa using fun he : d = '"' => hs (he ▸ hd)
  have hend : ∀ d ∈ ([] : List Char).head?, (d != '"') = false := fun _ hd => nomatch hd
  obtain ⟨ht, hd⟩ := takeWhile_append_of_head? s.toList hall hend
  rw [List.append_nil] at ht hd
  have hblank : ('"' :: s.toList).dropWhile isBlank = '"' :: s.toList :=
    List.dropWhile_cons_of_neg (by decide)
  have hnext : next? (('"' :: s.toList).dropWhile isBlank) = some (⟨.string, s⟩, []) := by
    rw [hblank]
    simp [next?, isLetter, ht, hd]
  rw [scan_of_next? hnext, scan_nil]

/-- A text is cut in one way only: into its tokens. -/
theorem Cut.scan_eq {cs : List Char} {ts : List Token} (h : Cut cs ts) : scan cs = ts := by
  induction h with
  | @done w hw =>
    rw [← List.append_nil w, scan_gap hw, scan_nil]
  | @token w s rest t ts hw ht _ ih =>
    rw [scan_gap hw]
    rcases ht.written with rfl | ⟨hk, rfl, rfl⟩
    · rw [scan_spelling ht.lexeme ht.ends, ih]
    · obtain ⟨k, literal⟩ := t
      obtain rfl : k = .string := hk
      rw [scan_nil] at ih
      rw [List.append_nil, scan_unclosed ht.lexeme, ← ih]

theorem scan_eq_iff_cut {cs : List Char} {ts : List Token} : scan cs = ts ↔ Cut cs ts :=
  ⟨fun h => h ▸ cut_scan cs, Cut.scan_eq⟩

/-! ## 3. Other blanks -/

/-- Blanks that may stand before the first token and after the last one. -/
structure Gap where
  chars : List Char
  blank : IsGap chars

/-- Blanks that may stand between two tokens: there is at least one. -/
structure Separator extends Gap where
  ne_nil : chars ≠ []

/-- The tokens written one after the other with separators between them. -/
def layOut (separator : Nat → Separator) : List Token → List Char
  | [] => []
  | [t] => t.spelling
  | t :: u :: ts =>
    t.spelling ++ ((separator 0).chars ++ layOut (fun k => separator (k + 1)) (u :: ts))

/-- Blanks do not make a token longer. -/
theorem endsBefore_of_isBlank (t : Token) {cs : List Char}
    (h : ∀ c ∈ cs.head?, isBlank c = true) : t.EndsBefore cs := by
  have hnone (c : Char) (hc : c ∈ cs.head?) :
      isLetter c = false ∧ c.isDigit = false ∧ c ≠ '=' := by
    have hblank := h c hc
    refine ⟨?_, ?_, ?_⟩
    · by_contra hl
      rw [isBlank_eq_false (.inl (by simpa using hl))] at hblank
      contradiction
    · by_contra hd
      rw [isBlank_eq_false (.inr (by simpa using hd))] at hblank
      contradiction
    · rintro rfl
      contradiction
  unfold EndsBefore
  split
  · exact fun c hc => (hnone c hc).2.1
  · exact fun hc => (hnone '=' hc).2.2 rfl
  · exact fun hc => (hnone '=' hc).2.2 rfl
  all_goals first | exact fun c hc => (hnone c hc).1 | trivial

theorem IsGap.head? {w : List Char} (hw : IsGap w) : ∀ c ∈ w.head?, isBlank c = true :=
  fun c hc => hw c (List.mem_of_mem_head? hc)

/-- Tokens that are laid out are cut where they were laid. -/
theorem cut_layOut (separator : Nat → Separator) (trail : Gap) {ts : List Token}
    (hts : ∀ t ∈ ts, t.IsLexeme) : Cut (layOut separator ts ++ trail.chars) ts := by
  induction ts generalizing separator with
  | nil => exact .done trail.blank
  | cons t ts ih =>
    obtain ⟨ht, hts⟩ := List.forall_mem_cons.mp hts
    cases ts with
    | nil =>
      have hfits : t.Fits t.spelling trail.chars :=
        ht.fits (.inl rfl) (endsBefore_of_isBlank t trail.blank.head?)
      exact hfits.cut (.done trail.blank)
    | cons u ts =>
      have hrest := (ih (fun k => separator (k + 1)) hts).gap (separator 0).blank
      rw [layOut, List.append_assoc, List.append_assoc]
      refine (ht.fits (.inl rfl) (endsBefore_of_isBlank t ?_)).cut hrest
      rw [List.head?_append_of_ne_nil _ (separator 0).ne_nil]
      exact (separator 0).blank.head?

/-- The blanks of a text do not matter.  If the tokens of a source are written again, with any
separators between them and any blanks around them, then reading gives the same tokens and then the
end of the text for ever, and parsing gives the same program and the same errors. -/
theorem parse_layOut (tracing : Bool) (source : String) (separator : Nat → Separator)
    (lead trail : Gap) :
    let text := lead.chars ++ (layOut separator (scan source.toList) ++ trail.chars)
    scan text = scan source.toList ∧
    (∀ k, readAt text k = (scan source.toList).getD k endOfText) ∧
    (parse tracing (String.ofList text)).program = (parse tracing source).program ∧
    (parse tracing (String.ofList text)).errors = (parse tracing source).errors := by
  intro text
  have hcut : Cut text (scan source.toList) :=
    (cut_layOut separator trail fun t => isLexeme_of_mem_scan).gap lead.blank
  have hscan : scan text = scan source.toList := hcut.scan_eq
  have hparse : parse tracing (String.ofList text) = parse tracing source := by
    unfold parse
    rw [String.toList_ofList, hscan]
  refine ⟨hscan, fun k => ?_, ?_, ?_⟩
  · rw [readAt_eq, hscan]
  · rw [hparse]
  · rw [hparse]

theorem isGap_nil : IsGap [] := fun _ hc => nomatch hc

theorem isGap_cons {c : Char} {w : List Char} (hc : isBlank c = true) (hw : IsGap w) :
    IsGap (c :: w) :=
  List.forall_mem_cons.mpr ⟨hc, hw⟩

/-- Two characters that begin no token, one of them NUL, and a string without its closing quote. -/
def unclosedText : String := "a@\x00 \"b c"

/-- A new line after the first token, and a blank with a tab after each of the others. -/
def newlineThenTabs : Nat → Separator
  | 0 => ⟨⟨['\n'], isGap_cons rfl isGap_nil⟩, List.cons_ne_nil _ _⟩
  | _ + 1 => ⟨⟨[' ', '\t'], isGap_cons rfl (isGap_cons rfl isGap_nil)⟩, List.cons_ne_nil _ _⟩

/-- These tokens written again, where the string gets its closing quote. -/
def unclosedLaidOut : String := "a\n@ \t\x00 \t\"b c\"\r"

theorem parse_layOut_unclosed :
    scan unclosedText.toList =
      [⟨.ident, "a"⟩, ⟨.illegal, "@"⟩, ⟨.illegal, "\x00"⟩, ⟨.string, "b c"⟩] ∧
    layOut newlineThenTabs (scan unclosedText.toList) ++ ['\r'] = unclosedLaidOut.toList ∧
    scan unclosedLaidOut.toList = scan unclosedText.toList ∧
    (parse false unclosedLaidOut).program = (parse false unclosedText).program ∧
    (parse false unclosedLaidOut).errors = (parse false unclosedText).errors := by
  have hscan : scan unclosedText.toList =
      [⟨.ident, "a"⟩, ⟨.illegal, "@"⟩, ⟨.illegal, "\x00"⟩, ⟨.string, "b c"⟩] := by
    cbv
  have htext : layOut newlineThenTabs (scan unclosedText.toList) ++ ['\r'] =
      unclosedLaidOut.toList := by
    rw [hscan]
    rfl
  obtain ⟨hsame, -, hprogram, herrors⟩ := parse_layOut false unclosedText newlineThenTabs
    ⟨[], isGap_nil⟩ ⟨['\r'], isGap_cons rfl isGap_nil⟩
  rw [List.nil_append, htext] at hsame
  rw [List.nil_append, htext, String.ofList_toList] at hprogram herrors
  exact ⟨hscan, htext, hsame, hprogram, herrors⟩

end Monkey.Token

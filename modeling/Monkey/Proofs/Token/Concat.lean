import Monkey.Proofs.Token.Lexeme

/-!
# Scanning one text after another

The tokens of two texts, one written after the other, need not be the tokens of the first and then
those of the second: a word, a number, a string or a symbol may run over the border.  They are if
the last token of the first text is a semicolon, which no character after it can make longer.
-/

namespace Monkey.Token

/-- A run of characters that ends within the first text is the same with another text behind. -/
theorem takeWhile_append_of_dropWhile_ne_nil {p : Char → Bool} {cs : List Char}
    (h : cs.dropWhile p ≠ []) (ds : List Char) :
    (cs ++ ds).takeWhile p = cs.takeWhile p ∧ (cs ++ ds).dropWhile p = cs.dropWhile p ++ ds := by
  have hhead : ∀ c ∈ (cs.dropWhile p ++ ds).head?, p c = false := by
    rw [List.head?_append_of_ne_nil _ h]
    exact head?_dropWhile_eq_false p cs
  have hsplit : cs ++ ds = cs.takeWhile p ++ (cs.dropWhile p ++ ds) := by
    rw [← List.append_assoc, List.takeWhile_append_dropWhile]
  rw [hsplit]
  exact takeWhile_append_of_head? _ (fun _ => List.mem_takeWhile_imp) hhead

theorem ofWord_ne_semicolon (w : String) : Kind.ofWord w ≠ .semicolon := by
  simp only [Kind.ofWord, reserved, List.lookup]
  repeat' split
  all_goals decide

/-- A token is the same with another text behind, if characters were left after it or it is a
semicolon. -/
theorem next?_append {cs rest : List Char} {t : Token} (h : next? cs = some (t, rest))
    (hend : rest ≠ [] ∨ t.kind = .semicolon) (ds : List Char) :
    next? (cs ++ ds) = some (t, rest ++ ds) := by
  cases cs with
  | nil => simp [next?] at h
  | cons c cs =>
    simp only [next?] at h
    simp only [List.cons_append, next?]
    -- in the order in which the scanner tries them; only a single character can be a semicolon
    split at h
    · rename_i hc
      cases h
      have hne := hend.resolve_right (ofWord_ne_semicolon _)
      obtain ⟨ht, hd⟩ := takeWhile_append_of_dropWhile_ne_nil hne ds
      rw [if_pos hc, ht, hd]
    rename_i hl
    rw [if_neg hl]
    split at h
    · rename_i hc
      cases h
      have hne : cs.dropWhile Char.isDigit ≠ [] := hend.resolve_right (by simp)
      obtain ⟨ht, hd⟩ := takeWhile_append_of_dropWhile_ne_nil hne ds
      rw [if_pos hc, ht, hd]
    rename_i hd
    rw [if_neg hd]
    split at h
    · rename_i hc
      cases h
      have htail : (cs.dropWhile (· != '"')).tail ≠ [] := hend.resolve_right (by simp)
      have hne : cs.dropWhile (· != '"') ≠ [] := by
        intro hnil
        rw [hnil] at htail
        exact htail rfl
      obtain ⟨ht, hd⟩ := takeWhile_append_of_dropWhile_ne_nil hne ds
      rw [if_pos hc, ht, hd, List.tail_append_of_ne_nil hne]
    rename_i hq
    rw [if_neg hq]
    split at h
    · rename_i hc
      cases h
      obtain ⟨hc, hhead⟩ := hc
      have hne : cs ≠ [] := by rintro rfl; simp at hhead
      rw [List.head?_append_of_ne_nil _ hne, if_pos ⟨hc, hhead⟩, List.tail_append_of_ne_nil hne]
    rename_i heq
    split at h
    · rename_i hc
      cases h
      obtain ⟨hc, hhead⟩ := hc
      have hne : cs ≠ [] := by rintro rfl; simp at hhead
      rw [List.head?_append_of_ne_nil _ hne, if_neg heq, if_pos ⟨hc, hhead⟩,
        List.tail_append_of_ne_nil hne]
    rename_i hbang
    cases h
    rcases hend with hne | hsemi
    · rw [List.head?_append_of_ne_nil _ hne, if_neg heq, if_neg hbang]
    · -- the beginnings of longer symbols are not semicolons
      have hceq : c ≠ '=' := by rintro rfl; exact absurd hsemi (by decide)
      have hcbang : c ≠ '!' := by rintro rfl; exact absurd hsemi (by decide)
      rw [if_neg (fun h => hceq h.1), if_neg (fun h => hcbang h.1)]

theorem scan_of_next? {cs rest : List Char} {t : Token}
    (h : next? (cs.dropWhile isBlank) = some (t, rest)) : scan cs = t :: scan rest := by
  rw [scan_eq, h]

/-- Whatever is not the end of the text begins a token. -/
theorem next?_cons_ne_none (c : Char) (cs : List Char) : next? (c :: cs) ≠ none := by
  simp only [next?]
  split_ifs
  all_goals exact Option.some_ne_none _

/-- A text without tokens is blank, so nothing of it is left before another text. -/
theorem scan_append_of_eq_nil {cs : List Char} (h : scan cs = []) (ds : List Char) :
    scan (cs ++ ds) = scan ds := by
  have hblank : cs.dropWhile isBlank = [] := by
    cases hcs : cs.dropWhile isBlank with
    | nil => rfl
    | cons c rest =>
      obtain ⟨p, hp⟩ := Option.ne_none_iff_exists'.mp (next?_cons_ne_none c rest)
      rw [← hcs] at hp
      rw [scan_of_next? hp] at h
      contradiction
  have hall : ∀ c ∈ cs, isBlank c = true := by
    intro c hc
    exact List.dropWhile_eq_nil_iff.mp hblank c hc
  rw [scan_eq, scan_eq ds, List.dropWhile_append_of_pos hall]

/-- After a text that ends with a semicolon, another text keeps its own tokens. -/
theorem scan_append (cs ds : List Char)
    (h : (scan cs).getLast?.map Token.kind = some .semicolon) :
    scan (cs ++ ds) = scan cs ++ scan ds := by
  cases hnext : next? (cs.dropWhile isBlank) with
  | none =>
    rw [scan_eq, hnext] at h
    contradiction
  | some p =>
    obtain ⟨t, rest⟩ := p
    have hscan := scan_of_next? hnext
    have hshorter := Nat.lt_of_lt_of_le (next?_shorter hnext) (length_dropWhile_le isBlank cs)
    -- blanks at the front end where the first token begins, within the first text
    have hne : cs.dropWhile isBlank ≠ [] := by
      intro hnil
      rw [hnil] at hnext
      contradiction
    rw [hscan] at h
    have hfirst (ends : rest ≠ [] ∨ t.kind = .semicolon) :
        scan (cs ++ ds) = t :: scan (rest ++ ds) := by
      apply scan_of_next?
      rw [(takeWhile_append_of_dropWhile_ne_nil hne ds).2, next?_append hnext ends]
    cases hrest : scan rest with
    | nil =>
      -- this is the last token
      rw [hrest] at h
      have hsemi : t.kind = .semicolon := Option.some.inj h
      rw [hfirst (.inr hsemi), hscan, scan_append_of_eq_nil hrest, hrest]
      rfl
    | cons u us =>
      -- more tokens follow, and the last of them is the last of all
      have hnonempty : rest ≠ [] := by
        rintro rfl
        rw [scan_nil] at hrest
        contradiction
      have hlast : (scan rest).getLast?.map Token.kind = some .semicolon := by
        rw [hrest] at h ⊢
        rw [List.getLast?_cons_cons] at h
        exact h
      rw [hfirst (.inl hnonempty), hscan, scan_append rest ds hlast]
      rfl
termination_by cs.length

end Monkey.Token

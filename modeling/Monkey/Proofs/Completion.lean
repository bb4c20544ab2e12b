import Mathlib
import Monkey.Session.Completion

/-!
# What a text is completed to

The word at the end of a text is its longest ending of letters and underscores.  What should come
of it is plain: the text before the word with each name that begins with the word.

The word is found in the encoded text, one byte after the beginning of the last character that is no
part of a word.  That is where the word begins if this character has one byte.  After a longer
character the rest of its bytes counts as part of the word, and since no name begins with such a
byte, there is nothing to complete.
-/

namespace Monkey.Completion

/-! ## 1. The word at the end -/

/-- The text `cs` is `before` and then `word`, its longest ending of characters of words. -/
structure IsLastWord (cs before word : List Char) : Prop where
  append_eq : before ++ word = cs
  isWord : ∀ c ∈ word, isWordChar c
  longest : ∀ tail, tail <:+ cs → (∀ c ∈ tail, isWordChar c) → tail <:+ word

/-- What comes before the word is empty or ends in a character that is no part of it. -/
theorem lastWord_cases (cs : List Char) :
    (lastWord cs).1 = [] ∨ ∃ init c, (lastWord cs).1 = init ++ [c] ∧ isWordChar c = false := by
  have hlast : (lastWord cs).1 = cs.rdropWhile isWordChar := rfl
  rw [hlast]
  by_cases hnil : cs.rdropWhile isWordChar = []
  · exact .inl hnil
  · refine .inr ⟨_, _, (List.dropLast_append_getLast hnil).symm, ?_⟩
    simpa using List.rdropWhile_last_not isWordChar cs hnil

theorem isLastWord_lastWord (cs : List Char) : IsLastWord cs (lastWord cs).1 (lastWord cs).2 := by
  have happend : (lastWord cs).1 ++ (lastWord cs).2 = cs := List.rdropWhile_append_rtakeWhile
  refine ⟨happend, fun c hc => List.mem_rtakeWhile_imp hc, fun tail htail hword => ?_⟩
  have hsuffix : (lastWord cs).2 <:+ cs := List.rtakeWhile_suffix isWordChar cs
  by_cases hle : tail.length ≤ (lastWord cs).2.length
  · exact List.suffix_of_suffix_length_le htail hsuffix hle
  -- a longer ending would hold the character before the word
  exfalso
  obtain ⟨front, hfront⟩ := List.suffix_of_suffix_length_le hsuffix htail (by omega)
  rcases lastWord_cases cs with hnil | ⟨init, c, hinit, hc⟩
  · rw [hnil, List.nil_append] at happend
    have hlength := htail.length_le
    rw [← happend] at hlength
    omega
  · obtain ⟨more, hmore⟩ := htail
    rw [← hfront, ← List.append_assoc] at hmore
    rw [hinit] at happend
    have hends : more ++ front = init ++ [c] :=
      List.append_cancel_right (hmore.trans happend.symm)
    have hne : front ≠ [] := by
      rintro rfl
      rw [List.nil_append] at hfront
      rw [hfront] at hle
      exact hle (Nat.le_refl _)
    have hmem : c ∈ front := by
      have hlast := congrArg List.getLast? hends
      rw [List.getLast?_append_of_ne_nil _ hne, List.getLast?_concat] at hlast
      exact List.mem_of_getLast? hlast
    have hwordChar := hword c (hfront ▸ List.mem_append_left _ hmem)
    rw [hc] at hwordChar
    contradiction

/-- The text before a word with each name that begins with the word, in the order of the names.
There are none for the empty word. -/
def completions (before word : List Char) : List String :=
  if word = [] then []
  else (names.filter fun name => word.isPrefixOf name.toList).map (String.ofList before ++ ·)

theorem candidates_eq (s : String) :
    candidates s =
      if startsWord (lastWord s.toList).1 then
        completions (lastWord s.toList).1 (lastWord s.toList).2
      else [] := by
  unfold candidates completions
  by_cases hstarts : startsWord (lastWord s.toList).1 = true
  · by_cases hword : (lastWord s.toList).2 = [] <;> simp [hstarts, hword]
  · simp [hstarts]

/-- A completion has the text before the word, the word, and what is left of the name. -/
theorem prefix_of_mem_completions {before word : List Char} {t : String}
    (ht : t ∈ completions before word) : before ++ word <+: t.toList := by
  unfold completions at ht
  by_cases hword : word = []
  · simp [hword] at ht
  rw [if_neg hword, List.mem_map] at ht
  obtain ⟨name, hname, rfl⟩ := ht
  have hprefix : word <+: name.toList := List.isPrefixOf_iff_prefix.mp (List.mem_filter.mp hname).2
  rw [String.toList_append, String.toList_ofList]
  exact (List.prefix_append_right_inj before).mpr hprefix

theorem completions_eq_nil_iff {before word : List Char} :
    completions before word = [] ↔ word = [] ∨ ∀ name ∈ names, ¬word <+: name.toList := by
  unfold completions
  by_cases hword : word = []
  · simp [hword]
  · simp [hword, List.filter_eq_nil_iff]

/-! ## 2. The word in the encoded text -/

/-- The place of the byte at which the last character begins that is no part of a word. -/
def lastBreak? : List Char → Option Nat
  | [] => none
  | c :: cs =>
    match lastBreak? cs with
    | some i => some (c.utf8Size + i)
    | none => if isWordChar c then none else some 0

/-- The names that begin with the bytes of a word, each after the bytes before the word. -/
def completeBytes (before word : List UInt8) : List (List UInt8) :=
  if word.isEmpty then []
  else ((names.map Utf8.encode).filter fun name => word.isPrefixOf name).map (before ++ ·)

/-- Completion as it is done on bytes: the encoded text is cut after the first byte of the last
character that is no part of a word. -/
def byteCandidates (s : String) : List (List UInt8) :=
  let start := (lastBreak? s.toList).elim 0 (· + 1)
  completeBytes ((Utf8.encode s).take start) ((Utf8.encode s).drop start)

/-- The bytes of characters. -/
def encoded (cs : List Char) : List UInt8 := cs.flatMap String.utf8EncodeChar

theorem encoded_append (cs ds : List Char) : encoded (cs ++ ds) = encoded cs ++ encoded ds :=
  List.flatMap_append

theorem lastBreak?_word {word : List Char} (h : ∀ c ∈ word, isWordChar c) :
    lastBreak? word = none := by
  induction word with
  | nil => rfl
  | cons c word ih =>
    rw [lastBreak?, ih fun d hd => h d (List.mem_cons_of_mem c hd)]
    exact if_pos (h c List.mem_cons_self)

/-- All characters before the last break count with all their bytes. -/
theorem lastBreak?_append (init word : List Char) {c : Char} (hc : isWordChar c = false)
    (h : ∀ d ∈ word, isWordChar d) :
    lastBreak? (init ++ c :: word) = some (encoded init).length := by
  induction init with
  | nil =>
    rw [List.nil_append, lastBreak?, lastBreak?_word h]
    exact if_neg (by rw [hc]; decide)
  | cons d init ih =>
    rw [List.cons_append, lastBreak?, ih]
    show some (d.utf8Size + (encoded init).length) =
      some (String.utf8EncodeChar d ++ encoded init).length
    rw [List.length_append, String.length_utf8EncodeChar]

/-! ## 3. Bytes of characters -/

/-- The characters have one byte each. -/
def Narrow (cs : List Char) : Prop := ∀ c ∈ cs, c.utf8Size = 1

theorem utf8Size_of_isWordChar {c : Char} (h : isWordChar c) : c.utf8Size = 1 := by
  rw [Char.utf8Size_eq_one_iff, UInt32.le_iff_toNat_le]
  show c.toNat ≤ 127
  unfold isWordChar at h
  simp only [Bool.or_eq_true, decide_eq_true_eq, Char.isAlpha, Char.isUpper, Char.isLower,
    Bool.and_eq_true, UInt32.le_iff_toNat_le, ge_iff_le] at h
  rcases h with rfl | ⟨-, h⟩ | ⟨-, h⟩
  · decide
  · exact Nat.le_trans h (by decide)
  · exact Nat.le_trans h (by decide)

theorem narrow_names : ∀ name ∈ names, Narrow name.toList := by
  have hnames : names.all (fun name => name.toList.all isWordChar) = true := by decide +kernel
  intro name hname c hc
  exact utf8Size_of_isWordChar (List.all_eq_true.mp (List.all_eq_true.mp hnames name hname) c hc)

/-- A character of one byte is known from its byte. -/
theorem eq_of_byte_eq {c d : Char} (hc : c.utf8Size = 1) (hd : d.utf8Size = 1)
    (h : c.val.toUInt8 = d.val.toUInt8) : c = d := by
  rw [Char.utf8Size_eq_one_iff, UInt32.le_iff_toNat_le] at hc hd
  have hbytes := congrArg UInt8.toNat h
  rw [UInt32.toNat_toUInt8, UInt32.toNat_toUInt8] at hbytes
  have hbound : (127 : UInt32).toNat = 127 := rfl
  apply Char.ext
  apply UInt32.toNat_inj.mp
  omega

theorem encoded_cons {c : Char} (hc : c.utf8Size = 1) (cs : List Char) :
    encoded (c :: cs) = c.val.toUInt8 :: encoded cs := by
  show String.utf8EncodeChar c ++ encoded cs = _
  rw [String.utf8EncodeChar_eq_singleton hc]
  rfl

theorem encoded_isPrefixOf {word name : List Char} (hword : Narrow word) (hname : Narrow name) :
    (encoded word).isPrefixOf (encoded name) = word.isPrefixOf name := by
  induction word generalizing name with
  | nil => rfl
  | cons c word ih =>
    have hc : c.utf8Size = 1 := hword c List.mem_cons_self
    cases name with
    | nil =>
      rw [encoded_cons hc]
      rfl
    | cons d name =>
      have hd : d.utf8Size = 1 := hname d List.mem_cons_self
      have hhead : (c.val.toUInt8 == d.val.toUInt8) = (c == d) := by
        rw [Bool.eq_iff_iff, beq_iff_eq, beq_iff_eq]
        exact ⟨eq_of_byte_eq hc hd, fun h => by rw [h]⟩
      have htail : (encoded word).isPrefixOf (encoded name) = word.isPrefixOf name :=
        ih (fun e he => hword e (List.mem_cons_of_mem c he))
          (fun e he => hname e (List.mem_cons_of_mem d he))
      rw [encoded_cons hc, encoded_cons hd, List.isPrefixOf_cons_cons, hhead, htail,
        List.isPrefixOf_cons_cons]

/-- The second byte of a longer character is no character by itself. -/
theorem exists_second_byte {c : Char} (h : c.utf8Size ≠ 1) :
    ∃ a b more, String.utf8EncodeChar c = a :: b :: more ∧ 128 ≤ b.toNat := by
  have hwide : ¬c.val.toNat ≤ 127 := fun hle =>
    h (Char.utf8Size_eq_one_iff.mpr (UInt32.le_iff_toNat_le.mpr hle))
  have hcontinues (n : Nat) : 128 ≤ (UInt8.ofNat (n % 64 + 128)).toNat := by
    rw [UInt8.toNat_ofNat']
    omega
  unfold String.utf8EncodeChar
  dsimp only
  rw [if_neg hwide]
  split
  · exact ⟨_, _, _, rfl, hcontinues _⟩
  split
  · exact ⟨_, _, _, rfl, hcontinues _⟩
  · exact ⟨_, _, _, rfl, hcontinues _⟩

/-- No name begins with such a byte. -/
theorem isPrefixOf_second_byte {b : UInt8} (hb : 128 ≤ b.toNat) (more : List UInt8)
    {name : List Char} (hname : Narrow name) : (b :: more).isPrefixOf (encoded name) = false := by
  cases name with
  | nil => rfl
  | cons d name =>
    have hd : d.utf8Size = 1 := hname d List.mem_cons_self
    have hne : b ≠ d.val.toUInt8 := by
      rintro rfl
      have hd := hd
      rw [Char.utf8Size_eq_one_iff, UInt32.le_iff_toNat_le] at hd
      have hbound : (127 : UInt32).toNat = 127 := rfl
      rw [UInt32.toNat_toUInt8] at hb
      omega
    rw [encoded_cons hd, List.isPrefixOf_cons_cons, beq_eq_false_iff_ne.mpr hne, Bool.false_and]

/-! ## 4. Completion on bytes -/

/-- If the cut falls between two characters, the names are those that begin with the word. -/
theorem completeBytes_encoded (before : List Char) {word : List Char} (hword : Narrow word) :
    completeBytes (encoded before) (encoded word) = (completions before word).map Utf8.encode := by
  unfold completeBytes completions
  by_cases hnil : word = []
  · subst hnil
    rfl
  have hbytes : ¬(encoded word).isEmpty = true := by
    obtain ⟨c, cs, rfl⟩ := List.exists_cons_of_ne_nil hnil
    rw [encoded_cons (hword c List.mem_cons_self)]
    exact Bool.false_ne_true
  have hfilter : (names.filter fun name => word.isPrefixOf name.toList) =
      names.filter ((fun name => (encoded word).isPrefixOf name) ∘ Utf8.encode) := by
    apply List.filter_congr
    intro name hname
    exact (encoded_isPrefixOf hword (narrow_names name hname)).symm
  have hencode (name : String) :
      Utf8.encode (String.ofList before ++ name) = encoded before ++ Utf8.encode name := by
    unfold Utf8.encode
    rw [String.toList_append, String.toList_ofList]
    exact encoded_append before name.toList
  rw [if_neg hbytes, if_neg hnil, hfilter, List.filter_map, List.map_map, List.map_map]
  exact List.map_congr_left fun name _ => (hencode name).symm

/-- If the cut falls inside a character, no name is left. -/
theorem completeBytes_second_byte (before : List UInt8) {b : UInt8} (hb : 128 ≤ b.toNat)
    (more : List UInt8) : completeBytes before (b :: more) = [] := by
  have hfilter : (names.map Utf8.encode).filter (fun name => (b :: more).isPrefixOf name) = [] := by
    rw [List.filter_eq_nil_iff]
    intro bytes hbytes
    obtain ⟨name, hname, rfl⟩ := List.mem_map.mp hbytes
    have hfalse := isPrefixOf_second_byte hb more (narrow_names name hname)
    show ¬(b :: more).isPrefixOf (encoded name.toList) = true
    rw [hfalse]
    decide
  unfold completeBytes
  rw [if_neg (by exact Bool.false_ne_true), hfilter]
  rfl

/-- The candidates are what completion on bytes gives. -/
theorem map_encode_candidates (s : String) :
    (candidates s).map Utf8.encode = byteCandidates s := by
  have hlast := isLastWord_lastWord s.toList
  have hcases := lastWord_cases s.toList
  rw [candidates_eq]
  generalize (lastWord s.toList).1 = before at *
  generalize (lastWord s.toList).2 = word at *
  have hnarrow : Narrow word := fun c hc => utf8Size_of_isWordChar (hlast.isWord c hc)
  have hbytes : Utf8.encode s = encoded before ++ encoded word := by
    show encoded s.toList = _
    rw [← hlast.append_eq, encoded_append]
  unfold byteCandidates
  rw [hbytes, ← hlast.append_eq]
  rcases hcases with rfl | ⟨init, c, rfl, hc⟩
  · -- all of the text is one word
    rw [List.nil_append, lastBreak?_word hlast.isWord]
    exact (completeBytes_encoded [] hnarrow).symm
  rw [List.append_assoc, List.singleton_append, lastBreak?_append init word hc hlast.isWord,
    encoded_append]
  by_cases hsize : c.utf8Size = 1
  · -- the cut falls behind this character
    have hstarts : startsWord (init ++ [c]) = true := by simp [startsWord, hsize]
    have hc : encoded [c] = [c.val.toUInt8] := encoded_cons hsize []
    have hcut : (encoded init ++ [c.val.toUInt8]).length = (encoded init).length + 1 :=
      List.length_append
    show _ = completeBytes (List.take ((encoded init).length + 1) _)
      (List.drop ((encoded init).length + 1) _)
    rw [if_pos hstarts, hc, ← hcut, List.take_left, List.drop_left, ← hc, ← encoded_append]
    exact (completeBytes_encoded (init ++ [c]) hnarrow).symm
  · -- the cut falls behind its first byte
    have hstarts : ¬startsWord (init ++ [c]) = true := by simp [startsWord, hsize]
    obtain ⟨a, b, more, hchar, hb⟩ := exists_second_byte hsize
    have hc : encoded [c] = a :: b :: more := (List.flatMap_singleton _ _).trans hchar
    have hcut : (encoded init ++ [a]).length = (encoded init).length + 1 := List.length_append
    have hsplit : encoded init ++ a :: b :: more ++ encoded word =
        (encoded init ++ [a]) ++ b :: (more ++ encoded word) := by simp
    show _ = completeBytes (List.take ((encoded init).length + 1) _)
      (List.drop ((encoded init).length + 1) _)
    rw [if_neg hstarts, hc, hsplit, ← hcut, List.take_left, List.drop_left,
      completeBytes_second_byte _ hb]
    rfl

/-- What a text is completed to.  Its word at the end is the longest one, and completion is done on
bytes.  Every candidate continues the text.  The candidates are the text before the word with each
name that begins with the word, unless the word stands after a character of several bytes: then
there are none, so that exactly the words are missed which begin a name. -/
theorem candidates_eq_completions_iff (s : String) :
    ∃ before word, IsLastWord s.toList before word ∧
      (candidates s).map Utf8.encode = byteCandidates s ∧
      (∀ t ∈ candidates s, s.toList <+: t.toList) ∧
      (startsWord before → candidates s = completions before word) ∧
      (¬startsWord before → candidates s = []) ∧
      (candidates s = completions before word ↔
        startsWord before ∨ word = [] ∨ ∀ name ∈ names, ¬word <+: name.toList) := by
  have hlast := isLastWord_lastWord s.toList
  have heq := candidates_eq s
  have hbytes := map_encode_candidates s
  generalize (lastWord s.toList).1 = before at *
  generalize (lastWord s.toList).2 = word at *
  refine ⟨before, word, hlast, hbytes, ?_, ?_, ?_, ?_⟩
  · intro t ht
    rw [heq] at ht
    split at ht
    · rw [← hlast.append_eq]
      exact prefix_of_mem_completions ht
    · cases ht
  · intro hstarts
    rw [heq, if_pos hstarts]
  · intro hstarts
    rw [heq, if_neg hstarts]
  · by_cases hstarts : startsWord before = true
    · simp [heq, hstarts]
    · rw [heq, if_neg hstarts, eq_comm, completions_eq_nil_iff]
      simp [hstarts]

/-- The word `le` begins two names, but after a character of three bytes nothing is found for it. -/
theorem candidates_after_wide :
    IsLastWord "あle".toList ['あ'] ['l', 'e'] ∧
    completions ['あ'] ['l', 'e'] = ["あlet", "あlen"] ∧ candidates "あle" = [] :=
  ⟨isLastWord_lastWord "あle".toList, by decide, by decide⟩

end Monkey.Completion

import Monkey.Token

/-!
# Scanning

`Token.scan` cuts a text into its tokens.  At each place the longest token is taken: a word runs
over all letters that follow, a number over all digits, and `==` and `!=` win over `=` and `!`.  A
string has no escapes and runs to the next quote or to the end of the text.  A character that
begins no token is a token of its own, of kind `illegal`.
-/

namespace Monkey.Token

/-- The characters that separate tokens. -/
def isBlank (c : Char) : Bool := c == ' ' || c == '\t' || c == '\n' || c == '\r'

/-- The characters of words: ASCII letters and the underscore. -/
def isLetter (c : Char) : Bool := c.isAlpha || c == '_'

/-- The first token of a text that does not begin with a blank, and the text after it. -/
def next? : List Char → Option (Token × List Char)
  | [] => none
  | c :: cs =>
    if isLetter c then
      let word := String.ofList (c :: cs.takeWhile isLetter)
      some (⟨.ofWord word, word⟩, cs.dropWhile isLetter)
    else if c.isDigit then
      some (⟨.int, String.ofList (c :: cs.takeWhile Char.isDigit)⟩, cs.dropWhile Char.isDigit)
    else if c = '"' then
      some (⟨.string, String.ofList (cs.takeWhile (· != '"'))⟩, (cs.dropWhile (· != '"')).tail)
    else if c = '=' ∧ cs.head? = some '=' then
      some (⟨.equal, "=="⟩, cs.tail)
    else if c = '!' ∧ cs.head? = some '=' then
      some (⟨.notEqual, "!="⟩, cs.tail)
    else
      some (⟨(Kind.ofSymbol? c).getD .illegal, String.singleton c⟩, cs)

theorem length_dropWhile_le (p : Char → Bool) (cs : List Char) :
    (cs.dropWhile p).length ≤ cs.length :=
  (List.dropWhile_suffix p).length_le

/-- Every token uses up at least one character. -/
theorem next?_shorter {cs rest : List Char} {t : Token} (h : next? cs = some (t, rest)) :
    rest.length < cs.length := by
  cases cs with
  | nil => simp [next?] at h
  | cons c cs =>
    have hl := length_dropWhile_le isLetter cs
    have hd := length_dropWhile_le Char.isDigit cs
    have hq := length_dropWhile_le (· != '"') cs
    simp only [next?] at h
    split at h
    · cases h; simp only [List.length_cons]; omega
    split at h
    · cases h; simp only [List.length_cons]; omega
    split at h
    · cases h; simp only [List.length_cons, List.length_tail]; omega
    split at h
    · cases h; simp only [List.length_cons, List.length_tail]; omega
    split at h
    · cases h; simp only [List.length_cons, List.length_tail]; omega
    · cases h; simp only [List.length_cons]; omega

/-- The tokens of a text, without the end of the text. -/
def scan (cs : List Char) : List Token :=
  match h : next? (cs.dropWhile isBlank) with
  | none => []
  | some (t, rest) =>
    have : rest.length < cs.length :=
      Nat.lt_of_lt_of_le (next?_shorter h) (length_dropWhile_le isBlank cs)
    t :: scan rest
termination_by cs.length

/-- The next token of a text and what remains.  The end of the text can be read again and again. -/
def read (cs : List Char) : Token × List Char :=
  (next? (cs.dropWhile isBlank)).getD (endOfText, [])

end Monkey.Token

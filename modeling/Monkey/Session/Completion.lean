import Monkey.Token
import Monkey.Value

/-!
# Completion

The word at the end of an input is completed to the keywords and builtins that begin with it.  The
word begins one byte after the beginning of the last character that is not part of a word, so
nothing completes a word that stands right after a character of several bytes.
-/

namespace Monkey.Completion

/-- The characters of a word that can be completed. -/
def isWordChar (c : Char) : Bool := c = '_' || c.isAlpha

/-- A text as what comes before its last word, and that word, which may be empty. -/
def lastWord (cs : List Char) : List Char × List Char :=
  ((cs.reverse.dropWhile isWordChar).reverse, (cs.reverse.takeWhile isWordChar).reverse)

/-- Whether a word can be completed after a text: the text is empty or ends in a character of one
byte. Otherwise the last bytes of that character count as the beginning of the word, and no name
begins with them. -/
def startsWord (before : List Char) : Bool := before.getLast?.all (·.utf8Size = 1)

/-- The names that a word can be completed to: keywords, then builtins. -/
def names : List String := Token.keywords ++ Builtin.names

/-- The texts that a text can be completed to. -/
def candidates (input : String) : List String :=
  let (before, word) := lastWord input.toList
  if word.isEmpty || !startsWord before then []
  else (names.filter fun name => word.isPrefixOf name.toList).map (String.ofList before ++ ·)

end Monkey.Completion

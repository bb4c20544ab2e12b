import Monkey.Text.Utf8

/-!
# Lines

Two ways to cut input into lines.  `LineReading.of` works on whole lines and stops at one that is
too long.  `readLine` works through a buffer: a line that does not fit comes in pieces.
-/

namespace Monkey.Text

/-- The lines of an input, and whether reading stopped at a line that is too long. -/
structure LineReading where
  lines : List String
  overlong : Bool

/-- A line without the carriage return that ends it. -/
def dropReturn (cs : List Char) : List Char :=
  if cs.getLast? = some '\r' then cs.dropLast else cs

namespace LineReading

/-- Lines end at a line feed or at the end of the input.  A line has at most `limit` bytes, not
counting the line feed; a carriage return at its end counts, but is not part of it. -/
def ofChars (limit : Nat) (cs : List Char) : LineReading :=
  match cs with
  | [] => ⟨[], false⟩
  | c :: cs =>
    let line := (c :: cs).takeWhile (· != '\n')
    if (String.ofList line).utf8ByteSize > limit then ⟨[], true⟩
    else
      let others := ofChars limit (cs.drop line.length)
      ⟨String.ofList (dropReturn line) :: others.lines, others.overlong⟩
termination_by cs.length
decreasing_by simp only [List.length_drop, List.length_cons]; omega

def of (limit : Nat) (s : String) : LineReading := ofChars limit s.toList

end LineReading

/-- A line, or a piece of one, from a buffer. -/
structure BufferedLine where
  bytes : List UInt8
  /-- Whether the line goes on after this piece. -/
  unfinished : Bool
  rest : List UInt8

/-- Reads the next line through a buffer of some size.  A carriage return is dropped only before a
line feed, so a piece does not end in one.  There is none at the end of the input. -/
def readLine (buffer : Nat) (bs : List UInt8) : Option BufferedLine :=
  let line := (bs.take buffer).takeWhile (· != 10)
  if bs.isEmpty then none
  else if line.length < min buffer bs.length then
    let bytes := if line.getLast? = some 13 then line.dropLast else line
    some ⟨bytes, false, bs.drop (line.length + 1)⟩
  else if line.length < buffer then some ⟨line, false, []⟩
  else if line.getLast? = some 13 then some ⟨line.dropLast, true, bs.drop (line.length - 1)⟩
  else some ⟨line, true, bs.drop line.length⟩

/-- Lines are read through a buffer of this many bytes. -/
def bufferSize : Nat := 4096

/-- Every line or piece uses up at least one byte. -/
theorem readLine_shorter {bs : List UInt8} {line : BufferedLine}
    (h : readLine bufferSize bs = some line) : line.rest.length < bs.length := by
  unfold readLine at h
  generalize (bs.take bufferSize).takeWhile (· != 10) = l at h
  by_cases hne : bs.isEmpty
  · simp [hne] at h
  have hpos : 0 < bs.length := by
    rw [List.length_pos_iff]
    intro h0
    exact hne (by simp [h0])
  have hsize : bufferSize = 4096 := rfl
  by_cases h1 : l.length < min bufferSize bs.length
  · simp only [hne, h1, if_true, Bool.false_eq_true, if_false, Option.some.injEq] at h
    subst h; simp only [List.length_drop]; omega
  by_cases h2 : l.length < bufferSize
  · simp only [hne, h1, h2, if_true, Bool.false_eq_true, if_false, Option.some.injEq] at h
    subst h; exact hpos
  by_cases h3 : l.getLast? = some 13
  · simp only [hne, h1, h2, h3, if_true, Bool.false_eq_true, if_false, Option.some.injEq] at h
    subst h; simp only [List.length_drop]; omega
  · simp only [hne, h1, h2, h3, Bool.false_eq_true, if_false, Option.some.injEq] at h
    subst h; simp only [List.length_drop]; omega

/-- All lines and pieces of lines, each marked if its line goes on. -/
def bufferedLines (bs : List UInt8) : List (List UInt8 × Bool) :=
  match h : readLine bufferSize bs with
  | none => []
  | some line =>
    have := readLine_shorter h
    (line.bytes, line.unfinished) :: bufferedLines line.rest
termination_by bs.length

end Monkey.Text

/-!
# What a scalar stands for

A scalar without quotes is null, a boolean, a number or a date if it has the form of one, and a text
otherwise.  A tag can say what it is meant to be.
-/

namespace Monkey.Yaml

inductive Tag where
  | str
  | int
  | float
  | bool
  | null
  | timestamp
  | binary
  | merge
  | seq
  | map
  | other (name : String)
  deriving DecidableEq

namespace Tag

def name : Tag → String
  | str => "!!str"
  | int => "!!int"
  | float => "!!float"
  | bool => "!!bool"
  | null => "!!null"
  | timestamp => "!!timestamp"
  | binary => "!!binary"
  | merge => "!!merge"
  | seq => "!!seq"
  | map => "!!map"
  | other name => name

/-- The tags with a meaning of their own. -/
def known : List Tag := [str, int, float, bool, null, timestamp, binary, merge, seq, map]

/-- What the names of tags with two exclamation marks begin with when they are written in full. -/
def stem : String := "tag:yaml.org,2002:"

def ofName (s : String) : Tag :=
  let short := if s.startsWith stem then "!!" ++ (s.drop stem.length).toString else s
  (known.find? (·.name = short)).getD (.other short)

end Tag

def nullWords : List String := ["", "~", "null", "Null", "NULL"]

def trueWords : List String := ["true", "True", "TRUE"]

def falseWords : List String := ["false", "False", "FALSE"]

/-- Words for numbers that have no digits. -/
def floatWords : List String :=
  [".nan", ".NaN", ".NAN", ".inf", ".Inf", ".INF", "+.inf", "+.Inf", "+.INF", "-.inf", "-.Inf",
   "-.INF"]

/-! ## Integers -/

/-- The value of digits in a base; none if there are no digits or others among them. -/
def digits? (base : Nat) (cs : List Char) : Option Nat :=
  if cs.isEmpty then none
  else cs.foldlM (fun n c =>
    let d := if c.isDigit then c.toNat - 48
      else if 'a' ≤ c ∧ c ≤ 'f' then c.toNat - 87
      else if 'A' ≤ c ∧ c ≤ 'F' then c.toNat - 55 else base
    if d < base then some (base * n + d) else none) 0

/-- The value of a number whose base is told by how it begins. -/
def magnitude? : List Char → Option Nat
  | '0' :: 'x' :: cs | '0' :: 'X' :: cs => digits? 16 cs
  | '0' :: 'o' :: cs | '0' :: 'O' :: cs => digits? 8 cs
  | '0' :: 'b' :: cs | '0' :: 'B' :: cs => digits? 2 cs
  | ['0'] => some 0
  | '0' :: cs => digits? 8 cs
  | cs => digits? 10 cs

/-- Whether a number with a sign before it has 64 bits. -/
def fitsSigned (sign : Char) (magnitude : Nat) : Bool :=
  if sign = '-' then magnitude ≤ Int64.size / 2 else magnitude < Int64.size / 2

/-- Whether a text is a sign and digits in a base that make a number of 64 bits. -/
def isSigned (base : Nat) : List Char → Bool
  | sign :: cs => (sign = '+' ∨ sign = '-') && (digits? base cs).any (fitsSigned sign)
  | [] => false

/-- An integer of 64 bits, signed if there is a sign before it, and whether a sign and 63 bits are
enough for it.  In base two and eight the sign may stand behind the base. -/
def int? (cs : List Char) : Option Bool :=
  let plain := match cs with
    | sign :: rest =>
      if sign = '+' ∨ sign = '-' then
        if (magnitude? rest).any (fitsSigned sign) then some true else none
      else
        match magnitude? cs with
        | some n => if n < UInt64.size then some (n < Int64.size / 2) else none
        | none => none
    | [] => none
  match plain, cs with
  | some small, _ => some small
  | none, '0' :: 'b' :: rest => if isSigned 2 rest then some true else none
  | none, '0' :: 'o' :: rest => if isSigned 8 rest then some true else none
  | none, _ => none

/-! ## Decimal numbers -/

/-- A row of digits and the power of ten it is multiplied by. -/
structure Decimal where
  digits : List Char
  power : Int

namespace Decimal

/-- The number of an exponent; zero if there is none. -/
def exponent? : List Char → Option Int
  | [] => some 0
  | e :: cs =>
    if e = 'e' ∨ e = 'E' then
      match cs with
      | '+' :: ds => (digits? 10 ds).map Int.ofNat
      | '-' :: ds => (digits? 10 ds).map (- Int.ofNat ·)
      | ds => (digits? 10 ds).map Int.ofNat
    else none

/-- A number with digits before or behind a point, and perhaps a sign and an exponent. -/
def ofChars? (cs : List Char) : Option Decimal :=
  let cs := match cs with
    | '+' :: ds | '-' :: ds => ds
    | ds => ds
  let whole := cs.takeWhile Char.isDigit
  match cs.dropWhile Char.isDigit with
  | '.' :: rest =>
    let part := rest.takeWhile Char.isDigit
    if whole.isEmpty && part.isEmpty then none
    else
      (exponent? (rest.dropWhile Char.isDigit)).map fun e => ⟨whole ++ part, e - part.length⟩
  | rest => if whole.isEmpty then none else (exponent? rest).map fun e => ⟨whole, e⟩

/-- The least number that is too large for a binary number of 64 bits. -/
def limit : Nat := Nat.pow 2 1024 - Nat.pow 2 970

/-- Whether a number is below the limit.  The powers of ten around the limit decide all cases but
those with 308 to 310 digits. -/
def isFinite (d : Decimal) : Bool :=
  let digits := d.digits.dropWhile (· == '0')
  let size := digits.length + d.power
  if digits.isEmpty || size < 308 then true
  else if size > 310 then false
  else
    let n := (digits? 10 digits).getD 0
    n * Nat.pow 10 d.power.toNat < limit * Nat.pow 10 (-d.power).toNat

end Decimal

def isFloat (cs : List Char) : Bool := (Decimal.ofChars? cs).any Decimal.isFinite

/-- Whether every low line stands between two digits. -/
def lowLinesApart (digit : Bool) : List Char → Bool
  | [] => true
  | '_' :: cs => digit && cs.head?.any Char.isDigit && lowLinesApart false cs
  | c :: cs => lowLinesApart c.isDigit cs

/-! ## Dates -/

/-- One or two digits at the front, and what follows. -/
def shortNumber? : List Char → Option (Nat × List Char)
  | a :: b :: cs =>
    if a.isDigit ∧ b.isDigit then some (10 * (a.toNat - 48) + (b.toNat - 48), cs)
    else if a.isDigit then some (a.toNat - 48, b :: cs) else none
  | [a] => if a.isDigit then some (a.toNat - 48, []) else none
  | [] => none

def daysIn (year month : Nat) : Nat :=
  if month = 2 then
    if year % 4 = 0 ∧ (year % 100 ≠ 0 ∨ year % 400 = 0) then 29 else 28
  else if month ∈ [4, 6, 9, 11] then 30 else 31

/-- What follows the time of day at the front of a text. -/
def clock? (cs : List Char) : Option (List Char) := do
  let (hour, cs) ← shortNumber? cs
  let ':' :: cs := cs | none
  let (minute, cs) ← shortNumber? cs
  let ':' :: cs := cs | none
  let (second, cs) ← shortNumber? cs
  let cs := match cs with
    | '.' :: ds | ',' :: ds => if ds.head?.any Char.isDigit then ds.dropWhile Char.isDigit else cs
    | _ => cs
  if hour < 24 ∧ minute < 60 ∧ second < 60 then some cs else none

/-- Whether a text is a difference from universal time. -/
def isZone : List Char → Bool
  | ['Z'] => true
  | s :: a :: b :: ':' :: c :: [d] =>
    (s = '+' ∨ s = '-') && (digits? 10 [a, b]).any (· ≤ 24) && (digits? 10 [c, d]).any (· ≤ 60)
  | _ => false

/-- Whether a text is a date, perhaps with a time of day. -/
def isTimestamp (cs : List Char) : Bool :=
  let year := cs.takeWhile Char.isDigit
  let found : Option Bool := do
    let '-' :: rest := cs.dropWhile Char.isDigit | none
    let (month, rest) ← shortNumber? rest
    let '-' :: rest := rest | none
    let (day, rest) ← shortNumber? rest
    let y ← digits? 10 year
    guard (1 ≤ month ∧ month ≤ 12 ∧ 1 ≤ day ∧ day ≤ daysIn y month)
    match rest with
    | [] => some true
    | 'T' :: t | 't' :: t => (clock? t).map isZone
    | ' ' :: t => (clock? (t.dropWhile (· == ' '))).map List.isEmpty
    | _ => none
  year.length = 4 && found.getD false

/-! ## Scalars -/

/-- What a scalar turns out to be. -/
inductive Meaning where
  | null
  | bool (b : Bool)
  /-- An integer, and whether a sign and 63 bits are enough for it. -/
  | int (small : Bool)
  | float
  | timestamp
  | str
  deriving DecidableEq

namespace Meaning

def tag : Meaning → Tag
  | null => .null
  | bool _ => .bool
  | int _ => .int
  | float => .float
  | timestamp => .timestamp
  | str => .str

/-- What a text stands for; it is taken for a date only if dates are looked for.  Low lines do not
count in numbers. -/
def ofText (dates : Bool) (text : String) : Meaning :=
  if text ∈ nullWords then .null
  else if text ∈ trueWords then .bool true
  else if text ∈ falseWords then .bool false
  else if text ∈ floatWords then .float
  else
    let cs := text.toList
    let number := cs.filter (· ≠ '_')
    match cs with
    | [] => .str
    | c :: _ =>
      if c = '.' then if lowLinesApart false cs && isFloat number then .float else .str
      else if c.isDigit ∨ c = '+' ∨ c = '-' then
        if dates && isTimestamp cs then .timestamp
        else
          match int? number with
          | some small => .int small
          | none => if isFloat number then .float else .str
      else .str

/-- What a text with a tag stands for, or what it is instead.  An integer is a number with a point
too, unless it needs all 64 bits. -/
def ofTagged (tag : Tag) (text : String) : Except Meaning Meaning :=
  if tag ∈ [Tag.bool, .int, .float, .null, .timestamp] then
    let found := ofText (tag == .timestamp) text
    if found.tag = tag then .ok found
    else if tag = .float ∧ found = .int true then .ok .float
    else .error found
  else .ok .str

end Meaning

end Monkey.Yaml

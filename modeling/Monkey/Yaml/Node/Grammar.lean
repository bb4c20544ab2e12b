import Monkey.Yaml.Node
import Monkey.Yaml.Token.Stream

/-!
# From tokens to nodes

Each rule reads tokens from the front of a list and says where it stopped.  `Found α n` records that
at most `n` tokens are left, which is how reading is seen to end.  Where a node may be missing, an
empty scalar takes its place.

A problem names the line of the collection it is found in.
-/

namespace Monkey.Yaml

/-- The names that have been given to nodes, and the nodes that are complete. -/
structure Anchors where
  /-- The number of the last node with a name. -/
  numbers : Table String Nat
  count : Nat
  nodes : Anchored
  /-- How many references there are so far. -/
  references : Nat

namespace Anchors

def none : Anchors := ⟨[], 0, [], 0⟩

/-- Gives the next number to a node that has a name. -/
def reserve (a : Anchors) : Option String → Option Nat × Anchors
  | .none => (.none, a)
  | some name => (some a.count, { a with numbers := a.numbers.insert name a.count,
                                         count := a.count + 1 })

/-- Keeps a node that has a number. -/
def keep (a : Anchors) (node : Node) : Option Nat → Anchors
  | .none => a
  | some number => { a with nodes := (number, node) :: a.nodes }

end Anchors

/-- What a rule found and the tokens it left. -/
structure Found (α : Type) (n : Nat) where
  value : α
  anchors : Anchors
  rest : List Token
  bound : rest.length ≤ n

namespace Found

variable {α β : Type} {m n : Nat}

def map (f : α → β) (r : Found α n) : Found β n := { r with value := f r.value }

/-- The same under a weaker bound. -/
def widen (r : Found α m) (h : m ≤ n) : Found α n := { r with bound := Nat.le_trans r.bound h }

end Found

/-- What stands before the content of a node. -/
structure Properties where
  start : Mark
  anchor? : Option String
  /-- A tag and its place. -/
  tag? : Option (TagName × Mark)

/-- What is known of a document before its first node. -/
structure Setting where
  /-- What follows the last token. -/
  stop : Except FormError Mark
  /-- What the handles of tags stand for. -/
  handles : Table String String

namespace Grammar

abbrev Rule (α : Type) (n : Nat) := Except FormError (Found α n)

/-- The next token; the end follows the last one, unless there is an error instead. -/
def next (stop : Except FormError Mark) : List Token → Except FormError Token
  | [] => stop.map fun mark => ⟨.streamEnd, mark⟩
  | t :: _ => .ok t

/-- A problem at a token inside a collection that begins at a place. -/
def unexpected {α : Type} (start : Mark) (t : Token) (problem : Problem) : Except FormError α :=
  .error (.inStructure start t.mark problem)

/-- The tag of a node in full. -/
def fullTag (handles : Table String String) (p : Properties) : Except FormError String :=
  match p.tag? with
  | none => .ok ""
  | some (tag, mark) =>
    if tag.handle = "" then .ok tag.suffix
    else
      match handles.get? tag.handle with
      | some stem => .ok (stem ++ tag.suffix)
      | none => .error (.inStructure p.start mark .unknownHandle)

/-- A node without a tag, or with one exclamation mark for a tag, has the default tag. -/
def tagOr (full : String) (default : Tag) : Tag :=
  if full = "" ∨ full = "!" then default else .ofName full

/-- The tag of a scalar that has none; two less-than signs are the key of a merge. -/
def scalarTag : Style → String → Tag
  | .plain, text => if text = "<<" then .merge else (Meaning.ofText true text).tag
  | _, _ => .str

/-- A node that is complete, which keeps it if it has a name. -/
def complete {n : Nat} (anchor? : Option String) (node : Node) (a : Anchors) (rest : List Token)
    (bound : rest.length ≤ n) : Found Node n :=
  let (number?, a) := a.reserve anchor?
  ⟨node, a.keep node number?, rest, bound⟩

/-- Turns the parts of a collection into a node, and keeps it if it has a number. -/
def collect {α : Type} {n : Nat} (number? : Option Nat) (make : α → Node) (r : Found α n) :
    Found Node n :=
  let node := make r.value
  { r with value := node, anchors := r.anchors.keep node number? }

def lineOf (m : Mark) : Nat := m.line + 1

/-- A node without content: properties alone make an empty scalar. -/
def missing (p : Properties) (full : String) (t : Token) (a : Anchors) (ts : List Token) :
    Rule Node ts.length :=
  if p.anchor?.isNone ∧ full = "" then unexpected p.start t .noContent
  else
    let node := Node.scalar (lineOf p.start) (tagOr full .null) ""
    .ok (complete p.anchor? node a ts (Nat.le_refl _))

/-- Whether an entry of a mapping in block style is empty before a token. -/
def endsMapPart : Token.Kind → Bool
  | .key | .value | .blockEnd => true
  | _ => false

/-- What is left after a token is shorter. -/
theorem length_of_cons {t : Token} {ts rest : List Token} (h : ts = t :: rest) :
    ts.length = rest.length + 1 := by
  simp [h]

variable (g : Setting)

mutual

/-- A node.  In block style it may be a block collection, and perhaps a sequence that is not
indented. -/
def node (block flush : Bool) (a : Anchors) (ts : List Token) : Rule Node ts.length := do
  let t ← next g.stop ts
  match hts : ts with
  | ⟨.reference name, mark⟩ :: rest =>
    have := length_of_cons hts
    match a.numbers.get? name with
    | some number =>
      let reference := Node.reference (lineOf mark) name number a.references
      return ⟨reference, { a with references := a.references + 1 }, rest, Nat.le.intro this.symm⟩
    | none => throw (.anywhere (.unknownAnchor name))
  | ⟨.anchor name, _⟩ :: ⟨.tag tag, mark⟩ :: rest =>
    have := length_of_cons hts
    return (← content block flush ⟨t.mark, some name, some (tag, mark)⟩ a rest).widen
      (Nat.le.intro (k := 2) this.symm)
  | ⟨.anchor name, _⟩ :: rest =>
    have := length_of_cons hts
    return (← content block flush ⟨t.mark, some name, none⟩ a rest).widen (Nat.le.intro this.symm)
  | ⟨.tag tag, mark⟩ :: ⟨.anchor name, _⟩ :: rest =>
    have := length_of_cons hts
    return (← content block flush ⟨t.mark, some name, some (tag, mark)⟩ a rest).widen
      (Nat.le.intro (k := 2) this.symm)
  | ⟨.tag tag, mark⟩ :: rest =>
    have := length_of_cons hts
    return (← content block flush ⟨t.mark, none, some (tag, mark)⟩ a rest).widen
      (Nat.le.intro this.symm)
  | us =>
    have := congrArg List.length hts
    return (← content block flush ⟨t.mark, none, none⟩ a us).widen (Nat.le_of_eq this.symm)
termination_by (ts.length, 2)

/-- What follows the properties of a node. -/
def content (block flush : Bool) (p : Properties) (a : Anchors) (ts : List Token) :
    Rule Node ts.length := do
  let t ← next g.stop ts
  let full ← fullTag g.handles p
  let line := lineOf p.start
  let (number?, inside) := a.reserve p.anchor?
  match hts : ts with
  | ⟨.scalar style text, _⟩ :: rest =>
    have := length_of_cons hts
    let tag := tagOr full (scalarTag style text)
    return complete p.anchor? (.scalar line tag text) a rest (by omega)
  | ⟨.opening kind, mark⟩ :: rest =>
    have := length_of_cons hts
    match kind, block with
    | .flowSeq, _ =>
      let items ← flowSeq mark inside rest
      return collect number? (.seq line (tagOr full .seq)) (items.widen (by omega))
    | .flowMap, _ =>
      let entries ← flowMap mark inside rest
      return collect number? (.map line (tagOr full .map)) (entries.widen (by omega))
    | .blockSeq, true =>
      let items ← blockSeq mark inside rest
      return collect number? (.seq line (tagOr full .seq)) (items.widen (by omega))
    | .blockMap, true =>
      let entries ← blockMap mark inside rest
      return collect number? (.map line (tagOr full .map)) (entries.widen (by omega))
    | _, _ => missing p full t a ts
  | ⟨.entry, mark⟩ :: rest =>
    have := congrArg List.length hts
    if flush then
      let items ← flushSeq inside (⟨.entry, mark⟩ :: rest)
      return collect number? (.seq line (tagOr full .seq)) (items.widen (by omega))
    else missing p full t a ts
  | _ => missing p full t a ts
termination_by (ts.length, 1)

/-- The entries of an indented sequence and what closes it. -/
def blockSeq (start : Mark) (a : Anchors) (ts : List Token) : Rule (List Node) ts.length := do
  let t ← next g.stop ts
  match hts : ts with
  | ⟨.entry, mark⟩ :: rest =>
    have := length_of_cons hts
    let u ← next g.stop rest
    if u.kind = .entry ∨ u.kind = .blockEnd then
      let others ← blockSeq start a rest
      return (others.map (Node.empty (lineOf mark) :: ·)).widen (by omega)
    else
      let first ← node true false a rest
      have := first.bound
      let others ← blockSeq start first.anchors first.rest
      return (others.map (first.value :: ·)).widen (by omega)
  | ⟨.blockEnd, _⟩ :: rest =>
    have := length_of_cons hts
    return ⟨[], a, rest, by omega⟩
  | _ => unexpected start t .noDash
termination_by (ts.length, 0)

/-- The entries of a sequence that is not indented. -/
def flushSeq (a : Anchors) (ts : List Token) : Rule (List Node) ts.length := do
  let _ ← next g.stop ts
  match hts : ts with
  | ⟨.entry, mark⟩ :: rest =>
    have := length_of_cons hts
    let u ← next g.stop rest
    if u.kind = .entry ∨ endsMapPart u.kind then
      let others ← flushSeq a rest
      return (others.map (Node.empty (lineOf mark) :: ·)).widen (by omega)
    else
      let first ← node true false a rest
      have := first.bound
      let others ← flushSeq first.anchors first.rest
      return (others.map (first.value :: ·)).widen (by omega)
  | _ => return ⟨[], a, ts, Nat.le_refl _⟩
termination_by (ts.length, 0)

/-- The entries of an indented mapping and what closes it. -/
def blockMap (start : Mark) (a : Anchors) (ts : List Token) :
    Rule (List (Node × Node)) ts.length := do
  let t ← next g.stop ts
  match hts : ts with
  | ⟨.key, mark⟩ :: rest =>
    have := length_of_cons hts
    let key ← blockPart mark a rest
    have := key.bound
    let value ← blockValue key.anchors key.rest
    have := value.bound
    let others ← blockMap start value.anchors value.rest
    return (others.map ((key.value, value.value) :: ·)).widen (by omega)
  | ⟨.blockEnd, _⟩ :: rest =>
    have := length_of_cons hts
    return ⟨[], a, rest, by omega⟩
  | _ => unexpected start t .noKey
termination_by (ts.length, 0)

/-- A key or a value of an indented mapping, behind its indicator. -/
def blockPart (mark : Mark) (a : Anchors) (ts : List Token) : Rule Node ts.length := do
  let t ← next g.stop ts
  if endsMapPart t.kind then return ⟨.empty (lineOf mark), a, ts, Nat.le_refl _⟩
  else node true true a ts
termination_by (ts.length, 3)

/-- The value of an indented mapping, which may be missing. -/
def blockValue (a : Anchors) (ts : List Token) : Rule Node ts.length := do
  let t ← next g.stop ts
  match hts : ts with
  | ⟨.value, mark⟩ :: rest =>
    have := length_of_cons hts
    return (← blockPart mark a rest).widen (by omega)
  | _ => return ⟨.empty (lineOf t.mark), a, ts, Nat.le_refl _⟩
termination_by (ts.length, 0)

/-- The items of a sequence in brackets and its end; a comma may follow the last one. -/
def flowSeq (start : Mark) (a : Anchors) (ts : List Token) : Rule (List Node) ts.length := do
  let _ ← next g.stop ts
  match hts : ts with
  | ⟨.flowSeqEnd, _⟩ :: rest =>
    have := length_of_cons hts
    return ⟨[], a, rest, by omega⟩
  | ⟨.key, mark⟩ :: rest =>
    have := length_of_cons hts
    let pair ← flowPair a rest
    have := pair.bound
    let others ← flowSeqRest start pair.anchors pair.rest
    let item := Node.map (lineOf mark) .map [pair.value]
    return (others.map (item :: ·)).widen (by omega)
  | us =>
    have := congrArg List.length hts
    let first ← node false false a us
    have := first.bound
    let others ← flowSeqRest start first.anchors first.rest
    return (others.map (first.value :: ·)).widen (by omega)
termination_by (ts.length, 3)
decreasing_by all_goals simp [Prod.lex_def] <;> omega

/-- What follows an item of a sequence in brackets. -/
def flowSeqRest (start : Mark) (a : Anchors) (ts : List Token) : Rule (List Node) ts.length := do
  let t ← next g.stop ts
  match hts : ts with
  | ⟨.flowSeqEnd, _⟩ :: rest =>
    have := length_of_cons hts
    return ⟨[], a, rest, by omega⟩
  | ⟨.comma, _⟩ :: rest =>
    have := length_of_cons hts
    return (← flowSeq start a rest).widen (by omega)
  | _ => unexpected start t .noCommaOrBracket
termination_by (ts.length, 0)

/-- A single entry of a mapping among the items of a sequence, behind its indicator.  If there is no
key, the token in its place is left out. -/
def flowPair (a : Anchors) (ts : List Token) : Rule (Node × Node) ts.length := do
  let t ← next g.stop ts
  let key : Found Node ts.length ←
    if t.kind ∈ [Token.Kind.value, .comma, .flowSeqEnd] then
      pure ⟨.empty (lineOf t.mark), a, ts.tail, by simp⟩
    else node false false a ts
  have := key.bound
  let value ← flowValue .flowSeqEnd key.anchors key.rest
  return (value.map fun v => (key.value, v)).widen (by omega)
termination_by (ts.length, 4)
decreasing_by all_goals simp [Prod.lex_def] <;> omega

/-- The value of an entry in brackets or braces, which may be missing. -/
def flowValue (close : Token.Kind) (a : Anchors) (ts : List Token) : Rule Node ts.length := do
  let t ← next g.stop ts
  match hts : ts with
  | ⟨.value, _⟩ :: rest =>
    have := length_of_cons hts
    let u ← next g.stop rest
    if u.kind = .comma ∨ u.kind = close then
      return ⟨.empty (lineOf u.mark), a, rest, by omega⟩
    else return (← node false false a rest).widen (by omega)
  | _ => return ⟨.empty (lineOf t.mark), a, ts, Nat.le_refl _⟩
termination_by (ts.length, 0)

/-- The entries of a mapping in braces and its end; a comma may follow the last one.  An entry
without an indicator is a key without a value. -/
def flowMap (start : Mark) (a : Anchors) (ts : List Token) :
    Rule (List (Node × Node)) ts.length := do
  let _ ← next g.stop ts
  match hts : ts with
  | ⟨.flowMapEnd, _⟩ :: rest =>
    have := length_of_cons hts
    return ⟨[], a, rest, by omega⟩
  | ⟨.key, _⟩ :: rest =>
    have := length_of_cons hts
    let u ← next g.stop rest
    let key : Found Node rest.length ←
      if u.kind ∈ [Token.Kind.value, .comma, .flowMapEnd] then
        pure ⟨.empty (lineOf u.mark), a, rest, Nat.le_refl _⟩
      else node false false a rest
    have := key.bound
    let value ← flowValue .flowMapEnd key.anchors key.rest
    have := value.bound
    let others ← flowMapRest start value.anchors value.rest
    return (others.map ((key.value, value.value) :: ·)).widen (by omega)
  | us =>
    have := congrArg List.length hts
    let key ← node false false a us
    have := key.bound
    let u ← next g.stop key.rest
    let others ← flowMapRest start key.anchors key.rest
    return (others.map ((key.value, .empty (lineOf u.mark)) :: ·)).widen (by omega)
termination_by (ts.length, 3)
decreasing_by all_goals simp [Prod.lex_def] <;> omega

/-- What follows an entry of a mapping in braces. -/
def flowMapRest (start : Mark) (a : Anchors) (ts : List Token) :
    Rule (List (Node × Node)) ts.length := do
  let t ← next g.stop ts
  match hts : ts with
  | ⟨.flowMapEnd, _⟩ :: rest =>
    have := length_of_cons hts
    return ⟨[], a, rest, by omega⟩
  | ⟨.comma, _⟩ :: rest =>
    have := length_of_cons hts
    return (← flowMap start a rest).widen (by omega)
  | _ => unexpected start t .noCommaOrBrace
termination_by (ts.length, 0)

end

/-! ## Documents -/

/-- The handles that need no directive. -/
def standardHandles : Table String String := [("!", "!"), ("!!", Tag.stem)]

/-- The directives before a document: the handles they declare, and the tokens after them. -/
def directives (stop : Except FormError Mark) (versioned : Bool) (handles : Table String String) :
    List Token → Except FormError (Table String String × List Token)
  | ⟨.version major minor, mark⟩ :: rest => do
    if versioned then throw (.inStructure mark mark .versionTwice)
    if major ≠ 1 ∨ minor ≠ 1 then throw (.inStructure mark mark .otherVersion)
    directives stop true handles rest
  | ⟨.tagHandle handle stem, mark⟩ :: rest => do
    if (handles.get? handle).isSome then throw (.inStructure mark mark .tagTwice)
    directives stop versioned (handles.insert handle stem) rest
  | ts => do
    let _ ← next stop ts
    return (handles ++ standardHandles, ts)

/-- Whether a document that begins with a mark is empty before a token. -/
def endsDocument : Token.Kind → Bool
  | .version .. | .tagHandle .. | .documentStart | .documentEnd | .streamEnd => true
  | _ => false

/-- A root node.  The token after it has to be there too. -/
def document {n : Nat} (stop : Except FormError Mark) (r : Found Node n) :
    Except FormError (Option Document) := do
  let _ ← next stop r.rest
  return some ⟨r.value, r.anchors.nodes, r.anchors.references⟩

/-- The first document, if there is one. -/
def firstDocument (tokens : Tokens) : Except FormError (Option Document) := do
  let stop := tokens.stop
  let first ← next stop tokens.list
  match first.kind with
  | .streamEnd => return none
  | .version .. | .tagHandle .. | .documentStart =>
    let (handles, ts) ← directives stop false [] tokens.list
    let t ← next stop ts
    if t.kind ≠ .documentStart then throw (.inStructure t.mark t.mark .noDocumentStart)
    let rest := ts.tail
    let u ← next stop rest
    if endsDocument u.kind then return some ⟨.empty (lineOf u.mark), [], 0⟩
    else document stop (← node ⟨stop, handles⟩ true false .none rest)
  | _ => document stop (← node ⟨stop, standardHandles⟩ true false .none tokens.list)

end Grammar

/-- The first document in some bytes. -/
def Document.ofBytes? (bytes : List UInt8) : Except FormError (Option Document) :=
  Grammar.firstDocument (.ofSource (.ofBytes bytes))

end Monkey.Yaml

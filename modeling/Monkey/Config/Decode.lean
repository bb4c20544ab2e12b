import Monkey.Config
import Monkey.Config.Misfit
import Monkey.File
import Monkey.Text.Base64
import Monkey.Yaml.Node.Grammar

/-!
# Settings from a file

A file of settings is a YAML mapping laid over the default settings.  A null leaves its setting
alone, and any scalar can be the value of a text setting.  All values that do not fit are reported
together, in the order they are met in; a mapping with keys that occur twice is reported for that
alone.

A mapping may merge others into itself.  Its own keys come first, then the keys of the mappings in
the order they are merged in.
-/

namespace Monkey.Config

open Yaml (Anchored Meaning)

/-- The settings that a file can hold. -/
inductive Field where
  | prompt
  | historyFile
  | color
  | logLevel
  | traceParser
  deriving DecidableEq

namespace Field

def all : List Field := [prompt, historyFile, color, logLevel, traceParser]

/-- The key of a field. -/
def key : Field → String
  | prompt => "prompt"
  | historyFile => "history_file"
  | color => "color"
  | logLevel => "log_level"
  | traceParser => "trace_parser"

def ofKey? (s : String) : Option Field := all.find? (·.key = s)

end Field

/-! ## Progress -/

/-- What has come of a document so far. -/
structure Progress where
  config : Config
  misfits : List Misfit
  /-- The number of nodes that were looked at, and of those that were reached by an alias. -/
  visited : Nat
  aliased : Nat

abbrev Decoding := StateT Progress (Except Rejection)

namespace Progress

def start (c : Config) : Progress := ⟨c, [], 0, 0⟩

/-- Whether aliases are used out of proportion.  Of up to 400000 nodes they may reach 99 in 100, of
4000000 and more 10 in 100, and in between the share falls evenly. -/
def isExcessive (p : Progress) : Bool :=
  let low := 400000
  let high := 4000000
  let reduced := 89 * (min p.visited high - low)
  p.aliased > 100 && p.visited > 1000 &&
    p.aliased * 100 * (high - low) > p.visited * (99 * (high - low) - reduced)

end Progress

/-- Counts a node. -/
def visit (inAlias : Bool) : Decoding Unit := do
  let p ← get
  let p := { p with visited := p.visited + 1, aliased := p.aliased + if inAlias then 1 else 0 }
  if p.isExcessive then throw .tooManyAliases
  set p

def note (ms : List Misfit) : Decoding Unit :=
  modify fun p => { p with misfits := p.misfits ++ ms }

/-! ## Values -/

/-- What a scalar stands for, and its text. -/
def scalarMeaning (tag : Yaml.Tag) (text : String) : Except Rejection (Meaning × String) :=
  if tag = .binary then
    match Text.Base64.decode? text with
    | some bytes => .ok (.str, Utf8.decode bytes)
    | none => .error .badBase64
  else
    match Meaning.ofTagged tag text with
    | .ok meaning => .ok (meaning, text)
    | .error found => .error (.mistagged found.tag tag text)

/-- What tells keys apart: their kind, and their text or name. -/
def keyIdentity : Yaml.Node → Nat × String
  | .scalar _ _ text => (0, text)
  | .seq .. => (1, "")
  | .map .. => (2, "")
  | .reference _ name .. => (3, name)

/-- The keys that occur before. -/
def duplicates : List (Yaml.Node × Yaml.Node) → List Misfit
  | [] => []
  | (key, _) :: rest =>
    ((rest.filter fun (k, _) => keyIdentity k = keyIdentity key).map fun (k, _) =>
      Misfit.duplicateKey k.line (keyIdentity k).2 key.line) ++ duplicates rest

/-- The scalar that a node is, or that it refers to; a collection is noted instead. -/
def scalarOf (anchored : Anchored) (target : Target) (inAlias : Bool) (n : Yaml.Node) :
    Decoding (Option (Nat × Yaml.Tag × String)) := do
  visit inAlias
  let n ← match n with
    | .reference _ _ number _ => do
      visit true
      pure ((anchored.get? number).getD n)
    | n => pure n
  match n with
  | .scalar line tag text => return some (line, tag, text)
  | .seq line tag _ =>
    note [.value line tag "" target]
    return none
  | .map line tag entries =>
    match duplicates entries with
    | [] => note [.value line tag "" target]
    | misfits => note misfits
    return none
  | .reference .. => return none

/-- The text of a node; none for a null. -/
def textOf (anchored : Anchored) (target : Target) (inAlias : Bool) (n : Yaml.Node) :
    Decoding (Option String) := do
  let some (_, tag, text) ← scalarOf anchored target inAlias n | return none
  let (meaning, text) ← scalarMeaning tag text
  return if meaning = .null then none else some text

def yesWords : List String := ["y", "Y", "yes", "Yes", "YES", "on", "On", "ON"]

def noWords : List String := ["n", "N", "no", "No", "NO", "off", "Off", "OFF"]

/-- The truth value of a node; none for a null. -/
def flagOf (anchored : Anchored) (inAlias : Bool) (n : Yaml.Node) : Decoding (Option Bool) := do
  let some (line, tag, text) ← scalarOf anchored .flag inAlias n | return none
  let misfit : Decoding (Option Bool) := do
    note [.value line tag text .flag]
    return none
  match ← scalarMeaning tag text with
  | (.null, _) => return none
  | (.bool b, _) => return some b
  | (.str, word) =>
    if word ∈ yesWords then return some true
    else if word ∈ noWords then return some false
    else misfit
  | _ => misfit

/-- Sets a field to the value of a node. -/
def assign (anchored : Anchored) (inAlias : Bool) (f : Field) (n : Yaml.Node) : Decoding Unit := do
  let setText (target : Target) (put : Config → String → Config) : Decoding Unit := do
    if let some text ← textOf anchored target inAlias n then
      modify fun p => { p with config := put p.config text }
  match f with
  | .prompt => setText .text fun c s => { c with prompt := s }
  | .historyFile => setText .text fun c s => { c with historyFile := s }
  | .color => setText .color fun c s => { c with color := s }
  | .logLevel => setText .text fun c s => { c with logLevel := s }
  | .traceParser =>
    if let some b ← flagOf anchored inAlias n then
      modify fun p => { p with config := { p.config with traceParser := b } }

/-! ## Mappings -/

/-- Whether a key asks for a merge. -/
def isMerge : Yaml.Node → Bool
  | .scalar _ tag text => tag = .merge && text = "<<"
  | _ => false

/-- What is merged into a mapping. -/
def mergeValue? : List (Yaml.Node × Yaml.Node) → Option Yaml.Node
  | [] => none
  | (key, value) :: rest =>
    match mergeValue? rest with
    | some later => some later
    | none => if isMerge key then some value else none

theorem sizeOf_mergeValue? {entries : List (Yaml.Node × Yaml.Node)} {value : Yaml.Node}
    (h : mergeValue? entries = some value) : sizeOf value < sizeOf entries := by
  induction entries with
  | nil => simp [mergeValue?] at h
  | cons e rest ih =>
    obtain ⟨key, v⟩ := e
    simp only [mergeValue?] at h
    split at h
    · next later hl =>
      cases h
      have := ih hl
      simp
      omega
    · split at h
      · cases h
        simp
        omega
      · cases h

/-- The keys of a mapping that are texts. -/
def keyTexts (anchored : Anchored) (inAlias : Bool) (entries : List (Yaml.Node × Yaml.Node)) :
    Decoding (List String) :=
  entries.foldlM (fun texts (key, _) => do
    let some (_, tag, text) ← scalarOf anchored .text inAlias key | return texts
    match ← scalarMeaning tag text with
    | (.str, text) => return text :: texts
    | _ => return texts) []

/-- Lays the entries of a mapping over the settings, merges apart.  `taken?` holds the keys that no
longer count, if the mapping is being merged into another; `done` are the fields it has set. -/
def assignEntries (anchored : Anchored) (inAlias : Bool) :
    Option (List String) → List Field → List (Yaml.Node × Yaml.Node) →
      Decoding (Option (List String))
  | taken?, _, [] => return taken?
  | taken?, done, (key, value) :: rest => do
    if isMerge key then assignEntries anchored inAlias taken? done rest
    else
      match ← textOf anchored .text inAlias key with
      | none => assignEntries anchored inAlias taken? done rest
      | some name =>
        if taken?.any (name ∈ ·) then assignEntries anchored inAlias taken? done rest
        else
          let taken? := taken?.map (name :: ·)
          match Field.ofKey? name with
          | none =>
            note [.unknownKey key.line name]
            assignEntries anchored inAlias taken? done rest
          | some f =>
            if f ∈ done then
              note [.setTwice key.line name]
              assignEntries anchored inAlias taken? done rest
            else
              assign anchored inAlias f value
              assignEntries anchored inAlias taken? (f :: done) rest

section

variable (anchored : Anchored)

mutual

/-- Lays a mapping over the settings, and then what it merges.  Only the references in `available`
can be followed: those that are not being followed already. -/
def assignMap (available : List Nat) (inAlias : Bool) (taken? : Option (List String))
    (entries : List (Yaml.Node × Yaml.Node)) : Decoding (Option (List String)) := do
  match duplicates entries with
  | [] =>
    let taken? ← assignEntries anchored inAlias taken? [] entries
    match h : mergeValue? entries with
    | none => return taken?
    | some value =>
      have := sizeOf_mergeValue? h
      let taken ← match taken? with
        | some taken => pure taken
        | none => keyTexts anchored inAlias entries
      let taken ← merge available inAlias taken value
      return taken?.map fun _ => taken
  | misfits =>
    note misfits
    return taken?
termination_by (available.length, sizeOf entries, 1)

/-- Merges a mapping, or the mappings of a sequence one by one. -/
def merge (available : List Nat) (inAlias : Bool) (taken : List String) (n : Yaml.Node) :
    Decoding (List String) := do
  match n with
  | .seq _ _ items => mergeAll available inAlias taken items
  | n => mergeMap available inAlias taken n
termination_by (available.length, sizeOf n, 1)

/-- Merges mappings in order. -/
def mergeAll (available : List Nat) (inAlias : Bool) (taken : List String)
    (items : List Yaml.Node) : Decoding (List String) := do
  match items with
  | [] => return taken
  | n :: rest => mergeAll available inAlias (← mergeMap available inAlias taken n) rest
termination_by (available.length, sizeOf items, 0)

/-- Merges one mapping, or the one that is referred to. -/
def mergeMap (available : List Nat) (inAlias : Bool) (taken : List String) (n : Yaml.Node) :
    Decoding (List String) := do
  match n with
  | .map _ _ entries =>
    visit inAlias
    return (← assignMap available inAlias (some taken) entries).getD taken
  | .reference _ name number serial =>
    let some (.map _ _ entries) := anchored.get? number | throw .badMerge
    visit inAlias
    if h : serial ∈ available then
      have := List.length_erase_of_mem h
      have := List.length_pos_of_mem h
      visit true
      return (← assignMap (available.erase serial) true (some taken) entries).getD taken
    else throw (.cyclic name)
  | _ => throw .badMerge
termination_by (available.length, sizeOf n, 0)

end

end

/-- Lays a document over the settings. -/
def assignDocument (d : Yaml.Document) : Decoding Unit := do
  visit false
  match d.root with
  | .map _ _ entries =>
    visit false
    let _ ← assignMap d.anchored (List.range d.references) false none entries
  | n =>
    let some (line, tag, text) ← scalarOf d.anchored .settings false n | return
    let (meaning, _) ← scalarMeaning tag text
    if meaning ≠ .null then note [.value line tag text .settings]

/-! ## Texts and files -/

/-- Why there are no settings in a text. -/
inductive TextError where
  | malformed (error : Yaml.FormError)
  | rejected (reason : Rejection)
  | misfits (all : List Misfit)

def TextError.message : TextError → String
  | malformed e => "yaml: " ++ e.message
  | rejected r => "yaml: " ++ r.message
  | misfits all =>
    "yaml: unmarshal errors:\n  " ++ "\n  ".intercalate (all.map Misfit.message)

/-- The settings in some bytes. -/
def ofBytes (bytes : List UInt8) : Except TextError Config :=
  match Yaml.Document.ofBytes? bytes with
  | .error e => .error (.malformed e)
  | .ok none => .ok standard
  | .ok (some document) =>
    match (assignDocument document).run (.start standard) with
    | .error r => .error (.rejected r)
    | .ok (_, p) => if p.misfits.isEmpty then .ok p.config else .error (.misfits p.misfits)

/-- Why there are no settings in a file. -/
inductive LoadError where
  | unread (path : String) (error : FileError)
  | text (path : String) (error : TextError)
  | setting (path : String) (problem : ConfigProblem)

def LoadError.message : LoadError → String
  | unread path e =>
    if e.isOpen then "config: open " ++ path ++ ": " ++ e.message
    else "config: parse " ++ path ++ ": yaml: input error: " ++ e.message
  | text path e => "config: parse " ++ path ++ ": " ++ e.message
  | setting path p => "config: " ++ path ++ ": " ++ p.message

/-- The settings in a file, given what reading the file came to. -/
def ofFile (path : String) (content : Except FileError (List UInt8)) : Except LoadError Config := do
  let bytes ← content.mapError (.unread path)
  let c ← (ofBytes bytes).mapError (.text path)
  match c.problem? with
  | some p => .error (.setting path p)
  | none => .ok c

/-- The settings in the file at a path; without a path, the standard ones. -/
def load {m : Type → Type} [Monad m] (read : String → m (Except FileError (List UInt8)))
    (path : String) : m (Except LoadError Config) :=
  if path = "" then pure (.ok standard) else ofFile path <$> read path

end Monkey.Config

import Monkey.Text.Quoted

/-!
# Flags

Flags come before the other arguments, with one dash or two.  A flag with a value takes it after
an equals sign or from the next argument; a switch takes one only after an equals sign.  Two
dashes alone end the flags.
-/

namespace Monkey.CommandLine

structure Flag where
  /-- All names, the long one first. -/
  names : List String
  /-- Whether it takes a value; otherwise it is a switch. -/
  valued : Bool
  usage : String
  deriving DecidableEq

inductive FlagError where
  | malformed (text : String)
  | undefined (name : String)
  | needsValue (name : String)
  | notBoolean (name value : String)
  | twoForms (later first : String)
  deriving DecidableEq

def FlagError.message : FlagError → String
  | malformed text => "bad flag syntax: " ++ text
  | undefined name => "flag provided but not defined: -" ++ name
  | needsValue name => "flag needs an argument: -" ++ name
  | notBoolean name value =>
    "invalid boolean value " ++ Text.quote value ++ " for -" ++ name ++ ": parse error"
  | twoForms later first => "Cannot use two forms of the same flag: " ++ later ++ " " ++ first

/-- What an argument is by its form. -/
inductive Argument where
  | plain
  | endOfFlags
  | malformed
  | flag (name : String) (value : Option String)
  deriving DecidableEq

namespace Argument

/-- What stands after the dashes. -/
def ofBody : List Char → Argument
  | [] | '-' :: _ | '=' :: _ => malformed
  | c :: cs =>
    let name := String.ofList (c :: cs.takeWhile (· ≠ '='))
    match cs.dropWhile (· ≠ '=') with
    | [] => flag name none
    | _ :: value => flag name (some (String.ofList value))

def ofChars : List Char → Argument
  | ['-', '-'] => endOfFlags
  | '-' :: '-' :: cs => ofBody cs
  | '-' :: c :: cs => ofBody (c :: cs)
  | _ => plain

end Argument

def trueSpellings : List String := ["1", "t", "T", "true", "TRUE", "True"]

def falseSpellings : List String := ["0", "f", "F", "false", "FALSE", "False"]

/-- The flags that were given, each by the name used, and the arguments after them. -/
structure Given where
  settings : List (String × String)
  arguments : List String
  deriving DecidableEq

namespace Given

def add (name value : String) (g : Given) : Given :=
  { g with settings := (name, value) :: g.settings }

/-- Reads flags up to the first argument that is none. -/
def read (flags : List Flag) (args : List String) : Except FlagError Given :=
  match args with
  | [] => .ok ⟨[], []⟩
  | arg :: rest =>
    match Argument.ofChars arg.toList with
    | .plain => .ok ⟨[], arg :: rest⟩
    | .endOfFlags => .ok ⟨[], rest⟩
    | .malformed => .error (.malformed arg)
    | .flag name value =>
      match flags.find? (name ∈ ·.names) with
      | none => .error (.undefined name)
      | some f =>
        if f.valued then
          match value, rest with
          | some v, rest => (read flags rest).map (add name v)
          | none, v :: rest => (read flags rest).map (add name v)
          | none, [] => .error (.needsValue name)
        else
          let v := value.getD "true"
          if v ∈ trueSpellings ∨ v ∈ falseSpellings then (read flags rest).map (add name v)
          else .error (.notBoolean name v)
termination_by args.length

/-- No arguments are added. -/
theorem length_arguments_of_read {flags : List Flag} {args : List String} {g : Given}
    (h : read flags args = .ok g) : g.arguments.length ≤ args.length := by
  have step {name value : String} {rest : List String} {g : Given}
      (ih : ∀ {g : Given}, read flags rest = .ok g → g.arguments.length ≤ rest.length)
      (h : (read flags rest).map (add name value) = .ok g) :
      g.arguments.length ≤ rest.length := by
    cases hr : read flags rest with
    | error e => simp [hr, Except.map] at h
    | ok g' =>
      simp only [hr, Except.map, Except.ok.injEq] at h
      subst h
      exact ih (g := g') hr
  fun_induction read flags args generalizing g <;> grind

/-- The first flag that was given by two of its names. -/
def twoForms? (flags : List Flag) (g : Given) : Option FlagError :=
  flags.findSome? fun f =>
    match f.names.filter fun n => g.settings.any (·.1 = n) with
    | first :: later :: _ => some (.twoForms later first)
    | _ => none

/-- Reads flags, none of them in two forms. -/
def ofArgs (flags : List Flag) (args : List String) : Except FlagError Given := do
  let g ← read flags args
  match g.twoForms? flags with
  | some e => .error e
  | none => .ok g

theorem length_arguments_of_ofArgs {flags : List Flag} {args : List String} {g : Given}
    (h : ofArgs flags args = .ok g) : g.arguments.length ≤ args.length := by
  cases hr : read flags args with
  | error e => simp [ofArgs, hr, bind, Except.bind] at h
  | ok g' =>
    simp only [ofArgs, hr, bind, Except.bind] at h
    split at h <;> cases h
    exact length_arguments_of_read hr

/-- The value of a flag: the last one that was given. -/
def value? (g : Given) (f : Flag) : Option String :=
  (g.settings.reverse.find? fun (name, _) => name ∈ f.names).map Prod.snd

/-- Whether a switch is on. -/
def isOn (g : Given) (f : Flag) : Bool := (g.value? f).any (· ∈ trueSpellings)

end Given

end Monkey.CommandLine

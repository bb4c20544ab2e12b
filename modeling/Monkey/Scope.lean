import Monkey.Value

/-!
# Scopes

A scope binds names to values and may lie inside another scope.  All scopes are kept in one row
and are known by their numbers, so that functions which share a scope see each other's bindings.
A name is looked up from the inside out; binding a name always binds it in the scope itself.

A scope is numbered after the one it lies in, so looking a name up ends.
-/

namespace Monkey

structure Scope where
  bindings : Table String Value
  outer : Option Nat

structure Scopes where
  row : Array Scope

namespace Scopes

def empty : Scopes := ⟨#[]⟩

/-- The number of scopes, which is also the number of the next one. -/
def size (s : Scopes) : Nat := s.row.size

/-- Adds an empty scope. -/
def add (s : Scopes) (outer : Option Nat) : Scopes := ⟨s.row.push ⟨[], outer⟩⟩

/-- One scope that lies in no other. -/
def fresh : Scopes := empty.add none

/-- The scope around a scope. -/
def outer? (s : Scopes) (id : Nat) : Option Nat := s.row[id]?.bind Scope.outer

/-- Binds a name in a scope. -/
def define (s : Scopes) (id : Nat) (name : String) (value : Value) : Scopes :=
  ⟨s.row.modify id fun scope => { scope with bindings := scope.bindings.insert name value }⟩

/-- The value of a name in the nearest scope that binds it. -/
def get? (s : Scopes) (id : Nat) (name : String) : Option Value :=
  match s.row[id]? with
  | none => none
  | some scope =>
    match scope.bindings.get? name with
    | some value => some value
    | none =>
      match scope.outer with
      | none => none
      | some outer => if outer < id then s.get? outer name else none
termination_by id

end Scopes

end Monkey

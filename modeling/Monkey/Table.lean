/-!
# Tables in order of insertion

A table is a list of keys with what each one is bound to.  A new key goes to the end; a key that is
already there keeps its place and gets the new entry.
-/

namespace Monkey

abbrev Table (κ ν : Type) := List (κ × ν)

namespace Table

variable {κ ν : Type} [DecidableEq κ]

/-- The entry of a key. -/
def get? : Table κ ν → κ → Option ν
  | [], _ => none
  | (k, v) :: t, key => if k = key then some v else get? t key

/-- Binds a key, in its old place if it has one. -/
def insert : Table κ ν → κ → ν → Table κ ν
  | [], key, value => [(key, value)]
  | (k, v) :: t, key, value =>
    if k = key then (key, value) :: t else (k, v) :: insert t key value

/-- The keys in order of first insertion. -/
def keys (t : Table κ ν) : List κ := t.map Prod.fst

@[simp] theorem get?_nil (key : κ) : get? ([] : Table κ ν) key = none := rfl

theorem get?_insert_self (t : Table κ ν) (key : κ) (value : ν) :
    get? (insert t key value) key = some value := by
  induction t with
  | nil => simp [insert, get?]
  | cons p t ih =>
    by_cases h : p.1 = key <;> simp [insert, get?, h, ih]

theorem get?_insert_of_ne (t : Table κ ν) {key other : κ} (value : ν) (h : key ≠ other) :
    get? (insert t key value) other = get? t other := by
  induction t with
  | nil => simp [insert, get?, h]
  | cons p t ih =>
    obtain ⟨k, v⟩ := p
    by_cases hk : k = key
    · subst hk; simp [insert, get?, h]
    · simp only [insert, if_neg hk, get?, ih]

end Table

end Monkey

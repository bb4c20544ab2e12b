import Mathlib.Data.List.Nodup
import Monkey.Table

/-!
# Laws of tables

What an insertion does to the keys of a table and to its entries.
-/

namespace Monkey.Table

variable {κ ν : Type}

theorem keys_cons (key : κ) (value : ν) (t : Table κ ν) :
    keys ((key, value) :: t) = key :: t.keys := rfl

variable [DecidableEq κ]

/-- A new key goes to the end, and an old one keeps its place. -/
theorem keys_insert (t : Table κ ν) (key : κ) (value : ν) :
    (t.insert key value).keys = if key ∈ t.keys then t.keys else t.keys ++ [key] := by
  induction t with
  | nil => rfl
  | cons p t ih =>
    obtain ⟨k, v⟩ := p
    rw [insert]
    by_cases hk : k = key
    · subst hk
      rw [if_pos rfl, keys_cons, keys_cons, if_pos List.mem_cons_self]
    · have hmem : key ∈ k :: keys t ↔ key ∈ keys t := by simp [Ne.symm hk]
      rw [if_neg hk, keys_cons, keys_cons, ih]
      simp only [hmem]
      split <;> rfl

theorem nodup_keys_insert {t : Table κ ν} (h : t.keys.Nodup) (key : κ) (value : ν) :
    (t.insert key value).keys.Nodup := by
  rw [keys_insert]
  split
  · exact h
  · rename_i hmem
    rw [← List.concat_eq_append]
    exact List.Nodup.concat hmem h

/-- What is in a table after an insertion was there before or was inserted. -/
theorem mem_insert {t : Table κ ν} {key k : κ} {value v : ν} (h : (k, v) ∈ t.insert key value) :
    (k, v) ∈ t ∨ v = value := by
  induction t with
  | nil =>
    simp only [insert, List.mem_singleton, Prod.mk.injEq] at h
    exact .inr h.2
  | cons p t ih =>
    obtain ⟨k', v'⟩ := p
    simp only [insert] at h
    split at h
    · rcases List.mem_cons.mp h with h | h
      · exact .inr (Prod.mk.inj h).2
      · exact .inl (List.mem_cons_of_mem _ h)
    · rcases List.mem_cons.mp h with h | h
      · exact .inl (h ▸ List.mem_cons_self)
      · exact (ih h).imp_left (List.mem_cons_of_mem _)

theorem mem_of_get? {t : Table κ ν} {key : κ} {value : ν} (h : t.get? key = some value) :
    (key, value) ∈ t := by
  induction t with
  | nil => simp at h
  | cons p t ih =>
    obtain ⟨k, v⟩ := p
    simp only [get?] at h
    split at h
    · rename_i hk
      cases hk
      cases h
      exact List.mem_cons_self
    · exact List.mem_cons_of_mem _ (ih h)

end Monkey.Table

import Mathlib
import Monkey.Proofs.Evaluation.Call

/-!
# Where a binding is seen

Scopes come about by three operations: a scope is added that lies in no other, a scope is added in
one that is there, and a name is bound in one that is there.  Many scopes may lie in one, so a
single binding can be seen from many places, and from others be hidden by a nearer one.

A search for a name goes from scope to scope outwards.  Nothing in the search itself sees to it that
it ends.  It does because no operation lets a scope lie in a later one (`Ordered`), and that is also
why `Scopes.get?` never gives up a search half way.  The main result says from which scopes a new
binding is seen, and that nothing else changes.
-/

namespace Monkey.Scopes

variable {s t : Scopes} {id e : Nat} {x y : String} {r : Option Value}

/-! ## 1. Operations on scopes -/

/-- One operation. -/
inductive Step : Scopes → Scopes → Prop where
  | top (s : Scopes) : Step s (s.add none)
  | enclosed (s : Scopes) {outer : Nat} : outer < s.size → Step s (s.add (some outer))
  | define (s : Scopes) {id : Nat} (x : String) (v : Value) :
      id < s.size → Step s (s.define id x v)

/-- The second scopes are the first ones after operations, in any number and order. -/
def Becomes : Scopes → Scopes → Prop := Relation.ReflTransGen Step

/-- The scopes were made by operations alone. -/
def Built (s : Scopes) : Prop := empty.Becomes s

/-- Every scope lies in an earlier one. -/
def Ordered (s : Scopes) : Prop := ∀ id o, s.outer? id = some o → o < id

theorem ordered_empty : empty.Ordered := fun _ _ h => nomatch h

theorem Ordered.define (hs : s.Ordered) (id : Nat) (x : String) (v : Value) :
    (s.define id x v).Ordered := by
  intro i o ho
  rw [outer?_define] at ho
  exact hs i o ho

theorem Ordered.add (hs : s.Ordered) {outer : Option Nat} (houter : ∀ o ∈ outer, o < s.size) :
    (s.add outer).Ordered := by
  intro i o ho
  rw [outer?_add] at ho
  split at ho
  · rename_i hi
    rw [hi]
    exact houter o ho
  · exact hs i o ho

theorem Step.ordered (h : Step s t) (hs : s.Ordered) : t.Ordered := by
  cases h with
  | top => exact hs.add fun _ ho => nomatch ho
  | enclosed houter =>
    apply hs.add
    rintro _ ⟨⟩
    exact houter
  | define x v => exact hs.define _ x v

theorem Built.ordered (h : s.Built) : s.Ordered := by
  induction h with
  | refl => exact ordered_empty
  | tail _ hstep ih => exact hstep.ordered ih

/-- To show something of all scopes, go from the outermost ones inwards. -/
theorem Ordered.inward (hs : s.Ordered) {motive : Nat → Prop}
    (step : ∀ id, (∀ o, s.outer? id = some o → motive o) → motive id) (id : Nat) : motive id := by
  induction id using Nat.strong_induction_on with
  | _ id ih => exact step id fun o ho => ih o (hs id o ho)

theorem Ordered.outer_lt_size (hs : s.Ordered) (hid : id < s.size) {o : Nat}
    (ho : s.outer? id = some o) : o < s.size :=
  Nat.lt_trans (hs id o ho) hid

/-- A scope that is there stays, and stays where it is. -/
theorem Step.outer?_eq (h : Step s t) (hid : id < s.size) :
    id < t.size ∧ t.outer? id = s.outer? id := by
  have hadd (outer : Option Nat) :
      id < (s.add outer).size ∧ (s.add outer).outer? id = s.outer? id := by
    rw [size_add, outer?_add, if_neg (Nat.ne_of_lt hid)]
    exact ⟨Nat.lt_succ_of_lt hid, rfl⟩
  cases h with
  | top => exact hadd none
  | enclosed => exact hadd _
  | define x v =>
    rw [size_define]
    exact ⟨hid, outer?_define ..⟩

theorem Becomes.outer?_eq (h : s.Becomes t) (hid : id < s.size) :
    id < t.size ∧ t.outer? id = s.outer? id := by
  induction h with
  | refl => exact ⟨hid, rfl⟩
  | tail _ hstep ih =>
    obtain ⟨hlt, houter⟩ := hstep.outer?_eq ih.1
    exact ⟨hlt, houter.trans ih.2⟩

/-! ## 2. The search for a name -/

/-- A search that starts at a scope, or outside of all scopes, ends with this result.  It is over
where the name is bound and where there is no further scope. -/
inductive Search (s : Scopes) (x : String) : Option Nat → Option Value → Prop where
  | outside : s.Search x none none
  | found {id : Nat} {v : Value} : s.bound? id x = some v → s.Search x (some id) (some v)
  | further {id : Nat} {r : Option Value} : id < s.size → s.bound? id x = none →
      s.Search x (s.outer? id) r → s.Search x (some id) r

/-- A name that the scope itself does not bind is looked up where the scope lies. -/
theorem Ordered.get?_eq (hs : s.Ordered) (id : Nat) (x : String) :
    s.get? id x = (s.bound? id x).or ((s.outer? id).bind fun o => s.get? o x) := by
  have hearlier : ∀ o, s.outer? id = some o → o < id := hs id
  rw [Scopes.get?_eq]
  unfold bound?
  unfold outer? at hearlier ⊢
  cases hrow : s.row[id]? with
  | none => rfl
  | some a =>
    rw [hrow] at hearlier
    simp only [Option.bind_some] at hearlier ⊢
    congr 1
    unfold around
    cases houter : a.outer with
    | none => rfl
    -- the search goes on only in an earlier scope, and this one is
    | some o => exact if_pos (hearlier o houter)

theorem Search.eq_get? (hs : s.Ordered) {start : Option Nat} (h : s.Search x start r) :
    r = start.bind fun id => s.get? id x := by
  induction h with
  | outside => rfl
  | found hv => rw [Option.bind_some, hs.get?_eq, hv, Option.some_or]
  | further _ hnone _ ih => rw [Option.bind_some, hs.get?_eq, hnone, Option.none_or, ih]

theorem Ordered.search_get? (hs : s.Ordered) (hid : id < s.size) (x : String) :
    s.Search x (some id) (s.get? id x) := by
  induction id using hs.inward with
  | step id ih =>
    rw [hs.get?_eq]
    cases hbound : s.bound? id x with
    | some v => exact .found hbound
    | none =>
      rw [Option.none_or]
      apply Search.further hid hbound
      cases houter : s.outer? id with
      | none => exact .outside
      | some o => exact ih o houter (hs.outer_lt_size hid houter)

/-- A search ends, and only with what is looked up. -/
theorem Ordered.search_iff (hs : s.Ordered) (hid : id < s.size) :
    s.Search x (some id) r ↔ r = s.get? id x := by
  constructor
  · intro h
    exact h.eq_get? hs
  · rintro rfl
    exact hs.search_get? hid x

/-! ## 3. Chains of scopes -/

/-- The scopes from one outwards, the nearest first, up to one that lies in no other. -/
inductive Chain (s : Scopes) : Option Nat → List Nat → Prop where
  | nil : s.Chain none []
  | cons {id : Nat} {ids : List Nat} : id < s.size → s.Chain (s.outer? id) ids →
      s.Chain (some id) (id :: ids)

/-- From the scope `id` one sees what the scope `e` binds the name to: `e` is on the chain of `id`,
and none of the scopes before it binds the name. -/
def Sees (s : Scopes) (id e : Nat) (x : String) : Prop :=
  ∃ near far, s.Chain (some id) (near ++ e :: far) ∧ ∀ i ∈ near, s.bound? i x = none

theorem Ordered.exists_chain (hs : s.Ordered) (hid : id < s.size) :
    ∃ ids, s.Chain (some id) ids := by
  induction id using hs.inward with
  | step id ih =>
    cases houter : s.outer? id with
    | none => exact ⟨[id], .cons hid (houter ▸ .nil)⟩
    | some o =>
      obtain ⟨ids, hids⟩ := ih o houter (hs.outer_lt_size hid houter)
      exact ⟨id :: ids, .cons hid (houter ▸ hids)⟩

theorem Ordered.sees_self (hs : s.Ordered) (hid : id < s.size) (x : String) : s.Sees id id x := by
  obtain ⟨ids, hids⟩ := hs.exists_chain hid
  cases hids with
  | cons _ hfar => exact ⟨[], _, .cons hid hfar, by simp⟩

theorem Sees.inside {o : Nat} (h : s.Sees o e x) (hid : id < s.size) (houter : s.outer? id = some o)
    (hbound : s.bound? id x = none) : s.Sees id e x := by
  obtain ⟨near, far, hchain, hnear⟩ := h
  exact ⟨id :: near, far, .cons hid (houter ▸ hchain), List.forall_mem_cons.mpr ⟨hbound, hnear⟩⟩

/-- What is seen in a farther scope is seen from the next scope outwards. -/
theorem Sees.outward (h : s.Sees id e x) (hne : id ≠ e) :
    ∃ o, s.outer? id = some o ∧ s.bound? id x = none ∧ s.Sees o e x := by
  obtain ⟨near, far, hchain, hnear⟩ := h
  cases near with
  | nil =>
    cases hchain
    exact absurd rfl hne
  | cons i near =>
    obtain ⟨hbound, hnearer⟩ := List.forall_mem_cons.mp hnear
    cases hchain with
    | cons _ hchain =>
      cases houter : s.outer? id with
      | none =>
        -- no further scope, but `e` is still to come
        rw [houter] at hchain
        cases near <;> cases hchain
      | some o =>
        rw [houter] at hchain
        exact ⟨o, rfl, hbound, near, far, hchain, hnearer⟩

/-! ## 4. A new binding -/

theorem bound?_define (he : e < s.size) (x : String) (v : Value) (i : Nat) (y : String) :
    (s.define e x v).bound? i y = if y = x ∧ i = e then some v else s.bound? i y := by
  unfold bound?
  by_cases hi : i = e
  · subst hi
    rw [row_define_self, Array.getElem?_eq_getElem he, Option.map_some, Option.bind_some,
      Option.bind_some]
    by_cases hy : y = x
    · rw [if_pos ⟨hy, rfl⟩, hy, Table.get?_insert_self]
    · rw [if_neg fun h => hy h.1, Table.get?_insert_of_ne _ _ (Ne.symm hy)]
  · rw [row_define_of_ne _ _ _ hi, if_neg fun h => hi h.2]

/-- The search goes past the scopes that are nearer. -/
theorem Ordered.get?_define_of_sees (hs : s.Ordered) (he : e < s.size) (v : Value)
    (h : s.Sees id e x) : (s.define e x v).get? id x = some v := by
  induction id using hs.inward with
  | step id ih =>
    by_cases hid : id = e
    · rw [hid]
      exact get?_define_self v he
    · obtain ⟨o, houter, hbound, hsees⟩ := h.outward hid
      rw [(hs.define e x v).get?_eq, bound?_define he, if_neg fun h => hid h.2, outer?_define,
        hbound, houter, Option.none_or, Option.bind_some]
      exact ih o houter hsees

/-- A search that came to the new binding would show that it is seen. -/
theorem Ordered.get?_define_of_not_sees (hs : s.Ordered) (he : e < s.size) (v : Value)
    (hid : id < s.size) (h : ¬(y = x ∧ s.Sees id e x)) :
    (s.define e x v).get? id y = s.get? id y := by
  induction id using hs.inward with
  | step id ih =>
    -- if this were the scope and the name of the new binding, nothing would be nearer
    have hother : ¬(y = x ∧ id = e) := by
      rintro ⟨hy, rfl⟩
      exact h ⟨hy, hs.sees_self hid x⟩
    rw [(hs.define e x v).get?_eq, hs.get?_eq, bound?_define he, if_neg hother, outer?_define]
    cases hbound : s.bound? id y with
    | some w => rfl
    | none =>
      rw [Option.none_or, Option.none_or]
      cases houter : s.outer? id with
      | none => rfl
      | some o =>
        apply ih o houter (hs.outer_lt_size hid houter)
        rintro ⟨rfl, hsees⟩
        exact h ⟨rfl, hsees.inside hid houter hbound⟩

/-- Take scopes made by any operations, and bind a name in one of them.  Before and after it, the
search for every name from every scope ends, and only with what is looked up.  The searches for this
name from the scopes that see the one where it was bound find the new value, and every other search
finds what it found before.  No operation moves a scope to another place. -/
theorem search_after_define (hs : s.Built) (he : e < s.size) (x : String) (v : Value) :
    (∀ id < s.size, ∀ y,
      (∀ r, s.Search y (some id) r ↔ r = s.get? id y) ∧
      (∀ r, (s.define e x v).Search y (some id) r ↔ r = (s.define e x v).get? id y) ∧
      (y = x ∧ s.Sees id e x → (s.define e x v).get? id y = some v) ∧
      (¬(y = x ∧ s.Sees id e x) → (s.define e x v).get? id y = s.get? id y)) ∧
    ∀ t, s.Becomes t → ∀ id < s.size, t.outer? id = s.outer? id := by
  have hordered : s.Ordered := hs.ordered
  refine ⟨fun id hid y => ⟨?_, ?_, ?_, ?_⟩, ?_⟩
  · intro r
    exact hordered.search_iff hid
  · intro r
    rw [← size_define s e x v] at hid
    exact (hordered.define e x v).search_iff hid
  · rintro ⟨rfl, hsees⟩
    exact hordered.get?_define_of_sees he v hsees
  · exact hordered.get?_define_of_not_sees he v hid
  · intro t ht id hid
    exact (ht.outer?_eq hid).2

/-- Two scopes in one, the second of which binds `n`. -/
def siblings : Scopes := ((fresh.add (some 0)).add (some 0)).define 2 "n" (.int 1)

theorem built_siblings : siblings.Built := by
  have houter : fresh.Built := .single (.top empty)
  have hfirst : (fresh.add (some 0)).Built := houter.tail (.enclosed _ (by decide))
  have hsecond : ((fresh.add (some 0)).add (some 0)).Built :=
    hfirst.tail (.enclosed _ (by decide))
  exact hsecond.tail (.define _ "n" (.int 1) (by decide))

/-- A binding of `n` in the scope around the two is seen from the first one, and hidden from the
second one by its own. -/
theorem search_after_define_siblings :
    siblings.Built ∧ 0 < siblings.size ∧
    (siblings.define 0 "n" (.int 5)).get? 1 "n" = some (.int 5) ∧
    (siblings.define 0 "n" (.int 5)).get? 2 "n" = some (.int 1) := by
  obtain ⟨hlaw, -⟩ := search_after_define built_siblings (e := 0) (by decide) "n" (.int 5)
  refine ⟨built_siblings, by decide, ?_, ?_⟩
  · have hchain : siblings.Chain (some 1) ([1] ++ 0 :: []) :=
      .cons (by decide) (.cons (by decide) .nil)
    have hsees : siblings.Sees 1 0 "n" := ⟨[1], [], hchain, List.forall_mem_singleton.mpr rfl⟩
    exact (hlaw 1 (by decide) "n").2.2.1 ⟨rfl, hsees⟩
  · obtain ⟨hbefore, -, -, hsame⟩ := hlaw 2 (by decide) "n"
    have hhidden : ¬("n" = "n" ∧ siblings.Sees 2 0 "n") := by
      rintro ⟨-, hsees⟩
      obtain ⟨o, -, hbound, -⟩ := hsees.outward (by decide)
      cases hbound
    rw [hsame hhidden, ← (hbefore _).mp (.found rfl)]

end Monkey.Scopes

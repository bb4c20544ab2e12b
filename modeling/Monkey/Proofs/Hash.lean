import Mathlib
import Monkey.Interpreter
import Monkey.Proofs.Evaluation.Context
import Monkey.Proofs.Table

/-!
# What a hash holds

A hash is filled by insertions one after the other.  Of several insertions under one key the first
decides the place and the last decides what stands there, the key as it was given included.  The
main statement says this of any row of insertions, and of hash literals, whose keys and values are
evaluated in the order in which they are written.

A text is stored under its digest, so two different texts can have one key.  The last section says
that this is the only way in which a literal with different keys loses a pair, and that it happens.
-/

namespace Monkey

/-! ## 1. Insertions one after the other -/

/-- The key stands at place `j` of the row, and at no later place. -/
structure IsLast {κ : Type} (keys : List κ) (key : κ) (j : Nat) : Prop where
  here : keys[j]? = some key
  after : ∀ i, j < i → keys[i]? ≠ some key

namespace IsLast

variable {κ : Type} {keys : List κ} {key k : κ} {j : Nat}

theorem append_self (keys : List κ) (key : κ) : IsLast (keys ++ [key]) key keys.length where
  here := List.getElem?_concat_length
  after i hi := by
    rw [List.getElem?_eq_none (by rw [List.length_append, List.length_singleton]; omega)]
    exact Option.some_ne_none key ∘ Eq.symm

theorem append_of_ne (h : IsLast keys key j) (hk : k ≠ key) : IsLast (keys ++ [k]) key j where
  here := by
    obtain ⟨hj, -⟩ := List.getElem?_eq_some_iff.mp h.here
    rw [List.getElem?_append_left hj]
    exact h.here
  after i hi := by
    intro hkey
    rcases Nat.lt_trichotomy i keys.length with hlt | heq | hgt
    · rw [List.getElem?_append_left hlt] at hkey
      exact h.after i hi hkey
    · rw [heq, List.getElem?_concat_length] at hkey
      exact hk (Option.some.inj hkey)
    · rw [List.getElem?_eq_none (by rw [List.length_append, List.length_singleton]; omega)] at hkey
      cases hkey

/-- There is only one last place. -/
theorem unique {i : Nat} (hi : IsLast keys key i) (hj : IsLast keys key j) : i = j := by
  rcases Nat.lt_trichotomy i j with hlt | heq | hgt
  · exact absurd hj.here (hi.after j hlt)
  · exact heq
  · exact absurd hi.here (hj.after i hgt)

theorem exists_of_mem [DecidableEq κ] (h : key ∈ keys) : ∃ j, IsLast keys key j := by
  induction keys using List.reverseRecOn with
  | nil => cases h
  | append_singleton keys k ih =>
    by_cases hk : k = key
    · subst hk
      exact ⟨keys.length, append_self keys k⟩
    · have hmem : key ∈ keys := by
        rcases List.mem_append.mp h with h | h
        · exact h
        · exact absurd (List.mem_singleton.mp h).symm hk
      obtain ⟨j, hj⟩ := ih hmem
      exact ⟨j, hj.append_of_ne hk⟩

end IsLast

namespace Table

variable {κ ν : Type} [DecidableEq κ]

/-- The table that insertions make, begun with the empty one. -/
def ofList (ps : List (κ × ν)) : Table κ ν := ps.foldl (fun t p => t.insert p.1 p.2) []

theorem ofList_append (ps : List (κ × ν)) (p : κ × ν) :
    ofList (ps ++ [p]) = (ofList ps).insert p.1 p.2 := by
  rw [ofList, List.foldl_append]
  rfl

/-- The keys stand in the order in which they first came. -/
theorem keys_ofList (ps : List (κ × ν)) : (ofList ps).keys = (ps.map Prod.fst).eraseDups := by
  induction ps using List.reverseRecOn with
  | nil => rfl
  | append_singleton ps p ih =>
    have hmem : p.1 ∈ (ofList ps).keys ↔ p.1 ∈ ps.map Prod.fst := by
      rw [ih]
      exact List.mem_eraseDups
    rw [ofList_append, keys_insert, List.map_append, List.eraseDups_append, ← ih]
    -- a key that came before keeps its place, another one goes to the end
    by_cases hp : p.1 ∈ ps.map Prod.fst
    · rw [if_pos (hmem.mpr hp)]
      simp [List.removeAll, hp]
    · rw [if_neg (fun h => hp (hmem.mp h))]
      simp [List.removeAll, hp, List.eraseDups_cons]

theorem nodup_keys_ofList (ps : List (κ × ν)) : (ofList ps).keys.Nodup := by
  induction ps using List.reverseRecOn with
  | nil => exact List.nodup_nil
  | append_singleton ps p ih =>
    rw [ofList_append]
    exact nodup_keys_insert ih p.1 p.2

theorem get?_eq_none_of_not_mem {t : Table κ ν} {key : κ} (h : key ∉ t.keys) :
    t.get? key = none := by
  cases hget : t.get? key with
  | none => rfl
  | some value => exact absurd (List.mem_map_of_mem (mem_of_get? hget)) h

/-- The entry of a key is the one that was inserted last. -/
theorem get?_ofList {ps : List (κ × ν)} {key : κ} {j : Nat}
    (h : IsLast (ps.map Prod.fst) key j) : (ofList ps).get? key = (ps.map Prod.snd)[j]? := by
  induction ps using List.reverseRecOn generalizing j with
  | nil => cases h.here
  | append_singleton ps p ih =>
    obtain ⟨k, v⟩ := p
    rw [List.map_append, List.map_singleton] at h
    rw [ofList_append, List.map_append, List.map_singleton]
    by_cases hk : k = key
    · subst hk
      have hlength : (ps.map Prod.fst).length = (ps.map Prod.snd).length := by
        rw [List.length_map, List.length_map]
      rw [get?_insert_self, h.unique (.append_self _ k), hlength, List.getElem?_concat_length]
    · -- the last place of the key is among those before
      have hmem : key ∈ ps.map Prod.fst := by
        rcases List.mem_append.mp (List.mem_of_getElem? h.here) with hmem | hmem
        · exact hmem
        · exact absurd (List.mem_singleton.mp hmem).symm hk
      obtain ⟨i, hi⟩ := IsLast.exists_of_mem hmem
      have hij : j = i := h.unique (hi.append_of_ne hk)
      obtain ⟨hlt, -⟩ := List.getElem?_eq_some_iff.mp hi.here
      rw [List.length_map] at hlt
      rw [get?_insert_of_ne _ _ hk, hij, ih hi,
        List.getElem?_append_left (by rw [List.length_map]; exact hlt)]

/-- Without repeated keys, every entry is found under its key. -/
theorem forall₂_get?_keys {t : Table κ ν} (h : t.keys.Nodup) :
    List.Forall₂ (fun key value => t.get? key = some value) t.keys (t.map Prod.snd) := by
  induction t with
  | nil => exact .nil
  | cons p t ih =>
    obtain ⟨k, v⟩ := p
    rw [keys_cons] at h ⊢
    obtain ⟨hk, ht⟩ := List.nodup_cons.mp h
    refine .cons (if_pos rfl) ?_
    -- no later key is equal to the first
    refine ((List.forall₂_and_left _ _).mpr ⟨fun key hkey => hkey, ih ht⟩).imp ?_
    intro key value ⟨hkey, hget⟩
    have hne : k ≠ key := fun heq => hk (heq ▸ hkey)
    rw [get?, if_neg hne]
    exact hget

/-- What is known of a table after insertions under `keys` of `entries`: it has as many entries as
there are different keys; the entries stand in the order in which their keys first came, and each is
the last one under its key; and this is also the one that is found there. -/
structure LastWins (keys : List κ) (entries : List ν) (t : Table κ ν) : Prop where
  length_eq : t.length = keys.toFinset.card
  entries_eq : List.Forall₂ (fun key e => ∃ j, IsLast keys key j ∧ entries[j]? = some e)
    keys.eraseDups (t.map Prod.snd)
  get?_of_isLast : ∀ {key : κ} {j : Nat}, IsLast keys key j → t.get? key = entries[j]?
  get?_of_not_mem : ∀ {key : κ}, key ∉ keys → t.get? key = none

theorem lastWins_ofList (ps : List (κ × ν)) :
    (ofList ps).LastWins (ps.map Prod.fst) (ps.map Prod.snd) where
  length_eq := by
    have hkeys : (ofList ps).keys.toFinset = (ps.map Prod.fst).toFinset := by
      ext key
      rw [List.mem_toFinset, List.mem_toFinset, keys_ofList, List.mem_eraseDups]
    rw [← hkeys, List.toFinset_card_of_nodup (nodup_keys_ofList ps)]
    exact (List.length_map Prod.fst).symm
  entries_eq := by
    rw [← keys_ofList]
    refine ((List.forall₂_and_left _ _).mpr
      ⟨fun key hkey => hkey, forall₂_get?_keys (nodup_keys_ofList ps)⟩).imp ?_
    intro key value ⟨hkey, hget⟩
    rw [keys_ofList, List.mem_eraseDups] at hkey
    obtain ⟨j, hj⟩ := IsLast.exists_of_mem hkey
    exact ⟨j, hj, (get?_ofList hj).symm.trans hget⟩
  get?_of_isLast := get?_ofList
  get?_of_not_mem h := get?_eq_none_of_not_mem (by rw [keys_ofList, List.mem_eraseDups]; exact h)

theorem insert_of_not_mem {t : Table κ ν} {key : κ} (value : ν) (h : key ∉ t.keys) :
    t.insert key value = t ++ [(key, value)] := by
  induction t with
  | nil => rfl
  | cons p t ih =>
    rw [keys_cons, List.mem_cons, not_or] at h
    rw [insert, if_neg (Ne.symm h.1), ih h.2, List.cons_append]

/-- Under different keys nothing is replaced. -/
theorem ofList_of_nodup {ps : List (κ × ν)} (h : (ps.map Prod.fst).Nodup) : ofList ps = ps := by
  induction ps using List.reverseRecOn with
  | nil => rfl
  | append_singleton ps p ih =>
    rw [List.map_append, List.map_singleton, List.nodup_append] at h
    obtain ⟨hps, -, hp⟩ := h
    rw [ofList_append, ih hps]
    exact insert_of_not_mem p.2 fun hmem => hp p.1 hmem p.1 (List.mem_singleton_self _) rfl

end Table

/-! ## 2. Hash literals -/

/-- The keys and values, evaluated in the order in which they are written, come to `kvs`. -/
inductive PairsYield (call : Value → List Value → Eval Value) (scope : Nat) :
    List (Expr × Expr) → Scopes → List (Value × Value) → Scopes → Prop where
  | nil {s : Scopes} : PairsYield call scope [] s [] s
  | cons {k v : Expr} {ps : List (Expr × Expr)} {key value : Value} {kvs : List (Value × Value)}
      {s s₁ s₂ s' : Scopes} :
      k.eval call scope s = .ok key s₁ → v.eval call scope s₁ = .ok value s₂ →
      PairsYield call scope ps s₂ kvs s' →
      PairsYield call scope ((k, v) :: ps) s ((key, value) :: kvs) s'

/-- The values can be keys of a hash, and `keys` is what their pairs are stored under. -/
def KeysOf (kvs : List (Value × Value)) (keys : List HashKey) : Prop :=
  List.Forall₂ (fun p key => p.1.hashKey? = some key) kvs keys

variable {call : Value → List Value → Eval Value} {scope : Nat} {ps : List (Expr × Expr)}
  {kvs : List (Value × Value)} {keys : List HashKey} {s s' : Scopes}

theorem PairsYield.evalPairs_eq (h : PairsYield call scope ps s kvs s') (hkeys : KeysOf kvs keys)
    (table : Table HashKey (Value × Value)) :
    evalPairs call scope table ps s =
      .ok ((keys.zip kvs).foldl (fun t p => t.insert p.1 p.2) table) s' := by
  induction h generalizing table keys with
  | nil =>
    cases hkeys
    rfl
  | @cons k v ps key value kvs s s₁ s₂ s' hk hv hps ih =>
    cases hkeys with
    | @cons _ digest _ digests hdigest hkeys =>
      have hdigest : key.hashKey? = some digest := hdigest
      rw [evalPairs, Eval.bind_of_ok hk, hdigest]
      dsimp only
      rw [Eval.bind_of_ok hv]
      exact ih hkeys _

/-- A hash literal makes its insertions in the order in which it is written. -/
theorem PairsYield.eval_eq (h : PairsYield call scope ps s kvs s') (hkeys : KeysOf kvs keys)
    (t : Token) :
    (Expr.hash t ps).eval call scope s = .ok (.hash (Table.ofList (keys.zip kvs))) s' := by
  rw [Expr.eval, Eval.bind_of_ok (h.evalPairs_eq hkeys [])]
  rfl

theorem KeysOf.unzip (h : KeysOf kvs keys) :
    (keys.zip kvs).map Prod.fst = keys ∧ (keys.zip kvs).map Prod.snd = kvs := by
  have hlength := h.length_eq
  exact ⟨List.map_fst_zip (Nat.le_of_eq hlength.symm), List.map_snd_zip (Nat.le_of_eq hlength)⟩

theorem Value.atIndex_hash {table : Table HashKey (Value × Value)} {k : Value} {key : HashKey}
    (hk : k.hashKey? = some key) :
    (Value.hash table).atIndex k = .ok ((table.get? key).elim .null Prod.snd) := by
  rw [Value.atIndex, hk]

/-- If the keys and values of a hash literal come to `kvs`, and the keys are stored under `keys`,
then the literal makes a hash in which the last pair under a key wins: the hash has a pair for each
different key, in the order in which these first came, and the pair is the last one under its key.
Indexing finds the value of this pair, or `null` under a key that did not come.  The same holds of
any row of insertions into a new table. -/
theorem hash_lastWins (call : Value → List Value → Eval Value) (scope : Nat) :
    (∀ (t : Token) (ps : List (Expr × Expr)) (kvs : List (Value × Value)) (keys : List HashKey)
      (s s' : Scopes), PairsYield call scope ps s kvs s' → KeysOf kvs keys →
      ∃ table, (Expr.hash t ps).eval call scope s = .ok (.hash table) s' ∧
        Table.LastWins keys kvs table ∧
        ∀ (k : Value) (key : HashKey), k.hashKey? = some key →
          (∀ j p, IsLast keys key j → kvs[j]? = some p →
            (Value.hash table).atIndex k = .ok p.2) ∧
          (key ∉ keys → (Value.hash table).atIndex k = .ok .null)) ∧
    ∀ sets : List (HashKey × (Value × Value)),
      Table.LastWins (sets.map Prod.fst) (sets.map Prod.snd) (Table.ofList sets) := by
  refine ⟨fun t ps kvs keys s s' hps hkeys => ?_, Table.lastWins_ofList⟩
  have hwins := Table.lastWins_ofList (keys.zip kvs)
  rw [hkeys.unzip.1, hkeys.unzip.2] at hwins
  refine ⟨_, hps.eval_eq hkeys t, hwins, fun k key hk => ⟨fun j p hj hp => ?_, fun hkey => ?_⟩⟩
  · rw [Value.atIndex_hash hk, hwins.get?_of_isLast hj, hp]
    rfl
  · rw [Value.atIndex_hash hk, hwins.get?_of_not_mem hkey]
    rfl

/-- The pairs of `{1: "a", true: 2}`. -/
def mixedPairs : List (Expr × Expr) :=
  [(.int ⟨.int, "1"⟩ 1, .str ⟨.string, "a"⟩ "a"),
    (.bool ⟨.trueWord, "true"⟩ true, .int ⟨.int, "2"⟩ 2)]

/-- The pairs of `{1: "a", true: 2, 1: 3}`. -/
def repeatedPairs : List (Expr × Expr) :=
  mixedPairs ++ [(.int ⟨.int, "1"⟩ 1, .int ⟨.int, "3"⟩ 3)]

theorem hash_lastWins_repeated :
    ∃ table, (Expr.hash ⟨.lbrace, "\x7b"⟩ repeatedPairs).eval (applyWithin 0) 0 .fresh =
        .ok (.hash table) .fresh ∧ table.length = 2 ∧
      (Value.hash table).atIndex (.int 1) = .ok (.int 3) ∧
      (Value.hash table).atIndex (.str "a") = .ok .null := by
  have hps : PairsYield (applyWithin 0) 0 repeatedPairs .fresh
      [(.int 1, .str "a"), (.bool true, .int 2), (.int 1, .int 3)] .fresh :=
    .cons rfl rfl (.cons rfl rfl (.cons rfl rfl .nil))
  have hkeys : KeysOf [(.int 1, .str "a"), (.bool true, .int 2), (.int 1, .int 3)]
      [⟨.integer, 1⟩, ⟨.boolean, 1⟩, ⟨.integer, 1⟩] := .cons rfl (.cons rfl (.cons rfl .nil))
  obtain ⟨table, heval, hwins, hindex⟩ := (hash_lastWins (applyWithin 0) 0).1 _ _ _ _ _ _ hps hkeys
  refine ⟨table, heval, hwins.length_eq.trans (by decide), ?_, ?_⟩
  · exact (hindex (.int 1) ⟨.integer, 1⟩ rfl).1 2 _ (.append_self [_, _] _) rfl
  · exact (hindex (.str "a") _ rfl).2 (by simp)

/-! ## 3. Keys that are the same -/

/-- Different texts with one digest. -/
def Value.Collides (a b : Value) : Prop :=
  ∃ x y : String, a = .str x ∧ b = .str y ∧ x ≠ y ∧
    Digest.xxh64 (Utf8.encode x) = Digest.xxh64 (Utf8.encode y)

theorem Value.hashKey?_eq_iff {a b : Value} (ha : a.hashKey?.isSome) (hb : b.hashKey?.isSome) :
    a.hashKey? = b.hashKey? ↔ a = b ∨ a.Collides b := by
  constructor
  · intro h
    match a, b, ha, hb with
    | .int m, .int n, _, _ =>
      simp only [hashKey?, Option.some.injEq, HashKey.mk.injEq, true_and] at h
      have hmn : m = n := congrArg Int64.ofUInt64 h
      exact .inl (congrArg Value.int hmn)
    | .bool x, .bool y, _, _ =>
      cases x <;> cases y <;> first | exact .inl rfl | exact absurd h (by decide)
    | .str x, .str y, _, _ =>
      simp only [hashKey?, Option.some.injEq, HashKey.mk.injEq, true_and] at h
      by_cases hxy : x = y
      · exact .inl (congrArg Value.str hxy)
      · exact .inr ⟨x, y, rfl, rfl, hxy, h⟩
    | .int _, .bool _, _, _ | .int _, .str _, _, _ | .bool _, .int _, _, _ | .bool _, .str _, _, _
    | .str _, .int _, _, _ | .str _, .bool _, _, _ =>
      simp [hashKey?] at h
  · rintro (rfl | ⟨x, y, rfl, rfl, -, h⟩)
    · rfl
    · rw [hashKey?, hashKey?, h]

theorem KeysOf.map_hashKey? (h : KeysOf kvs keys) :
    (kvs.map Prod.fst).map Value.hashKey? = keys.map some := by
  induction h with
  | nil => rfl
  | cons hp _ ih => rw [List.map_cons, List.map_cons, List.map_cons, hp, ih]

theorem KeysOf.isSome_hashKey? (h : KeysOf kvs keys) {a : Value} (ha : a ∈ kvs.map Prod.fst) :
    a.hashKey?.isSome := by
  have hmem : a.hashKey? ∈ keys.map some := h.map_hashKey? ▸ List.mem_map_of_mem ha
  obtain ⟨key, -, hkey⟩ := List.mem_map.mp hmem
  rw [← hkey]
  rfl

/-- No key comes twice exactly if the keys as they were given are different and no two of them are
texts with one digest. -/
theorem KeysOf.nodup_iff (h : KeysOf kvs keys) :
    keys.Nodup ↔ (kvs.map Prod.fst).Nodup ∧
      (kvs.map Prod.fst).Pairwise fun a b => ¬a.Collides b := by
  have hne {a b : Value} (ha : a ∈ kvs.map Prod.fst) (hb : b ∈ kvs.map Prod.fst) :
      a.hashKey? ≠ b.hashKey? ↔ a ≠ b ∧ ¬a.Collides b := by
    rw [Ne, Value.hashKey?_eq_iff (h.isSome_hashKey? ha) (h.isSome_hashKey? hb), not_or]
  calc
    keys.Nodup ↔ (keys.map some).Nodup :=
      (List.nodup_map_iff (Option.some_injective HashKey)).symm
    _ ↔ (kvs.map Prod.fst).Pairwise fun a b => a.hashKey? ≠ b.hashKey? := by
      rw [← h.map_hashKey?, List.Nodup, List.pairwise_map]
    _ ↔ (kvs.map Prod.fst).Pairwise fun a b => a ≠ b ∧ ¬a.Collides b :=
      List.Pairwise.iff_of_mem hne
    _ ↔ _ := List.pairwise_and_iff

/-- Nothing is replaced exactly if no key comes twice. -/
theorem Table.map_snd_ofList_iff {κ ν : Type} [DecidableEq κ] {ps : List (κ × ν)} :
    (ofList ps).map Prod.snd = ps.map Prod.snd ↔ (ps.map Prod.fst).Nodup := by
  constructor
  · intro h
    have hlength : (ofList ps).length = (ps.map Prod.fst).length := by
      have := congrArg List.length h
      rw [List.length_map, List.length_map] at this
      rw [this, List.length_map]
    rw [(lastWins_ofList ps).length_eq] at hlength
    exact Multiset.toFinset_card_eq_card_iff_nodup.mp hlength
  · intro h
    rw [ofList_of_nodup h]

/-- Two values that can be keys have the same key exactly if they are the same value, or are
different texts with one digest.  So a hash literal whose keys are all different keeps its pairs
exactly if no two of them are such texts. -/
theorem hash_keeps_pairs_iff (call : Value → List Value → Eval Value) (scope : Nat) :
    (∀ a b : Value, a.hashKey?.isSome → b.hashKey?.isSome →
      (a.hashKey? = b.hashKey? ↔ a = b ∨ a.Collides b)) ∧
    ∀ (t : Token) (ps : List (Expr × Expr)) (kvs : List (Value × Value)) (keys : List HashKey)
      (s s' : Scopes), PairsYield call scope ps s kvs s' → KeysOf kvs keys →
      (kvs.map Prod.fst).Nodup →
      ∃ table, (Expr.hash t ps).eval call scope s = .ok (.hash table) s' ∧
        (table.map Prod.snd = kvs ↔ (kvs.map Prod.fst).Pairwise fun a b => ¬a.Collides b) := by
  refine ⟨fun a b => Value.hashKey?_eq_iff, fun t ps kvs keys s s' hps hkeys hnodup => ?_⟩
  refine ⟨_, hps.eval_eq hkeys t, ?_⟩
  have hkept : (Table.ofList (keys.zip kvs)).map Prod.snd = (keys.zip kvs).map Prod.snd ↔ _ :=
    Table.map_snd_ofList_iff
  rw [hkeys.unzip.1, hkeys.unzip.2, hkeys.nodup_iff] at hkept
  rw [hkept]
  exact and_iff_right hnodup

theorem hash_keeps_pairs_iff_mixed :
    ∃ table, (Expr.hash ⟨.lbrace, "\x7b"⟩ mixedPairs).eval (applyWithin 0) 0 .fresh =
        .ok (.hash table) .fresh ∧
      table.map Prod.snd = [(.int 1, .str "a"), (.bool true, .int 2)] := by
  have hps : PairsYield (applyWithin 0) 0 mixedPairs .fresh
      [(.int 1, .str "a"), (.bool true, .int 2)] .fresh :=
    .cons rfl rfl (.cons rfl rfl .nil)
  have hkeys : KeysOf [(.int 1, .str "a"), (.bool true, .int 2)]
      [⟨.integer, 1⟩, ⟨.boolean, 1⟩] := .cons rfl (.cons rfl .nil)
  obtain ⟨table, heval, hkept⟩ :=
    (hash_keeps_pairs_iff (applyWithin 0) 0).2 _ _ _ _ _ _ hps hkeys (by simp)
  refine ⟨table, heval, hkept.mpr ?_⟩
  simp [Value.Collides]

/-- Two different texts with one digest, in one literal: the second pair takes the place of the
first. -/
theorem hash_loses_pair :
    Value.str "monkeyaagajfjjhf" ≠ .str "jvuqrbfxfAiRMTLL" ∧
    (Value.str "monkeyaagajfjjhf").hashKey? = (Value.str "jvuqrbfxfAiRMTLL").hashKey? ∧
    (Interpreter.standard.eval "\x7b\"monkeyaagajfjjhf\": 1, \"jvuqrbfxfAiRMTLL\": 2\x7d"
        .fresh).1.result =
      .value (some (.hash
        [(⟨.string, 7258278855269462199⟩, (.str "jvuqrbfxfAiRMTLL", .int 2))])) :=
  ⟨by simp, by decide +kernel, by cbv⟩

end Monkey

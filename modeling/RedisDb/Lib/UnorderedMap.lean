import Mathlib.Data.List.AList
import Mathlib.Tactic

/-!
# Maps with an iteration order nobody relies on

An association list without duplicate keys, for a hash map whose iteration order is left open: the
order of the entries is some order, and what is proved of every such list holds for any order.
-/

/-- A hash map from `K` to `V`. -/
abbrev UnorderedMap (K V : Type) := AList fun _ : K => V

namespace UnorderedMap

variable {K V W : Type} [DecidableEq K]

/-- The number of keys. -/
def size (m : UnorderedMap K V) : ℕ := m.entries.length

/-- Change the value of every key. -/
def mapVal (f : K → V → W) (m : UnorderedMap K V) : UnorderedMap K W where
  entries := m.entries.map fun e => ⟨e.1, f e.1 e.2⟩
  nodupKeys := by
    have h := m.nodupKeys
    rw [List.NodupKeys, List.keys, List.map_map] at *
    exact h

theorem lookup_insert_eq_ite (m : UnorderedMap K V) (k a : K) (v : V) :
    (m.insert a v).lookup k = if k = a then some v else m.lookup k := by
  split
  · next h => subst h; exact AList.lookup_insert m
  · next h => exact AList.lookup_insert_ne h

theorem lookup_erase_eq_ite (m : UnorderedMap K V) (k a : K) :
    (m.erase a).lookup k = if k = a then none else m.lookup k := by
  split
  · next h => subst h; exact AList.lookup_erase k m
  · next h => exact AList.lookup_erase_ne h

theorem lookup_mapVal (f : K → V → W) (m : UnorderedMap K V) (k : K) :
    (mapVal f m).lookup k = (m.lookup k).map (f k) := by
  rcases m with ⟨entries, hnodup⟩
  simp only [mapVal, AList.lookup]
  clear hnodup
  induction entries with
  | nil => rfl
  | cons e entries ih =>
    obtain ⟨a, v⟩ := e
    by_cases h : k = a
    · subst h; simp
    · rw [List.map_cons, List.dlookup_cons_ne _ _ h, List.dlookup_cons_ne _ _ h, ih]

theorem mem_entries_iff {m : UnorderedMap K V} {k : K} {v : V} :
    (⟨k, v⟩ : Sigma fun _ : K => V) ∈ m.entries ↔ m.lookup k = some v :=
  AList.mem_lookup_iff.symm

/-- What holds of every entry can be tested on the list of them. -/
theorem forall_lookup_iff {m : UnorderedMap K V} {P : K → V → Prop} :
    (∀ k v, m.lookup k = some v → P k v) ↔ ∀ e ∈ m.entries, P e.1 e.2 :=
  ⟨fun h e he => h e.1 e.2 (mem_entries_iff.mp he), fun h k v hv => h ⟨k, v⟩ (mem_entries_iff.mpr hv)⟩

theorem size_ne_zero {m : UnorderedMap K V} {k : K} {v : V} (h : m.lookup k = some v) :
    m.size ≠ 0 :=
  (List.length_pos_of_mem (mem_entries_iff.mpr h)).ne'

omit [DecidableEq K] in
/-- A map with fewer keys is smaller. -/
theorem size_le_of_subset {m m' : UnorderedMap K V} (h : ∀ k ∈ m, k ∈ m') : m.size ≤ m'.size := by
  have hle := (m.keys_nodup.subperm fun k hk => h k hk : m.keys.Subperm m'.keys).length_le
  simpa only [AList.keys, List.keys, List.length_map, size] using hle

omit [DecidableEq K] in
/-- A map without one of the keys is strictly smaller. -/
theorem size_lt_of_subset {m m' : UnorderedMap K V} (h : ∀ k ∈ m, k ∈ m') {k : K} (hmem : k ∈ m')
    (hnot : k ∉ m) : m.size < m'.size := by
  have hnodup : (k :: m.keys).Nodup := List.nodup_cons.mpr ⟨hnot, m.keys_nodup⟩
  have hsub : k :: m.keys ⊆ m'.keys := List.cons_subset.mpr ⟨hmem, fun k hk => h k hk⟩
  have hle := (hnodup.subperm hsub).length_le
  simp only [AList.keys, List.keys, List.length_map, List.length_cons] at hle
  exact hle

@[simp] theorem lookup_empty (k : K) : (∅ : UnorderedMap K V).lookup k = none := rfl

/-- The map with one more entry. -/
def assign (m : K → Option V) (kv : K × V) : K → Option V := Function.update m kv.1 (some kv.2)

/-- Entries with distinct keys, put into a map one after another, are what the map holds at their
keys. By induction on the entries. -/
theorem foldl_assign_eq_some_iff (kvs : List (K × V)) : ∀ {m : K → Option V} {k : K} {v : V},
    (kvs.map Prod.fst).Nodup →
    (kvs.foldl assign m k = some v ↔
      (k, v) ∈ kvs ∨ k ∉ kvs.map Prod.fst ∧ m k = some v) := by
  induction kvs with
  | nil => intro m k v _; simp
  | cons kv kvs ih =>
    intro m k v hnodup
    rw [List.map_cons, List.nodup_cons] at hnodup
    rw [List.foldl_cons, ih hnodup.2, List.mem_cons, List.map_cons, List.mem_cons, not_or,
      assign, Function.update_apply]
    by_cases hk : k = kv.1
    · subst hk
      -- a key is assigned to once, so the first assignment is the last
      have hno : (kv.1, v) ∉ kvs := fun hmem =>
        hnodup.1 (List.mem_map.mpr ⟨_, hmem, rfl⟩)
      simp only [hno, hnodup.1, not_false_eq_true, if_true, Option.some.injEq, true_and, false_or,
        not_true_eq_false, false_and, or_false]
      exact ⟨fun h => by rw [← h], fun h => (congrArg Prod.snd h).symm⟩
    · have hne : (k, v) ≠ kv := fun h => hk (congrArg Prod.fst h)
      simp only [hne, false_or, hk, not_false_eq_true, true_and, if_false]

/-- The map with exactly these entries. -/
theorem foldl_assign_eq {kvs : List (K × V)} {m : K → Option V} (hnodup : (kvs.map Prod.fst).Nodup)
    (hmem : ∀ k v, (k, v) ∈ kvs ↔ m k = some v) :
    kvs.foldl assign (fun _ => none) = m := by
  funext k
  refine Option.ext fun v => ?_
  rw [foldl_assign_eq_some_iff kvs hnodup, ← hmem]
  simp

/-! ### Totals -/

/-- What the entries amount to, each by a measure. -/
def total (f : K → V → ℕ) (m : UnorderedMap K V) : ℕ := (m.entries.map fun e => f e.1 e.2).sum

variable (f : K → V → ℕ) {m : UnorderedMap K V} {k : K}

omit [DecidableEq K] in
@[simp] theorem total_empty : total f (∅ : UnorderedMap K V) = 0 := rfl

/-- An entry is taken out of the total with its key. -/
theorem total_erase {v : V} (h : m.lookup k = some v) : total f m = f k v + total f (m.erase k) := by
  rcases m with ⟨entries, hnodup⟩
  change List.dlookup k entries = some v at h
  show (entries.map fun e => f e.1 e.2).sum = f k v + ((List.kerase k entries).map fun e => f e.1 e.2).sum
  clear hnodup
  induction entries with
  | nil => cases h
  | cons e entries ih =>
    obtain ⟨a, w⟩ := e
    -- the entry of the key is the first one, or among the others
    by_cases hk : k = a
    · subst hk
      rw [List.dlookup_cons_eq, Option.some.injEq] at h
      have herase : List.kerase k (⟨k, w⟩ :: entries) = entries := List.kerase_cons_eq rfl
      rw [herase, List.map_cons, List.sum_cons, h]
    · rw [List.dlookup_cons_ne _ _ hk] at h
      have herase : List.kerase k (⟨a, w⟩ :: entries) = ⟨a, w⟩ :: List.kerase k entries :=
        List.kerase_cons_ne hk
      rw [herase, List.map_cons, List.sum_cons, List.map_cons, List.sum_cons, ih h]
      exact Nat.add_left_comm _ _ _

theorem total_erase_of_none (h : m.lookup k = none) : total f (m.erase k) = total f m := by
  have hkeys : k ∉ m.entries.keys := fun hmem => AList.lookup_eq_none.mp h hmem
  have hentries : (m.erase k).entries = m.entries := List.kerase_of_notMem_keys hkeys
  rw [total, hentries, total]

theorem total_insert (v : V) : total f (m.insert k v) = f k v + total f (m.erase k) := by
  rw [total, AList.insert]
  rfl

/-- An entry takes the place of another with its key. -/
theorem total_replace {v w : V} (h : m.lookup k = some w) :
    total f (m.insert k v) + f k w = total f m + f k v := by
  rw [total_insert, total_erase f h]
  omega

end UnorderedMap

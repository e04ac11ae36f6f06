import RedisDb.Lib.UnorderedMap

/-!
# Indexes

A map from keys to the list of the values entered under them, kept free of empty lists: entering a value makes the
list where there is none, and removing the last value removes the list. A value can be entered several times, and is
removed with all its occurrences.

An index is known by the lists `valuesAt`, and every operation has one lemma that says what they are after it. That no
list is empty (`Proper`) is kept by every operation, and it is what makes the presence of a key mean that there is a
value under it. How often a value is entered under a key is counted by three lemmas at the end, for those who must
show that it is entered once.
-/

/-- A set with an iteration order nobody relies on. -/
abbrev UnorderedSet (K : Type) := UnorderedMap K Unit

/-- An index from keys to values. -/
abbrev Index (K V : Type) := UnorderedMap K (List V)

/-- Filtering out one value leaves the counts of the others. -/
theorem List.count_filter_ne {α : Type} [BEq α] [LawfulBEq α] [DecidableEq α] (l : List α)
    (a b : α) : (l.filter (· ≠ b)).count a = if a = b then 0 else l.count a := by
  by_cases hab : a = b
  · subst hab
    rw [if_pos rfl]
    exact List.count_eq_zero.mpr fun hmem =>
      absurd rfl (of_decide_eq_true (List.mem_filter.mp hmem).2)
  · rw [if_neg hab]
    exact List.count_filter (p := fun x => decide (x ≠ b)) (decide_eq_true hab)

namespace Index

variable {K V : Type} [DecidableEq K]

/-- The values under a key. -/
def valuesAt (m : Index K V) (k : K) : List V := (m.lookup k).getD []

/-- Enter a value under a key, behind the others. -/
def push (m : Index K V) (k : K) (v : V) : Index K V := m.insert k (m.valuesAt k ++ [v])

/-- Remove a value under a key. -/
def remove [DecidableEq V] (m : Index K V) (k : K) (v : V) : Index K V :=
  match m.lookup k with
  | none => m
  | some vs => if vs.filter (· ≠ v) = [] then m.erase k else m.insert k (vs.filter (· ≠ v))

/-- Whether a value is entered anywhere. -/
def contains [DecidableEq V] (m : Index K V) (v : V) : Bool := m.entries.any fun e => v ∈ e.2

/-- No key has an empty list. -/
def Proper (m : Index K V) : Prop := ∀ k, m.lookup k ≠ some []

/-- Nothing is entered in an empty index. -/
@[simp] theorem valuesAt_empty (k : K) : (∅ : Index K V).valuesAt k = [] := rfl

/-- The value comes behind the others, and the lists of other keys stay. -/
theorem valuesAt_push (m : Index K V) (k j : K) (v : V) :
    (m.push k v).valuesAt j = if j = k then m.valuesAt k ++ [v] else m.valuesAt j := by
  rw [push, valuesAt, UnorderedMap.lookup_insert_eq_ite]
  split <;> rfl

/-- The empty index has no lists. -/
theorem proper_empty : (∅ : Index K V).Proper := fun _ h => nomatch h

/-- A list that has got a value is not empty. -/
theorem Proper.push {m : Index K V} (h : m.Proper) (k : K) (v : V) : (m.push k v).Proper := by
  intro j
  rw [Index.push, UnorderedMap.lookup_insert_eq_ite]
  split
  · simp
  · exact h j

/-- Enter a value under several keys. -/
def pushAll (m : Index K V) (ks : List K) (v : V) : Index K V := ks.foldl (fun m k => m.push k v) m

/-- Each key gets the value as often as it is named. By induction on the keys. -/
theorem valuesAt_pushAll (ks : List K) (v : V) (j : K) : ∀ m : Index K V,
    (m.pushAll ks v).valuesAt j = m.valuesAt j ++ List.replicate (ks.count j) v := by
  induction ks with
  | nil => intro m; simp [pushAll]
  | cons k ks ih =>
    intro m
    have hstep : (m.pushAll (k :: ks) v).valuesAt j = ((m.push k v).pushAll ks v).valuesAt j := rfl
    rw [hstep, ih, valuesAt_push, List.count_cons]
    by_cases hj : j = k
    · subst hj
      rw [if_pos rfl, beq_self_eq_true, if_pos rfl, List.append_assoc, List.replicate_succ,
        List.singleton_append]
    · rw [if_neg hj, if_neg (by simpa using fun h : k = j => hj h.symm), Nat.add_zero]

/-- What is entered afterwards. -/
theorem mem_valuesAt_pushAll {m : Index K V} {ks : List K} {v w : V} {j : K} :
    w ∈ (m.pushAll ks v).valuesAt j ↔ w ∈ m.valuesAt j ∨ w = v ∧ j ∈ ks := by
  rw [valuesAt_pushAll, List.mem_append, List.mem_replicate, ne_eq, List.count_eq_zero, not_not,
    and_comm (a := j ∈ ks)]

/-- By induction on the keys. -/
theorem Proper.pushAll (ks : List K) (v : V) : ∀ {m : Index K V}, m.Proper → (m.pushAll ks v).Proper := by
  induction ks with
  | nil => exact fun h => h
  | cons k ks ih => exact fun h => ih (h.push k v)

variable [DecidableEq V]

/-- A value is contained if it is entered under some key. -/
theorem contains_iff {m : Index K V} {v : V} : m.contains v = true ↔ ∃ k, v ∈ m.valuesAt k := by
  rw [contains, List.any_eq_true]
  constructor
  · rintro ⟨⟨k, vs⟩, he, hv⟩
    refine ⟨k, ?_⟩
    rw [valuesAt, UnorderedMap.mem_entries_iff.mp he]
    exact of_decide_eq_true hv
  · rintro ⟨k, hv⟩
    rw [valuesAt] at hv
    cases hk : m.lookup k with
    | none => rw [hk] at hv; cases hv
    | some vs =>
      rw [hk] at hv
      exact ⟨⟨k, vs⟩, UnorderedMap.mem_entries_iff.mpr hk, decide_eq_true hv⟩

/-- There is nothing to remove where there is no list. -/
theorem remove_of_none {m : Index K V} {k : K} (h : m.lookup k = none) (v : V) :
    m.remove k v = m := by rw [remove, h]

/-- The list goes with its last value. -/
theorem remove_of_some {m : Index K V} {k : K} {vs : List V} (h : m.lookup k = some vs) (v : V) :
    m.remove k v = if vs.filter (· ≠ v) = [] then m.erase k else m.insert k (vs.filter (· ≠ v)) := by
  rw [remove, h]

/-- All occurrences of the value go, whether or not the list does. -/
theorem valuesAt_remove (m : Index K V) (k j : K) (v : V) :
    (m.remove k v).valuesAt j = if j = k then (m.valuesAt k).filter (· ≠ v) else m.valuesAt j := by
  cases hk : m.lookup k with
  | none =>
    rw [remove_of_none hk]
    split
    · next hj => rw [hj, valuesAt, hk]; rfl
    · rfl
  | some vs =>
    have hat : m.valuesAt k = vs := by rw [valuesAt, hk]; rfl
    rw [hat, remove_of_some hk]
    split
    · next hnil =>
      rw [valuesAt, UnorderedMap.lookup_erase_eq_ite, hnil]
      split <;> rfl
    · rw [valuesAt, UnorderedMap.lookup_insert_eq_ite]
      split <;> rfl

/-- A list that would be empty is taken out. -/
theorem Proper.remove {m : Index K V} (h : m.Proper) (k : K) (v : V) : (m.remove k v).Proper := by
  intro j
  cases hk : m.lookup k with
  | none => rw [remove_of_none hk]; exact h j
  | some vs =>
    rw [remove_of_some hk]
    split
    · rw [UnorderedMap.lookup_erase_eq_ite]
      split
      · simp
      · exact h j
    · next hne =>
      rw [UnorderedMap.lookup_insert_eq_ite]
      split
      · exact fun heq => hne (Option.some.inj heq)
      · exact h j

/-- Remove a value under several keys. -/
def removeAll (m : Index K V) (ks : List K) (v : V) : Index K V :=
  ks.foldl (fun m k => m.remove k v) m

/-- By induction on the keys: a key that is named twice has nothing more to lose. -/
theorem valuesAt_removeAll (ks : List K) (v : V) (j : K) : ∀ m : Index K V,
    (m.removeAll ks v).valuesAt j = if j ∈ ks then (m.valuesAt j).filter (· ≠ v) else m.valuesAt j := by
  induction ks with
  | nil => intro m; simp [removeAll]
  | cons k ks ih =>
    intro m
    have hstep : (m.removeAll (k :: ks) v).valuesAt j = ((m.remove k v).removeAll ks v).valuesAt j := rfl
    rw [hstep, ih, valuesAt_remove]
    by_cases hj : j = k
    · subst hj
      simp [List.filter_filter]
    · simp [hj]

/-- What is left afterwards. -/
theorem mem_valuesAt_removeAll {m : Index K V} {ks : List K} {v w : V} {j : K} :
    w ∈ (m.removeAll ks v).valuesAt j ↔ w ∈ m.valuesAt j ∧ (j ∈ ks → w ≠ v) := by
  rw [valuesAt_removeAll]
  by_cases hj : j ∈ ks <;> simp [hj]

/-- By induction on the keys. -/
theorem Proper.removeAll (ks : List K) (v : V) :
    ∀ {m : Index K V}, m.Proper → (m.removeAll ks v).Proper := by
  induction ks with
  | nil => exact fun h => h
  | cons k ks ih => exact fun h => ih (h.remove k v)

/-! ### Counting -/

/-- One more occurrence under the key. -/
theorem count_valuesAt_push (m : Index K V) (k j : K) (v w : V) :
    ((m.push k v).valuesAt j).count w
      = (m.valuesAt j).count w + if j = k ∧ w = v then 1 else 0 := by
  rw [valuesAt_push]
  by_cases hj : j = k
  · subst hj
    rw [if_pos rfl, List.count_append, List.count_singleton]
    by_cases hw : w = v
    · simp [hw]
    · simp [hw, Ne.symm hw]
  · simp [hj]

/-- No occurrence is left under the key. -/
theorem count_valuesAt_remove (m : Index K V) (k j : K) (v w : V) :
    ((m.remove k v).valuesAt j).count w
      = if j = k ∧ w = v then 0 else (m.valuesAt j).count w := by
  rw [valuesAt_remove]
  by_cases hj : j = k
  · subst hj
    rw [if_pos rfl, List.count_filter_ne]
    simp
  · simp [hj]

/-- None is left under any of the keys. -/
theorem count_valuesAt_removeAll (m : Index K V) (ks : List K) (j : K) (v w : V) :
    ((m.removeAll ks v).valuesAt j).count w
      = if j ∈ ks ∧ w = v then 0 else (m.valuesAt j).count w := by
  rw [valuesAt_removeAll]
  by_cases hj : j ∈ ks
  · rw [if_pos hj, List.count_filter_ne]
    simp [hj]
  · simp [hj]

end Index

import Mathlib.Data.Finset.Card
import Mathlib.Data.Set.Finite.Lemmas
import RedisDb.Storage.HashTableRefine

/-!
# Clones of `HashTable`

`clone` copies the buckets and the size, but the clone counts the tombstones from zero, so the load that
`checkRehash` sees is less than the one there is. `Covered` is what is left of the invariant: the counter
lags by half the capacity at most, and then a rehash still comes before the last bucket is used.

`clone_equivalent_iff` says when a clone gives the same answers as its source: when at most half of the
buckets of the source are tombstones. With more of them, a clone runs out of buckets before it sees the need
for a rehash, and drops what is set. A single clone of a table is never that far gone; clones that were
modified and cloned again can be (`clone_of_clone_differs`).
-/

namespace RedisDb
namespace HashTable

variable {K V : Type} [DecidableEq K] [Inhabited K] [Inhabited V] {hash : K → ℕ}

/-! ### Calls and answers -/

variable (K V) in
/-- The calls of a user of the table. -/
inductive Call where
  | set (key : K) (value : V)
  | del (key : K)
  | get (key : K)
  | contains (key : K)
  | size

variable (V) in
/-- What a call returns. -/
inductive Answer where
  | flag (b : Bool)
  | found (value : Option V)
  | count (n : ℕ)
  deriving DecidableEq

/-- The table after a call. -/
def Call.after (hash : K → ℕ) (t : HashTable K V) : Call K V → HashTable K V
  | .set key value => (t.set hash key value).1
  | .del key => (t.del hash key).1
  | _ => t

/-- The answer to a call. -/
def Call.answer (hash : K → ℕ) (t : HashTable K V) : Call K V → Answer V
  | .set key value => .flag (t.set hash key value).2
  | .del key => .flag (t.del hash key).2
  | .get key => .found (t.get hash key)
  | .contains key => .flag (t.contains hash key)
  | .size => .count t.size

/-- The answers to a sequence of calls. -/
def answers (hash : K → ℕ) (t : HashTable K V) : List (Call K V) → List (Answer V)
  | [] => []
  | call :: calls => call.answer hash t :: answers hash (call.after hash t) calls

/-- What runs of `set`, `del`, `clear` and `clone` lead to, where the tables that are cloned are of a
certain kind. -/
inductive Reached (hash : K → ℕ) (cloned : HashTable K V → Prop) : HashTable K V → Prop where
  | empty : Reached hash cloned empty
  | set {t} (key : K) (value : V) : Reached hash cloned t → Reached hash cloned (t.set hash key value).1
  | del {t} (key : K) : Reached hash cloned t → Reached hash cloned (t.del hash key).1
  | clear {t} : Reached hash cloned t → Reached hash cloned t.clear
  | clone {t} : Reached hash cloned t → cloned t → Reached hash cloned t.clone

/-- At most half of the buckets are tombstones. -/
def CloneSafe (t : HashTable K V) : Prop := tombstones t.buckets ≤ t.buckets.length / 2

/-! ### What is left of the invariant -/

/-- The counter of the tombstones lags by half the capacity at most. -/
structure Covered (hash : K → ℕ) (t : HashTable K V) : Prop extends Sound hash t where
  lag : tombstones t.buckets ≤ t.tombstoneCount + t.buckets.length / 2

variable {t u : HashTable K V}

/-- The rehash comes before the last bucket is used. -/
theorem Covered.checkRehash (h : Covered hash t) :
    Covered hash (t.checkRehash hash) ∧ HasFree (t.checkRehash hash).buckets := by
  obtain ⟨hs, -, hless, hzero | ⟨heq, hbelow⟩⟩ := h.toSound.checkRehash
  · exact ⟨⟨hs, by omega⟩, hasFree_of_load (by omega)⟩
  · have hlag := h.lag
    have hsize := h.size_eq
    rw [heq]
    exact ⟨h, hasFree_of_load (by omega)⟩

theorem Covered.set (h : Covered hash t) (key : K) (value : V) :
    let r := t.set hash key value
    Covered hash r.1 ∧ (∀ k v, Maps r.1.buckets k v ↔ if k = key then v = value else Maps t.buckets k v) ∧
      (r.2 = true ↔ ∀ v, ¬ Maps t.buckets key v) := by
  obtain ⟨hcovered, hfree⟩ := h.checkRehash
  obtain ⟨hs, hmaps, hnew, htomb, -, hlength, hcount⟩ := h.toSound.set hfree key value
  refine ⟨⟨hs, ?_⟩, hmaps, hnew⟩
  rw [htomb, hlength, hcount]
  exact hcovered.lag

theorem Covered.del (h : Covered hash t) (key : K) :
    let r := t.del hash key
    Covered hash r.1 ∧ (∀ k v, Maps r.1.buckets k v ↔ k ≠ key ∧ Maps t.buckets k v) ∧
      (r.2 = true ↔ ∃ v, Maps t.buckets key v) := by
  obtain ⟨hs, hmaps, hthere, hlength, heq | ⟨-, htomb, hcount⟩⟩ := h.toSound.del key
  · exact ⟨by rw [heq]; exact h, hmaps, hthere⟩
  · have hlag := h.lag
    exact ⟨⟨hs, by omega⟩, hmaps, hthere⟩

omit [DecidableEq K] [Inhabited K] [Inhabited V] in
theorem Sound.clone (h : Sound hash t) : Sound hash t.clone := ⟨h.probing, h.size_eq, h.capacity, h.half⟩

omit [DecidableEq K] [Inhabited K] [Inhabited V] in
theorem Covered.clone (h : Covered hash t) (hsafe : t.CloneSafe) : Covered hash t.clone :=
  ⟨h.toSound.clone, hsafe.trans (Nat.le_add_left _ _)⟩

omit [DecidableEq K] in
theorem covered_fresh (n : ℕ) :
    Covered hash ({ buckets := freshBuckets 16, size := 0, tombstoneCount := n } : HashTable K V) where
  toSound := sound_fresh n
  lag := by rw [tombstones_freshBuckets]; exact Nat.zero_le _

/-- By induction on the run. -/
theorem Reached.covered (h : Reached hash CloneSafe t) : Covered hash t := by
  induction h with
  | empty => exact covered_fresh 0
  | set key value _ ih => exact (ih.set key value).1
  | del key _ ih => exact (ih.del key).1
  | @clear t _ _ => exact covered_fresh t.tombstoneCount
  | clone _ hsafe ih => exact ih.clone hsafe

/-! ### Tables with the same entries -/

/-- Two tables that no sequence of calls tells apart. -/
structure Alike (hash : K → ℕ) (t u : HashTable K V) : Prop where
  left : Covered hash t
  right : Covered hash u
  maps_iff : ∀ k v, Maps t.buckets k v ↔ Maps u.buckets k v

omit [Inhabited K] [Inhabited V] in
theorem Alike.get_eq (h : Alike hash t u) (key : K) : t.get hash key = u.get hash key :=
  Option.ext fun v => h.left.get_eq_some_iff.trans ((h.maps_iff key v).trans h.right.get_eq_some_iff.symm)

omit [DecidableEq K] [Inhabited K] [Inhabited V] in
theorem Sound.nodup_entries (h : Sound hash t) : t.toList.Nodup := .of_map _ h.nodup_toList

omit [DecidableEq K] [Inhabited K] [Inhabited V] in
theorem Alike.size_eq (h : Alike hash t u) : t.size = u.size := by
  have hperm : t.toList.Perm u.toList :=
    (List.perm_ext_iff_of_nodup h.left.nodup_entries h.right.nodup_entries).mpr fun ⟨k, v⟩ => by
      rw [Inv.mem_toList_iff, Inv.mem_toList_iff, h.maps_iff]
  rw [h.left.size_eq_length, h.right.size_eq_length, hperm.length_eq]

/-- **One call** gets the same answer from both, and they stay alike. -/
theorem Alike.call (h : Alike hash t u) (call : Call K V) :
    call.answer hash t = call.answer hash u ∧ Alike hash (call.after hash t) (call.after hash u) := by
  -- what is not in one is not in the other
  have hnone (key : K) : (∀ v, ¬ Maps t.buckets key v) ↔ ∀ v, ¬ Maps u.buckets key v :=
    forall_congr' fun v => not_congr (h.maps_iff key v)
  cases call with
  | set key value =>
    obtain ⟨ht, hmapst, hnewt⟩ := h.left.set key value
    obtain ⟨hu, hmapsu, hnewu⟩ := h.right.set key value
    refine ⟨congrArg Answer.flag (Bool.eq_iff_iff.mpr (hnewt.trans ((hnone key).trans hnewu.symm))), ht, hu,
      fun k v => (hmapst k v).trans (Iff.trans ?_ (hmapsu k v).symm)⟩
    rw [h.maps_iff k v]
  | del key =>
    obtain ⟨ht, hmapst, htheret⟩ := h.left.del key
    obtain ⟨hu, hmapsu, hthereu⟩ := h.right.del key
    refine ⟨congrArg Answer.flag (Bool.eq_iff_iff.mpr ?_), ht, hu,
      fun k v => (hmapst k v).trans (Iff.trans ?_ (hmapsu k v).symm)⟩
    · exact htheret.trans ((exists_congr fun v => h.maps_iff key v).trans hthereu.symm)
    · rw [h.maps_iff k v]
  | get key => exact ⟨congrArg Answer.found (h.get_eq key), h⟩
  | contains key =>
    refine ⟨congrArg Answer.flag ?_, h⟩
    rw [h.left.contains_eq, h.right.contains_eq, h.get_eq]
  | size => exact ⟨congrArg Answer.count h.size_eq, h⟩

/-- **All calls.** By induction on the calls. -/
theorem Alike.answers_eq (h : Alike hash t u) (calls : List (Call K V)) :
    answers hash t calls = answers hash u calls := by
  induction calls generalizing t u with
  | nil => rfl
  | cons call calls ih =>
    obtain ⟨hanswer, hafter⟩ := h.call call
    rw [answers, answers, hanswer, ih hafter]

/-! ### A clone that runs out of buckets -/

/-- The number of buckets that were never used. -/
def freeCount (bs : List (Bucket K V)) : ℕ := bs.countP Bucket.neverUsed

omit [DecidableEq K] [Inhabited K] [Inhabited V] in
theorem Probing.count_eq {bs : List (Bucket K V)} (h : ∀ b ∈ bs, b.active = true → b.tombstone = false) :
    activeCount bs + tombstones bs + freeCount bs = bs.length := by
  induction bs with
  | nil => rfl
  | cons b bs ih =>
    have htail := ih fun c hc => h c (List.mem_cons_of_mem _ hc)
    have hhead := h b List.mem_cons_self
    unfold activeCount tombstones freeCount at htail ⊢
    rw [List.countP_cons, List.countP_cons, List.countP_cons, List.length_cons]
    cases ha : b.active <;> cases htomb : b.tombstone <;> simp_all [Bucket.neverUsed] <;> omega

/-- Without a rehash, a new entry takes up a bucket that was never used. -/
theorem freeCount_set {key : K} {value : V} (hbelow : t.size + t.tombstoneCount < t.buckets.length / 2)
    (hnew : (t.set hash key value).2 = true) :
    freeCount (t.set hash key value).1.buckets + 1 = freeCount t.buckets ∧
      (t.set hash key value).1.size = t.size + 1 ∧
      (t.set hash key value).1.tombstoneCount = t.tombstoneCount ∧
      (t.set hash key value).1.buckets.length = t.buckets.length := by
  -- below the limit nothing is rehashed
  have hsame : t.checkRehash hash = t := by
    rw [checkRehash, if_neg (by omega), if_neg (by omega)]
  simp only [set, hsame, insertInternal] at hnew ⊢
  -- a key that is new goes into a bucket that was never used, since a tombstone is no place for it
  cases hslot : findSlot hash t.buckets key with
  | none => rw [hslot] at hnew; cases hnew
  | some i =>
    cases hi : t.buckets[i]? with
    | none => simp only [hslot, hi] at hnew; cases hnew
    | some b =>
      by_cases hb : b.neverUsed = true
      · simp only [hi, hb, if_true]
        have hcount := countP_set_of_some { b with key := key, value := value, active := true } Bucket.neverUsed hi
        rw [if_pos hb] at hcount
        exact ⟨hcount, trivial, trivial, List.length_set⟩
      · simp only [hslot, hi, hb] at hnew
        cases hnew

/-- New entries, one after another, each answered with `true`: there are no more of them than buckets. By
induction on the entries. -/
theorem length_le_freeCount {keys : List K} : ∀ {t : HashTable K V}, t.tombstoneCount = 0 →
    t.size + freeCount t.buckets < t.buckets.length / 2 →
    answers hash t (keys.map fun key => .set key default) = keys.map (fun _ => .flag true) →
    keys.length ≤ freeCount t.buckets := by
  induction keys with
  | nil => exact fun _ _ _ => Nat.zero_le _
  | cons key keys ih =>
    intro t hcount hbelow h
    rw [List.map_cons, List.map_cons, answers] at h
    obtain ⟨hnew, hrest⟩ := List.cons.inj h
    have htrue : (t.set hash key default).2 = true := Answer.flag.inj hnew
    obtain ⟨hfree, hsize, htombs, hlength⟩ := freeCount_set (by omega) htrue
    have hle := ih (t := (t.set hash key default).1) (by omega) (by omega) hrest
    rw [List.length_cons]
    omega

/-- A covered table answers `true` to new keys. By induction on the keys. -/
theorem Covered.answers_new {keys : List K} : ∀ {t : HashTable K V}, Covered hash t → keys.Nodup →
    (∀ key ∈ keys, ∀ v, ¬ Maps t.buckets key v) →
    answers hash t (keys.map fun key => .set key default) = keys.map fun _ => .flag true := by
  induction keys with
  | nil => exact fun _ _ _ => rfl
  | cons key keys ih =>
    intro t h hnodup hnew
    obtain ⟨hnotin, hnodup⟩ := List.nodup_cons.mp hnodup
    obtain ⟨hset, hmaps, htrue⟩ := h.set key default
    rw [List.map_cons, List.map_cons, answers]
    have hrest := ih hset hnodup fun k hk v hm => by
      rw [hmaps, if_neg (by rintro rfl; exact hnotin hk)] at hm
      exact hnew k (List.mem_cons_of_mem _ hk) v hm
    rw [show Call.after hash t (.set key default) = (t.set hash key default).1 from rfl, hrest]
    exact congrArg (· :: _) (congrArg Answer.flag (htrue.mpr (hnew key List.mem_cons_self)))

omit [DecidableEq K] [Inhabited K] [Inhabited V] in
/-- There are keys enough that a table does not have. -/
theorem exists_new_keys [Infinite K] (t : HashTable K V) (n : ℕ) :
    ∃ keys : List K, keys.length = n ∧ keys.Nodup ∧ ∀ key ∈ keys, ∀ v, ¬ Maps t.buckets key v := by
  classical
  obtain ⟨keys, hsub, hcard⟩ := (t.toList.map Prod.fst).toFinset.finite_toSet.infinite_compl.exists_subset_card_eq n
  refine ⟨keys.toList, by rw [Finset.length_toList, hcard], keys.nodup_toList, fun key hkey v hm => ?_⟩
  refine hsub (Finset.mem_coe.mpr (Finset.mem_toList.mp hkey)) ?_
  rw [Finset.mem_coe, List.mem_toFinset]
  exact List.mem_map.mpr ⟨(key, v), Inv.mem_toList_iff.mpr hm, rfl⟩

/-! ### When a clone is equivalent to its source -/

/-- **`clone`**: in every run in which at most half of the buckets of each table that is cloned are tombstones, a
table and its clone give the same answers to all calls if at most half of its buckets are tombstones, and no entry set
on the clone is dropped; and only then, as long as there are enough keys. A table and its clone have the same entries,
and answer alike while each has a free bucket (`Covered`). A clone that starts with more tombstones runs out of free
buckets before it is rehashed, and then drops a new key. -/
theorem clone_equivalent_iff (h : Reached hash CloneSafe t) :
    (t.CloneSafe → (∀ calls, answers hash t calls = answers hash t.clone calls) ∧
      ∀ (calls : List (Call K V)) (key : K) (value : V),
        let u := calls.foldl (fun u call => call.after hash u) t.clone
        (u.set hash key value).1.get hash key = some value) ∧
    (Infinite K → (∀ calls, answers hash t calls = answers hash t.clone calls) → t.CloneSafe) := by
  have hcovered := h.covered
  refine ⟨fun hsafe => ?_, fun _ hsame => ?_⟩
  · have halike : Alike hash t t.clone := ⟨hcovered, hcovered.clone hsafe, fun _ _ => Iff.rfl⟩
    refine ⟨halike.answers_eq, fun calls key value => ?_⟩
    have hrun : ∀ (calls : List (Call K V)) {u : HashTable K V}, Covered hash u →
        Covered hash (calls.foldl (fun u call => call.after hash u) u) := by
      intro calls
      induction calls with
      | nil => exact fun hu => hu
      | cons call calls ih => exact fun hu => ih (Alike.call ⟨hu, hu, fun _ _ => Iff.rfl⟩ call).2.left
    obtain ⟨hset, hmaps, -⟩ := (hrun calls halike.right).set key value
    rw [hset.get_eq_some_iff, hmaps, if_pos rfl]
  · -- with more tombstones, what is free in the clone is used up before half of the buckets are live
    by_contra hunsafe
    obtain ⟨keys, hlength, hnodup, hnew⟩ := exists_new_keys t (freeCount t.buckets + 1)
    have hcount := Probing.count_eq hcovered.probing.flags
    have hsize := hcovered.size_eq
    have hmany : t.buckets.length / 2 < tombstones t.buckets := not_le.mp hunsafe
    have heven := hcovered.capacity.2
    have hall := (hsame (keys.map fun key => .set key default)).symm.trans (hcovered.answers_new hnodup hnew)
    have hle := length_le_freeCount (t := t.clone) rfl
      (show t.size + freeCount t.buckets < t.buckets.length / 2 by omega) hall
    exact absurd (hlength ▸ hle) (Nat.not_succ_le_self _)

/-! ### A clone of a clone -/

section Sample

/-- One key set and deleted eight times: each time another bucket is spent. -/
def setAndDelete : List (Call ℕ ℕ) := (List.replicate 8 [.set 0 0, .del 0]).flatten

/-- All keys have the same home. -/
def spent (t : HashTable ℕ ℕ) : HashTable ℕ ℕ := setAndDelete.foldl (fun u call => call.after (fun _ => 0) u) t

theorem reached_spent {cloned : HashTable ℕ ℕ → Prop} {t : HashTable ℕ ℕ}
    (h : Reached (fun _ => 0) cloned t) : Reached (fun _ => 0) cloned (spent t) := by
  have hrun : ∀ (calls : List (Call ℕ ℕ)) {u : HashTable ℕ ℕ}, Reached (fun _ => 0) cloned u →
      Reached (fun _ => 0) cloned (calls.foldl (fun u call => call.after (fun _ => 0) u) u) := by
    intro calls
    induction calls with
    | nil => exact fun hu => hu
    | cons call calls ih =>
      intro u hu
      refine ih ?_
      cases call with
      | set key value => exact hu.set key value
      | del key => exact hu.del key
      | _ => exact hu
  exact hrun setAndDelete h

theorem clone_equivalent_iff_spent : (spent empty).CloneSafe ∧
    ∀ calls, answers (fun _ => 0) (spent empty) calls = answers (fun _ => 0) (spent empty).clone calls :=
  have hsafe : (spent empty).CloneSafe := by unfold CloneSafe; decide +kernel
  ⟨hsafe, ((clone_equivalent_iff (reached_spent .empty)).1 hsafe).1⟩

/-- A clone that was modified and cloned again: all its buckets are tombstones, and `set` is dropped. -/
theorem clone_of_clone_differs : ¬ ∀ (hash : ℕ → ℕ) (t : HashTable ℕ ℕ), Reached hash (fun _ => True) t →
    ∀ calls, answers hash t calls = answers hash t.clone calls := by
  intro hclaim
  have hreached : Reached (fun _ => 0) (fun _ => True) (spent (spent empty).clone) :=
    reached_spent (.clone (reached_spent .empty) trivial)
  exact absurd (hclaim _ _ hreached [.set 0 0]) (by decide +kernel)

end Sample

end HashTable
end RedisDb

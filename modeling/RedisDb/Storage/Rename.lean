import RedisDb.Storage.Keyspace

/-!
# `rename`

`rename` is there to move an object and its lifetime to another key. It does put the deadline of the
old key at the new one, but then it stores the object with `setObject`, which takes the deadline of its
key away. So a value arrives without a deadline whatever it had.
-/

namespace RedisDb

namespace DbState

section Entries

variable {S : Type} [Platform]

/-- What `rename` is for, between the database before and the one after: the object is at the new key
with the deadline that the old key had, of the old key nothing remains unless it is the new one, and the
other keys are as they were. Storing an object sets its LRU clock. -/
structure Moved (db db' : Database S) (oldKey newKey : Bytes) (obj : RedisObject S) : Prop where
  object : ∃ lruClock, db'.data.lookup newKey = some { value := obj.value, lruClock := lruClock }
  deadline : db'.expires.lookup newKey = db.expires.lookup oldKey
  gone : oldKey ≠ newKey → db'.data.lookup oldKey = none ∧ db'.expires.lookup oldKey = none
  others : ∀ key, key ≠ oldKey → key ≠ newKey →
    db'.data.lookup key = db.data.lookup key ∧ db'.expires.lookup key = db.expires.lookup key

/-- Whatever is at the new key after a `rename`, it has no deadline; all else is as it should be. -/
theorem rename_entries {s : DbState S} {oldKey : Bytes} (newKey : Bytes) {obj : RedisObject S}
    (hold : s.db.data.lookup oldKey = some obj) :
    (s.rename oldKey newKey).1 = true ∧ (s.rename oldKey newKey).2.db.expires.lookup newKey = none ∧
    (s.db.expires.lookup oldKey = none →
      Moved s.db (s.rename oldKey newKey).2.db oldKey newKey obj) := by
  obtain ⟨u, hu, hdata, -, hexpires⟩ := rename_spec newKey hold
  obtain ⟨lruClock, hstored⟩ := u.store_data newKey obj
  have hnew : (u.store newKey obj).db.expires.lookup newKey = none := by
    rw [store_expires, UnorderedMap.lookup_erase_eq_ite, if_pos rfl]
  -- other keys keep object and deadline, but for the old key, which loses both
  have hkept {key : Bytes} (hkey : key ≠ newKey) : (u.store newKey obj).db.data.lookup key
      = if key = oldKey then none else s.db.data.lookup key := by
    rw [hstored, UnorderedMap.lookup_insert_eq_ite, if_neg hkey, hdata,
      UnorderedMap.lookup_erase_eq_ite]
  have hdeadline {key : Bytes} (hkey : key ≠ newKey) : (u.store newKey obj).db.expires.lookup key
      = if key = oldKey then none else s.db.expires.lookup key := by
    rw [store_expires, UnorderedMap.lookup_erase_eq_ite, if_neg hkey, hexpires key hkey]
  have htrue : (s.rename oldKey newKey).1 = true := by
    unfold rename
    rw [hold]
  rw [hu]
  refine ⟨htrue, hnew, fun hnone => ⟨⟨lruClock, ?_⟩, hnew.trans hnone.symm, fun hne => ?_,
    fun key hkey hkey' => ?_⟩⟩
  · rw [hstored, UnorderedMap.lookup_insert_eq_ite, if_pos rfl]
  · rw [hkept hne, hdeadline hne, if_pos rfl, if_pos rfl]
    exact ⟨rfl, rfl⟩
  · rw [hkept hkey', hdeadline hkey', if_neg hkey, if_neg hkey]
    exact ⟨rfl, rfl⟩

/-- **When `rename` moves value and lifetime**: for an old key that is there and has not expired, exactly when it has
no deadline. After the call there is no deadline at the new key, whatever was at the old one. -/
theorem rename_moves_iff (s : DbState S) (now : ℤ) (oldKey newKey : Bytes) :
    (∀ obj, s.db.data.lookup oldKey = some obj → ¬ s.db.Expired now oldKey →
      (s.rename oldKey newKey).1 = true ∧
        Moved s.db (s.rename oldKey newKey).2.db oldKey newKey obj) ↔
    (oldKey ∈ s.db.data → ¬ s.db.Expired now oldKey → s.db.expires.lookup oldKey = none) := by
  refine ⟨fun h hmem hlive => ?_, fun h obj hold hlive => ?_⟩
  · obtain ⟨obj, hold⟩ := mem_iff_lookup.mp hmem
    -- the deadline at the new key is both the old one and none
    exact (h obj hold hlive).2.deadline.symm.trans (rename_entries newKey hold).2.1
  · obtain ⟨htrue, -, hmoved⟩ := rename_entries newKey hold
    exact ⟨htrue, hmoved (h (mem_iff_lookup.mpr ⟨obj, hold⟩) hlive)⟩

end Entries

section Sample

open Sample

/-- The string `v` under the key `a`, to expire at 100. -/
def volatileKey : DbState Score :=
  (DbState.setExpiryAt (str "a") 100
    (DbState.set (str "a") (str "v") { idleEnv with db := {} })).2

/-- A key that would expire in a tenth of a second is renamed, and its value stays for ever. -/
theorem rename_loses_deadline : ∃ obj, volatileKey.db.data.lookup (str "a") = some obj ∧
    ¬ volatileKey.db.Expired 0 (str "a") ∧
    (volatileKey.rename (str "a") (str "b")).2.db.expires.lookup (str "b") = none ∧
    ¬ Moved volatileKey.db (volatileKey.rename (str "a") (str "b")).2.db (str "a") (str "b") obj := by
  refine ⟨_, rfl, by decide, rfl, fun h => ?_⟩
  exact absurd h.deadline (by decide)

end Sample

end DbState

end RedisDb

import RedisDb.Storage.DatabaseInv

/-!
# Keys and deadlines

`data_` and `expires_` are separate maps. Any number of databases in one environment, and any sequence of calls of
their methods: a key with a deadline is always there, and a key goes away only where a method removes it or where an
expiry step has read a clock at or past its deadline (`keyspace_sound`). The iteration order of `expires_` is left
open, and so are the readings of the clock.

`Loses` says both of one call: if every key with a deadline was there before it then so it is afterwards, and for each
key that is gone there is a reason. As the clock is only ever read from its beginning, the reason names the reading:
`ReadsClock n` says that the call has read it `n` times, so one of these `n` readings is at or past the deadline. Each
method has a lemma for this, and most are put together from those for storing, deleting and looking for the expiry.

`activeExpireCycle` needs more, for it counts what it removes. Its loop goes through entries of `expires_` while it
changes the map. The invariant is that the entries still to come are all in the map as it is now, which holds since
the keys of a map are distinct (`expireLoop_spec`).
-/

namespace RedisDb

variable {S : Type}

/-- Every key with a deadline is there. -/
def Database.Consistent (db : Database S) : Prop := ∀ key ∈ db.expires, key ∈ db.data

/-- An order in which a map may be iterated over. -/
structure IterationOrder (α : Type) where
  apply : List α → List α
  perm : ∀ l, (apply l).Perm l

/-- The calls. A pointer that `getObjectForWrite` returns is used to change the object. -/
inductive KeyspaceOp (S : Type) where
  | set (key value : Bytes)
  | setObject (key : Bytes) (obj : RedisObject S)
  | del (key : Bytes)
  | rename (oldKey newKey : Bytes)
  | incrby (key : Bytes) (increment : ℤ)
  | append (key value : Bytes)
  | setExpiry (key : Bytes) (milliseconds : ℤ)
  | setExpiryAt (key : Bytes) (timestampMs : ℤ)
  | persist (key : Bytes)
  | get (key : Bytes)
  | getObject (key : Bytes)
  | getObjectForWrite (key : Bytes) (change : RedisObject S → RedisObject S)
  | contains (key : Bytes)
  | type (key : Bytes)
  | activeExpireCycle (maxSamples : ℤ) (order : IterationOrder (Bytes × ℤ))
  | flushDb

/-- The method takes the key out of `data_`. -/
def KeyspaceOp.Removes : KeyspaceOp S → Bytes → Prop
  | .del key, k => k = key
  | .rename oldKey newKey, k => k = oldKey ∧ k ≠ newKey
  | .flushDb, _ => True
  | _, _ => False

/-- The method looks whether the key has expired. -/
def KeyspaceOp.Checks : KeyspaceOp S → Bytes → Prop
  | .get key, k | .getObject key, k | .getObjectForWrite key _, k | .contains key, k
  | .type key, k => k = key
  | .activeExpireCycle .., _ => True
  | _, _ => False

namespace DbState

/-- Between the two states the clock has been read `n` times. -/
def ReadsClock (n : ℕ) (s t : DbState S) : Prop := t.clock = fun k => s.clock (n + k)

/-- The keys that are not there any more. -/
def gone (s t : DbState S) : List Bytes := s.db.data.keys.filter fun key => key ∉ t.db.data

section Run

variable [Platform]

/-- `activeExpireCycle`, where `expires_` is iterated over in some order. -/
def expireCycle (maxSamples : ℤ) (order : IterationOrder (Bytes × ℤ)) (s : DbState S) :
    ℕ × DbState S :=
  expireLoop maxSamples.toNat (order.apply (s.db.expires.entries.map fun e => (e.1, e.2))) s

/-- A change of the object through a pointer to it, where there is an object. -/
def changeObject (key : Bytes) (change : RedisObject S → RedisObject S) (s : DbState S) : DbState S :=
  match s.getObjectForWrite key with
  | (none, s) => s
  | (some obj, s) => s.putObject key (change obj)

/-- The state after a call. -/
def run (s : DbState S) : KeyspaceOp S → DbState S
  | .set key value => s.set key value
  | .setObject key obj => s.setObject key obj
  | .del key => (s.del key).2
  | .rename oldKey newKey => (s.rename oldKey newKey).2
  | .incrby key increment => (s.incrby key increment).2
  | .append key value => (s.append key value).2
  | .setExpiry key milliseconds => (s.setExpiry key milliseconds).2
  | .setExpiryAt key timestampMs => (s.setExpiryAt key timestampMs).2
  | .persist key => (s.persist key).2
  | .get key => (s.get key).2
  | .getObject key => (s.getObject key).2
  | .getObjectForWrite key change => s.changeObject key change
  | .contains key => (s.contains key).2
  | .type key => (s.type key).2
  | .activeExpireCycle maxSamples order => (s.expireCycle maxSamples order).2
  | .flushDb => s.flushDb

end Run

/-! ### What calls do to the keys -/

/-- The keys that go away between the two states are removed, as `removes` says, or are checked, as
`checks` says, and a reading of the clock was at or past their deadline. -/
structure Loses (removes checks : Bytes → Prop) (s t : DbState S) : Prop where
  consistent : s.db.Consistent → t.db.Consistent
  leaves : ∃ n, s.ReadsClock n t ∧ ∀ key ∈ s.db.data, key ∉ t.db.data → removes key ∨
    checks key ∧ ∃ deadline, s.db.expires.lookup key = some deadline ∧ ∃ i < n, deadline ≤ s.clock i

variable {removes checks : Bytes → Prop} {s t : DbState S} {key : Bytes}

/-- A key that is there has a value. -/
theorem mem_iff_lookup {V : Type} {m : UnorderedMap Bytes V} :
    key ∈ m ↔ ∃ v, m.lookup key = some v := by
  rw [← AList.lookup_isSome, Option.isSome_iff_exists]

/-- The keys after one has been entered. -/
theorem mem_insert {V : Type} {m : UnorderedMap Bytes V} {k : Bytes} {v : V} :
    key ∈ m.insert k v ↔ key = k ∨ key ∈ m := AList.mem_insert m

/-- The keys after one has been erased. -/
theorem mem_erase {V : Type} {m : UnorderedMap Bytes V} {k : Bytes} :
    key ∈ m.erase k ↔ key ≠ k ∧ key ∈ m := AList.mem_erase

/-- No key goes away. -/
theorem Loses.keep (hconsistent : s.db.Consistent → t.db.Consistent)
    (hkeys : ∀ key ∈ s.db.data, key ∈ t.db.data) {n : ℕ} (hclock : s.ReadsClock n t) :
    Loses removes checks s t :=
  ⟨hconsistent, n, hclock, fun key hs ht => absurd (hkeys key hs) ht⟩

/-- The clock has not been read. -/
theorem readsClock_zero (h : t.clock = s.clock) : s.ReadsClock 0 t := by
  rw [ReadsClock, h]
  funext k
  rw [Nat.zero_add]

/-- It has been read once. -/
theorem readsClock_now (s : DbState S) : s.ReadsClock 1 s.now.2 := funext fun k => by
  rw [Nat.add_comm]
  rfl

/-- One part after another. -/
theorem ReadsClock.then {u : DbState S} {n m : ℕ} (h : s.ReadsClock n t) (h' : t.ReadsClock m u) :
    s.ReadsClock (n + m) u := by
  unfold ReadsClock at h h' ⊢
  rw [h', h]
  funext k
  rw [Nat.add_assoc]

/-- Where neither map changes its keys. -/
theorem Loses.of_eq (hdata : ∀ key, key ∈ t.db.data ↔ key ∈ s.db.data)
    (hexpires : t.db.expires = s.db.expires) (hclock : t.clock = s.clock) :
    Loses removes checks s t := by
  refine Loses.keep (fun h key hkey => ?_) (fun key => (hdata key).mpr) (readsClock_zero hclock)
  rw [hexpires] at hkey
  exact (hdata key).mpr (h key hkey)

variable [Platform]

/-- To store an object is not to read the clock. -/
theorem store_clock (s : DbState S) (key : Bytes) (obj : RedisObject S) :
    (s.store key obj).clock = s.clock := by
  unfold store
  cases s.db.data.lookup key <;> exact touchWatchedKey_clock ..

/-- `set` and `setObject` add a key, without a deadline. -/
theorem loses_store (obj : RedisObject S) (s : DbState S) : Loses removes checks s (s.store key obj) := by
  obtain ⟨lruClock, hdata⟩ := s.store_data key obj
  refine Loses.keep (fun h k hk => ?_) (fun k hk => ?_) (readsClock_zero (s.store_clock key obj))
  · rw [store_expires, mem_erase] at hk
    rw [hdata, mem_insert]
    exact .inr (h k hk.2)
  · rw [hdata, mem_insert]
    exact .inr hk

/-- `del` takes the key out of both maps. -/
theorem del_spec (key : Bytes) (s : DbState S) :
    (s.del key).1 = (s.db.data.lookup key).isSome ∧
      (∀ k, (s.del key).2.db.data.lookup k = if k = key then none else s.db.data.lookup k) ∧
      (s.del key).2.db.expires = s.db.expires.erase key ∧ (s.del key).2.clock = s.clock := by
  cases hobj : s.db.data.lookup key with
  | none =>
    simp only [del, eraseExpires_data, hobj]
    refine ⟨rfl, fun k => ?_, rfl, rfl⟩
    split
    · next hk => rw [hk, hobj]
    · rfl
  | some obj =>
    simp only [del, eraseExpires_data, hobj]
    refine ⟨rfl, fun k => ?_, ?_, touchWatchedKey_clock ..⟩
    · rw [markDirty_data, touchWatchedKey_db]
      exact UnorderedMap.lookup_erase_eq_ite ..
    · rw [markDirty_expires, touchWatchedKey_db]
      rfl

omit [Platform] in
/-- The keys of a map from which one key has been erased. -/
theorem mem_of_lookup_erase {V : Type} {m m' : UnorderedMap Bytes V}
    (h : ∀ k, m'.lookup k = if k = key then none else m.lookup k) (k : Bytes) :
    k ∈ m' ↔ k ≠ key ∧ k ∈ m := by
  rw [mem_iff_lookup, mem_iff_lookup, h]
  split
  · next hk => simp [hk]
  · next hk => simp [hk]

/-- `del` removes its key. -/
theorem loses_del (hremoves : removes key) (s : DbState S) : Loses removes checks s (s.del key).2 := by
  obtain ⟨-, hdata, hexp, hclock⟩ := s.del_spec key
  have hmem := mem_of_lookup_erase hdata
  refine ⟨fun h k hk => ?_, 0, readsClock_zero hclock, fun k hs ht => .inl ?_⟩
  · rw [hexp, mem_erase] at hk
    exact (hmem k).mpr ⟨hk.1, h k hk.2⟩
  · obtain rfl : k = key := not_not.mp fun hne => ht ((hmem k).mpr ⟨hne, hs⟩)
    exact hremoves

/-- `rename` stores the value under its new key, once the old key is gone. -/
theorem rename_spec {oldKey : Bytes} (newKey : Bytes) {value : RedisObject S}
    (hold : s.db.data.lookup oldKey = some value) : ∃ u : DbState S,
      (s.rename oldKey newKey).2 = u.store newKey value ∧ u.db.data = s.db.data.erase oldKey ∧
        u.clock = s.clock ∧ ∀ k, k ≠ newKey →
          u.db.expires.lookup k = if k = oldKey then none else s.db.expires.lookup k := by
  unfold rename
  rw [hold]
  refine ⟨_, rfl, ?_, ?_, fun k hk => ?_⟩
  · rw [touchWatchedKey_db]
    split <;> rfl
  · rw [touchWatchedKey_clock]
    split <;> rfl
  · rw [touchWatchedKey_db]
    split
    · show ((s.db.expires.erase oldKey).insert newKey _).lookup k = _
      rw [UnorderedMap.lookup_insert_eq_ite, if_neg hk, UnorderedMap.lookup_erase_eq_ite]
    · exact UnorderedMap.lookup_erase_eq_ite ..

/-- `rename` removes the old key, unless it is the new one. -/
theorem loses_rename {oldKey newKey : Bytes} (hremoves : oldKey ≠ newKey → removes oldKey)
    (s : DbState S) : Loses removes checks s (s.rename oldKey newKey).2 := by
  cases hold : s.db.data.lookup oldKey with
  | none =>
    have hsame : (s.rename oldKey newKey).2 = s := by
      unfold rename
      rw [hold]
    rw [hsame]
    exact Loses.of_eq (fun _ => Iff.rfl) rfl rfl
  | some value =>
    -- what is left when the old key has gone is stored at the new one
    obtain ⟨u, hu, hdata, hclock, hexpires⟩ := rename_spec newKey hold
    obtain ⟨lruClock, hstored⟩ := u.store_data newKey value
    have hmem (k : Bytes) : k ∈ (u.store newKey value).db.data ↔
        k = newKey ∨ k ≠ oldKey ∧ k ∈ s.db.data := by
      rw [hstored, mem_insert, hdata, mem_erase]
    rw [hu]
    -- the deadline of a key is that of a key there before, or belongs to the new key
    refine ⟨fun h k hk => ?_, 0, ?_, fun k hs ht => .inl ?_⟩
    · rw [store_expires, mem_erase, mem_iff_lookup] at hk
      obtain ⟨hne, d, hd⟩ := hk
      rw [hexpires k hne] at hd
      split at hd
      · cases hd
      · next hold' => exact (hmem k).mpr (.inr ⟨hold', h k (mem_iff_lookup.mpr ⟨d, hd⟩)⟩)
    · exact readsClock_zero ((store_clock ..).trans hclock)
    · rw [hmem, not_or] at ht
      obtain rfl : k = oldKey := not_not.mp fun hne => ht.2 ⟨hne, hs⟩
      exact hremoves ht.1

/-- `incrby` stores, or does nothing. -/
theorem loses_incrby (increment : ℤ) (s : DbState S) :
    Loses removes checks s (s.incrby key increment).2 := by
  unfold incrby
  dsimp only
  split
  · exact Loses.of_eq (fun _ => Iff.rfl) rfl rfl
  · split
    · exact Loses.of_eq (fun _ => Iff.rfl) rfl rfl
    · exact loses_store _ s

/-- `append` stores, or changes a string in its place. -/
theorem loses_append (value : Bytes) (s : DbState S) :
    Loses removes checks s (s.append key value).2 := by
  unfold append
  split
  · exact loses_store _ s
  · next obj hobj =>
    split
    · refine Loses.of_eq (fun k => ?_) rfl rfl
      rw [markDirty_data]
      show k ∈ s.db.data.insert key _ ↔ _
      rw [mem_insert]
      exact ⟨fun h => h.elim (fun heq => heq ▸ mem_iff_lookup.mpr ⟨obj, hobj⟩) id, .inr⟩
    · exact Loses.of_eq (fun _ => Iff.rfl) rfl rfl

omit [Platform] in
/-- A deadline is set for a key that is there. -/
theorem loses_setDeadline {deadline : ℤ} (hkey : key ∈ s.db.data) {u : DbState S} {n : ℕ}
    (hdb : u.db = s.db) (hclock : s.ReadsClock n u) :
    Loses removes checks s (u.setDeadline key deadline) := by
  refine Loses.keep (fun h k hk => ?_) (fun k hk => ?_) hclock
  · show k ∈ u.db.data
    rw [hdb]
    have hk : k ∈ u.db.expires.insert key deadline := hk
    rw [hdb] at hk
    exact (mem_insert.mp hk).elim (fun heq => heq ▸ hkey) (h k)
  · show k ∈ u.db.data
    rwa [hdb]

omit [Platform] in
/-- A distance from now becomes a deadline, of a key that is there. -/
theorem loses_setExpiry (milliseconds : ℤ) (s : DbState S) :
    Loses removes checks s (s.setExpiry key milliseconds).2 := by
  unfold setExpiry
  split
  · exact Loses.of_eq (fun _ => Iff.rfl) rfl rfl
  · next hkey =>
    refine loses_setDeadline (n := 1) ?_ rfl ?_
    · exact AList.lookup_isSome.mp (Option.isSome_iff_ne_none.mpr (mt Option.isNone_iff_eq_none.mpr hkey))
    · exact funext fun k => by rw [Nat.add_comm]; rfl

omit [Platform] in
/-- The deadline of a key that is there. -/
theorem loses_setExpiryAt (timestampMs : ℤ) (s : DbState S) :
    Loses removes checks s (s.setExpiryAt key timestampMs).2 := by
  unfold setExpiryAt
  split
  · exact Loses.of_eq (fun _ => Iff.rfl) rfl rfl
  · next hkey =>
    refine loses_setDeadline ?_ rfl (readsClock_zero rfl)
    exact AList.lookup_isSome.mp (Option.isSome_iff_ne_none.mpr (mt Option.isNone_iff_eq_none.mpr hkey))

omit [Platform] in
/-- A deadline is taken away. -/
theorem loses_persist (s : DbState S) : Loses removes checks s (s.persist key).2 :=
  Loses.keep (fun h k hk => h k (mem_erase.mp hk).2) (fun _ hk => hk) (readsClock_zero rfl)

/-- A flush reads no clock. -/
theorem flushDb_clock (s : DbState S) : s.flushDb.clock = s.clock := by
  have hrelease (entries : List (Sigma fun _ : Bytes => RedisObject S)) : ∀ s : DbState S,
      (entries.foldl (fun s e => s.release e.1 e.2) s).clock = s.clock := by
    induction entries with
    | nil => exact fun _ => rfl
    | cons e entries ih => exact fun s => ih (s.release e.1 e.2)
  exact hrelease s.db.data.entries s

/-- `flushDb` removes all keys, and all deadlines. -/
theorem loses_flushDb (hremoves : ∀ key, removes key) (s : DbState S) :
    Loses removes checks s s.flushDb := by
  refine ⟨fun _ key hkey => ?_, 0, readsClock_zero s.flushDb_clock, fun key _ _ =>
    .inl (hremoves key)⟩
  exact absurd hkey (AList.notMem_empty key)

/-! ### Expiry -/

/-- **One key is looked at**: nothing happens, or the clock reads at or past its deadline and the key
goes away with its deadline. -/
theorem checkAndExpire_spec (key : Bytes) (s : DbState S) :
    (¬s.db.Expired (s.clock 0) key ∧ (s.checkAndExpire key).1 = false ∧
      (s.checkAndExpire key).2.db = s.db ∧ ∃ n, s.ReadsClock n (s.checkAndExpire key).2) ∨
    ∃ deadline, s.db.expires.lookup key = some deadline ∧ deadline ≤ s.clock 0 ∧
      (s.checkAndExpire key).1 = true ∧ s.ReadsClock 1 (s.checkAndExpire key).2 ∧
      (s.checkAndExpire key).2.db.expires = s.db.expires.erase key ∧
      ∀ k, (s.checkAndExpire key).2.db.data.lookup k
        = if k = key then none else s.db.data.lookup k := by
  have hone : s.ReadsClock 1 { s with clock := fun k => s.clock (k + 1) } :=
    funext fun k => by rw [Nat.add_comm]
  unfold checkAndExpire isExpired
  cases hdeadline : s.db.expires.lookup key with
  | none =>
    -- no deadline: the clock is not read
    refine .inl ⟨?_, rfl, rfl, 0, readsClock_zero rfl⟩
    rintro ⟨deadline, hd, -⟩
    cases hdeadline.symm.trans hd
  | some deadline =>
    simp only [now]
    by_cases hpast : deadline ≤ s.clock 0
    · -- the deadline has passed: key and deadline go, and the watchers are flagged
      refine .inr ⟨deadline, rfl, hpast, ?_⟩
      simp only [hpast, decide_true, if_true]
      cases hobj : s.db.data.lookup key with
      | none =>
        refine ⟨trivial, hone, rfl, fun k => ?_⟩
        show s.db.data.lookup k = _
        split
        · next hk => rw [hk, hobj]
        · rfl
      | some obj =>
        refine ⟨trivial, ?_, ?_, fun k => ?_⟩
        · show ReadsClock 1 s (touchWatchedKey key _)
          rw [ReadsClock, touchWatchedKey_clock]
          exact hone
        · rw [markDirty_expires, eraseExpires_expires, touchWatchedKey_db]
          rfl
        · rw [markDirty_data, eraseExpires_data, touchWatchedKey_db]
          exact UnorderedMap.lookup_erase_eq_ite ..
    · -- it has not: one reading of the clock, and nothing else
      simp only [hpast, decide_false, Bool.false_eq_true, if_false]
      refine .inl ⟨?_, trivial, trivial, 1, hone⟩
      rintro ⟨d, hd, hle⟩
      cases hdeadline.symm.trans hd
      exact hpast hle

/-- A key that has expired goes away. -/
theorem loses_checkAndExpire (hchecks : checks key) (s : DbState S) :
    Loses removes checks s (s.checkAndExpire key).2 := by
  rcases s.checkAndExpire_spec key with
    ⟨-, -, hdb, n, hclock⟩ | ⟨d, hd, hpast, -, hclock, hexp, hdata⟩
  · exact Loses.keep (fun h => hdb ▸ h) (fun k hk => hdb.symm ▸ hk) hclock
  · have hmem := mem_of_lookup_erase hdata
    refine ⟨fun h k hk => ?_, 1, hclock, fun k hs ht => .inr ?_⟩
    · rw [hexp, mem_erase] at hk
      exact (hmem k).mpr ⟨hk.1, h k hk.2⟩
    · obtain rfl : k = key := not_not.mp fun hne => ht ((hmem k).mpr ⟨hne, hs⟩)
      exact ⟨hchecks, d, hd, 0, Nat.one_pos, hpast⟩

omit [Platform] in
/-- What follows a check changes no key and reads no clock. -/
theorem Loses.then {t u : DbState S} (h : Loses removes checks s t)
    (hdata : ∀ key, key ∈ u.db.data ↔ key ∈ t.db.data) (hexpires : u.db.expires = t.db.expires)
    (hclock : u.clock = t.clock) : Loses removes checks s u := by
  obtain ⟨n, hn, hleaves⟩ := h.leaves
  refine ⟨fun hs key hkey => ?_, n, hclock.trans hn, fun key hs hu => ?_⟩
  · rw [hexpires] at hkey
    exact (hdata key).mpr (h.consistent hs key hkey)
  · exact hleaves key hs (mt (hdata key).mpr hu)

/-- A lookup looks for the expiry first. -/
theorem loses_getObject (hchecks : checks key) (s : DbState S) :
    Loses removes checks s (s.getObject key).2 := by
  have hcheck : Loses removes checks s (s.checkAndExpire key).2 := loses_checkAndExpire hchecks s
  unfold getObject
  rcases hx : s.checkAndExpire key with ⟨expired, t⟩
  rw [hx] at hcheck
  cases expired with
  | true => exact hcheck
  | false =>
    simp only [Bool.false_eq_true, if_false]
    cases hobj : t.db.data.lookup key with
    | none => exact hcheck.then (fun _ => Iff.rfl) rfl rfl
    | some obj =>
      refine hcheck.then (fun k => ?_) rfl rfl
      show k ∈ t.db.data.insert key _ ↔ _
      rw [mem_insert]
      exact ⟨fun h => h.elim (fun heq => heq ▸ mem_iff_lookup.mpr ⟨obj, hobj⟩) id, .inr⟩

/-- The object that `getObject` returns is there. -/
theorem lookup_getObject {obj : RedisObject S} (hobj : (s.getObject key).1 = some obj) :
    (s.getObject key).2.db.data.lookup key = some obj := by
  revert hobj
  unfold getObject
  rcases s.checkAndExpire key with ⟨expired, t⟩
  cases expired with
  | true => exact nofun
  | false =>
    simp only [Bool.false_eq_true, if_false]
    cases t.db.data.lookup key with
    | none => exact nofun
    | some old =>
      intro hobj
      rw [← hobj]
      exact AList.lookup_insert _

/-- So does a lookup for a change, which keeps the key. -/
theorem loses_changeObject (hchecks : checks key) (change : RedisObject S → RedisObject S)
    (s : DbState S) : Loses removes checks s (s.changeObject key change) := by
  have hread : Loses removes checks s (s.getObject key).2 := loses_getObject hchecks s
  have hobj : ∀ obj, (s.getObject key).1 = some obj → _ := fun obj => lookup_getObject
  unfold changeObject getObjectForWrite
  rcases hx : s.getObject key with ⟨_ | obj, t⟩ <;> rw [hx] at hread hobj
  · exact hread
  · refine hread.then (fun k => ?_) rfl rfl
    show k ∈ t.db.data.insert key _ ↔ _
    rw [mem_insert]
    exact ⟨fun h => h.elim (fun heq => heq ▸ mem_iff_lookup.mpr ⟨obj, hobj obj rfl⟩) id, .inr⟩

/-- So does that of `get`. -/
theorem loses_get (hchecks : checks key) (s : DbState S) : Loses removes checks s (s.get key).2 := by
  have hsame : (s.get key).2 = (s.getObject key).2 := by
    unfold get
    dsimp only
    split <;> rfl
  exact hsame ▸ loses_getObject hchecks s

/-- So does that of `contains`. -/
theorem loses_contains (hchecks : checks key) (s : DbState S) :
    Loses removes checks s (s.contains key).2 := by
  have hsame : (s.contains key).2 = (s.checkAndExpire key).2 := by
    unfold contains
    dsimp only
    split <;> rfl
  exact hsame ▸ loses_checkAndExpire hchecks s

/-- So does that of `type`. -/
theorem loses_type (hchecks : checks key) (s : DbState S) : Loses removes checks s (s.type key).2 := by
  have hsame : (s.type key).2 = (s.checkAndExpire key).2 := by
    unfold type
    dsimp only
    split
    · rfl
    · split <;> rfl
  exact hsame ▸ loses_checkAndExpire hchecks s

/-! ### `activeExpireCycle` -/

omit [Platform] in
/-- A key is gone once. -/
theorem nodup_gone (s t : DbState S) : (s.gone t).Nodup := s.db.data.keys_nodup.filter _

omit [Platform] in
/-- The keys that are gone. -/
theorem mem_gone {t : DbState S} : key ∈ s.gone t ↔ key ∈ s.db.data ∧ key ∉ t.db.data := by
  rw [gone, List.mem_filter, decide_eq_true_eq]
  exact and_congr_left' AList.mem_keys.symm

omit [Platform] in
/-- Where nothing happens none is gone. -/
theorem gone_self (s : DbState S) : s.gone s = [] :=
  List.eq_nil_iff_forall_not_mem.mpr fun _ hkey => (mem_gone.mp hkey).2 (mem_gone.mp hkey).1

/-- What a cycle does between two states: as many keys go away as it counts, and each had a deadline
that a reading of the clock was at or past. -/
structure Expires (count : ℕ) (s t : DbState S) : Prop where
  consistent : t.db.Consistent
  subset : ∀ key ∈ t.db.data, key ∈ s.db.data
  count : (s.gone t).length = count
  leaves : ∃ n, s.ReadsClock n t ∧ ∀ key ∈ s.db.data, key ∉ t.db.data →
    ∃ deadline, s.db.expires.lookup key = some deadline ∧ ∃ i < n, deadline ≤ s.clock i

omit [Platform] in
/-- The clock is read before the rest of a cycle. -/
theorem exists_lt_succ {clock : ℕ → ℤ} {deadline : ℤ} {n : ℕ}
    (h : ∃ i < n, deadline ≤ clock (i + 1)) : ∃ i < n + 1, deadline ≤ clock i := by
  obtain ⟨i, hi, hdeadline⟩ := h
  exact ⟨i + 1, Nat.succ_lt_succ hi, hdeadline⟩

/-- **The loop of `activeExpireCycle`.** By induction on the samples; the entries still to come are
those of `expires_`. -/
theorem expireLoop_spec (samples : ℕ) : ∀ (entries : List (Bytes × ℤ)) (s : DbState S),
    (entries.map Prod.fst).Nodup → (∀ e ∈ entries, s.db.expires.lookup e.1 = some e.2) →
    s.db.Consistent → Expires (expireLoop samples entries s).1 s (expireLoop samples entries s).2 := by
  have hstay (s : DbState S) (hs : s.db.Consistent) : Expires 0 s s :=
    ⟨hs, fun _ => id, by rw [gone_self]; rfl, 0, readsClock_zero rfl, fun _ hin hout => absurd hin hout⟩
  induction samples with
  | zero => exact fun _ s _ _ hs => hstay s hs
  | succ samples ih =>
    intro entries s hnodup hentries hs
    cases entries with
    | nil => exact hstay s hs
    | cons e rest =>
      obtain ⟨key, deadline⟩ := e
      rw [List.map_cons, List.nodup_cons] at hnodup
      have hdeadline : s.db.expires.lookup key = some deadline := hentries _ List.mem_cons_self
      have hrest : ∀ e ∈ rest, s.db.expires.lookup e.1 = some e.2 := fun e he =>
        hentries e (List.mem_cons_of_mem _ he)
      have hshift {n : ℕ} {u : DbState S}
          (hu : u.clock = fun k => s.clock (n + k + 1)) : s.ReadsClock (n + 1) u :=
        hu.trans (funext fun k => by rw [Nat.add_right_comm])
      simp only [expireLoop, now]
      by_cases hpast : deadline ≤ s.clock 0
      · simp only [hpast, if_true]
        -- the state without the key
        obtain ⟨obj, hobj⟩ := mem_iff_lookup.mp (hs key (mem_iff_lookup.mpr ⟨_, hdeadline⟩))
        simp only [hobj]
        generalize hu : eraseExpires key (touchWatchedKey key (eraseData key (release key obj
          ({ s with clock := fun k => s.clock (k + 1) } : DbState S)))) = u
        have hexpires : u.db.expires = s.db.expires.erase key := by
          rw [← hu, eraseExpires_expires, touchWatchedKey_db]
          rfl
        have hdata (k : Bytes) : k ∈ u.db.data ↔ k ≠ key ∧ k ∈ s.db.data := by
          rw [← hu, eraseExpires_data, touchWatchedKey_db]
          exact mem_erase
        have hclock : u.clock = fun k => s.clock (k + 1) := by
          rw [← hu, eraseExpires_clock, touchWatchedKey_clock]
          rfl
        -- the rest of the cycle, from the state without the key
        have hcycle := ih rest u hnodup.2 (fun e he => by
          have hne : e.1 ≠ key := fun heq => hnodup.1 (heq ▸ List.mem_map.mpr ⟨e, he, rfl⟩)
          rw [hexpires, UnorderedMap.lookup_erase_eq_ite, if_neg hne]
          exact hrest e he) (fun k hk => by
          rw [hexpires, mem_erase] at hk
          exact (hdata k).mpr ⟨hk.1, hs k hk.2⟩)
        obtain ⟨n, hn, hleaves⟩ := hcycle.leaves
        refine ⟨hcycle.consistent, fun k hk => ((hdata k).mp (hcycle.subset k hk)).2, ?_, n + 1, ?_, ?_⟩
        · -- the key is gone, and what the rest of the cycle removes
          have hkey : key ∉ (expireLoop samples rest u).2.db.data := fun hk =>
            ((hdata key).mp (hcycle.subset key hk)).1 rfl
          have hperm : (s.gone (expireLoop samples rest u).2).Perm
              (key :: u.gone (expireLoop samples rest u).2) := by
            have hfresh : key ∉ u.gone (expireLoop samples rest u).2 := fun hk =>
              ((hdata key).mp (mem_gone.mp hk).1).1 rfl
            refine (List.perm_ext_iff_of_nodup (nodup_gone ..)
              (List.nodup_cons.mpr ⟨hfresh, nodup_gone ..⟩)).mpr fun k => ?_
            rw [mem_gone, List.mem_cons, mem_gone, hdata]
            by_cases hk : k = key
            · subst hk
              simp [hkey, mem_iff_lookup.mpr ⟨obj, hobj⟩]
            · simp [hk]
          rw [hperm.length_eq, List.length_cons, hcycle.count]
        · -- one reading of the clock more
          exact hshift (hn.trans (by rw [hclock]))
        · intro k hin hout
          by_cases hk : k = key
          · subst hk
            exact ⟨deadline, hdeadline, 0, Nat.succ_pos n, hpast⟩
          · obtain ⟨d, hd, hread⟩ := hleaves k ((hdata k).mpr ⟨hk, hin⟩) hout
            rw [hexpires, UnorderedMap.lookup_erase_eq_ite, if_neg hk] at hd
            rw [hclock] at hread
            exact ⟨d, hd, exists_lt_succ hread⟩
      · -- the clock is read, and the key stays
        simp only [hpast, if_false]
        have hcycle := ih rest { s with clock := fun k => s.clock (k + 1) } hnodup.2 hrest hs
        obtain ⟨n, hn, hleaves⟩ := hcycle.leaves
        refine ⟨hcycle.consistent, hcycle.subset, hcycle.count, n + 1, hshift hn, fun k hin hout => ?_⟩
        obtain ⟨d, hd, hread⟩ := hleaves k hin hout
        exact ⟨d, hd, exists_lt_succ hread⟩

/-- **`activeExpireCycle`**, which stops early or comes to the end of the entries. -/
theorem expireCycle_spec (maxSamples : ℤ) (order : IterationOrder (Bytes × ℤ)) (hs : s.db.Consistent) :
    Expires (s.expireCycle maxSamples order).1 s (s.expireCycle maxSamples order).2 := by
  have hperm := order.perm (s.db.expires.entries.map fun e => (e.1, e.2))
  refine expireLoop_spec _ _ s ?_ (fun e he => ?_) hs
  · rw [(hperm.map Prod.fst).nodup_iff, List.map_map]
    exact s.db.expires.nodupKeys
  · obtain ⟨entry, hentry, rfl⟩ := List.mem_map.mp (hperm.mem_iff.mp he)
    exact UnorderedMap.mem_entries_iff.mp hentry

/-! ### Runs -/

/-- **Every call** keeps the two maps consistent and loses no live key. -/
theorem loses_run (op : KeyspaceOp S) (hs : s.db.Consistent) :
    Loses op.Removes op.Checks s (s.run op) := by
  cases op with
  | set key value => exact loses_store _ s
  | setObject key obj => exact loses_store obj s
  | del key => exact loses_del (show (KeyspaceOp.del key : KeyspaceOp S).Removes key from rfl) s
  | rename oldKey newKey => exact loses_rename (fun hne => ⟨rfl, hne⟩) s
  | incrby key increment => exact loses_incrby increment s
  | append key value => exact loses_append value s
  | setExpiry key milliseconds => exact loses_setExpiry milliseconds s
  | setExpiryAt key timestampMs => exact loses_setExpiryAt timestampMs s
  | persist key => exact loses_persist s
  | get key =>
    exact loses_get (show (KeyspaceOp.get key : KeyspaceOp S).Checks key from rfl) s
  | getObject key =>
    exact loses_getObject (show (KeyspaceOp.getObject key : KeyspaceOp S).Checks key from rfl) s
  | getObjectForWrite key change =>
    exact loses_changeObject
      (show (KeyspaceOp.getObjectForWrite key change : KeyspaceOp S).Checks key from rfl) change s
  | contains key =>
    exact loses_contains (show (KeyspaceOp.contains key : KeyspaceOp S).Checks key from rfl) s
  | type key =>
    exact loses_type (show (KeyspaceOp.type key : KeyspaceOp S).Checks key from rfl) s
  | activeExpireCycle maxSamples order =>
    -- the cycle is the only one that needs the invariant: it goes by the table of deadlines
    have hcycle := expireCycle_spec maxSamples order hs
    obtain ⟨n, hn, hleaves⟩ := hcycle.leaves
    exact ⟨fun _ => hcycle.consistent, n, hn, fun k hin hout => .inr ⟨trivial, hleaves k hin hout⟩⟩
  | flushDb => exact loses_flushDb (fun _ => trivial) s

end DbState

/-! ### Several databases -/

/-- Databases in one environment. -/
structure Keyspaces (S ι : Type) where
  env : Env
  dbs : ι → Database S

/-- A call of a method of one of several databases. -/
inductive KeyspaceCall (S ι : Type) where
  | on (i : ι) (op : KeyspaceOp S)
  /-- The database `i` is now what `clone` makes of the database `j`. -/
  | clone (i j : ι) (rng : Bytes → ℕ → Height)

namespace Keyspaces

variable {ι : Type} [DecidableEq ι] [Platform] [Inhabited S] [LT S] [DecidableLT S] [BEq S]

omit [DecidableEq ι] [Platform] [Inhabited S] [LT S] [DecidableLT S] [BEq S] in
/-- A database in the environment. -/
def state (ks : Keyspaces S ι) (i : ι) : DbState S := { ks.env with db := ks.dbs i }

/-- The databases after a call. -/
def call (ks : Keyspaces S ι) : KeyspaceCall S ι → Keyspaces S ι
  | .on i op =>
    { env := ((ks.state i).run op).toEnv, dbs := Function.update ks.dbs i ((ks.state i).run op).db }
  | .clone i j rng => { ks with dbs := Function.update ks.dbs i ((ks.dbs j).clone rng) }

/-- New databases. -/
def new (env : Env) : Keyspaces S ι := { env := env, dbs := fun _ => {} }

variable {ks : Keyspaces S ι}

omit [DecidableEq ι] [Platform] in
/-- A copy has the same keys and deadlines. -/
theorem clone_keys (db : Database S) (rng : Bytes → ℕ → Height) :
    (∀ key, key ∈ (db.clone rng).data ↔ key ∈ db.data) ∧ (db.clone rng).expires = db.expires := by
  refine ⟨fun key => ?_, rfl⟩
  rw [DbState.mem_iff_lookup, DbState.mem_iff_lookup, Database.clone, UnorderedMap.lookup_mapVal]
  simp

/-- By induction on the calls. -/
theorem consistent_foldl (calls : List (KeyspaceCall S ι)) : ∀ {ks : Keyspaces S ι},
    (∀ i, (ks.dbs i).Consistent) → ∀ i, ((calls.foldl call ks).dbs i).Consistent := by
  induction calls with
  | nil => exact fun h => h
  | cons c calls ih =>
    intro ks h
    refine ih fun k => ?_
    -- a call changes one of the databases, and the others are as they were
    cases c with
    | on i op =>
      by_cases hk : k = i
      · subst hk
        show (Function.update ks.dbs k _ k).Consistent
        rw [Function.update_self]
        exact (DbState.loses_run op (s := ks.state k) (h k)).consistent (h k)
      · show (Function.update ks.dbs i _ k).Consistent
        rw [Function.update_of_ne hk]
        exact h k
    | clone i j rng =>
      by_cases hk : k = i
      · subst hk
        show (Function.update ks.dbs k _ k).Consistent
        rw [Function.update_self]
        exact fun key hkey => ((clone_keys _ rng).1 key).mpr (h j key hkey)
      · show (Function.update ks.dbs i _ k).Consistent
        rw [Function.update_of_ne hk]
        exact h k

/-- **The keyspace and the table of deadlines** after any calls on new databases: every key with a deadline is there;
a further call takes a key out only where the method removes it, or where the method checks it and has read a clock at
or past its deadline; `activeExpireCycle` returns the number of keys it has removed; and a copy has the keys and the
deadlines of the original. The first part is the invariant, `Consistent`, along the calls; the others are about one
further call from a consistent state. -/
theorem keyspace_sound (env : Env) (calls : List (KeyspaceCall S ι)) :
    let ks := calls.foldl call (new env)
    (∀ i, (ks.dbs i).Consistent) ∧
    (∀ i op, ∃ n, (ks.state i).ReadsClock n ((ks.state i).run op) ∧
      ∀ key ∈ (ks.dbs i).data, key ∉ ((ks.state i).run op).db.data → op.Removes key ∨
        op.Checks key ∧ ∃ deadline, (ks.dbs i).expires.lookup key = some deadline ∧
          ∃ k < n, deadline ≤ ks.env.clock k) ∧
    (∀ i maxSamples order, ((ks.state i).expireCycle maxSamples order).1
      = ((ks.state i).gone ((ks.state i).expireCycle maxSamples order).2).length) ∧
    ∀ i rng, (∀ key, key ∈ ((ks.dbs i).clone rng).data ↔ key ∈ (ks.dbs i).data) ∧
      ((ks.dbs i).clone rng).expires = (ks.dbs i).expires := by
  intro ks
  have hconsistent : ∀ i, (ks.dbs i).Consistent :=
    consistent_foldl calls fun _ key hkey => absurd hkey (AList.notMem_empty key)
  refine ⟨hconsistent, fun i op => ?_, fun i maxSamples order => ?_, fun i rng => clone_keys _ rng⟩
  · exact (DbState.loses_run op (s := ks.state i) (hconsistent i)).leaves
  · exact (DbState.expireCycle_spec (s := ks.state i) maxSamples order (hconsistent i)).count.symm

end Keyspaces

end RedisDb

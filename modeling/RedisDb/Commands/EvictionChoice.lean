import RedisDb.Commands.CommandRegistry
import RedisDb.Storage.Keyspace
import RedisDb.Storage.WatchedKeys

/-!
# The key that is evicted

Choosing a key looks at the sampled keys through `getObject` and `pttl`, the way commands do. So keys that have
expired go away while the choice is made, and every key that is looked at has been used just now. `Sheds` is what that
leaves of a database: nothing changes but that keys go away, each for a reason. It is reflexive and transitive, each
method of the choice has it (`sheds_getObject`, `sheds_pttl`, `sheds_del`, `sampleLoop_spec`), and so it holds of a
whole turn (`ends_evictOne`).

The reason that a key has expired refers to a reading of the clock since the beginning. So `Sheds` says how many
readings there were, and a step further on counts its readings from there (`Sheds.trans`).

The policy that asks for the key that has been idle longest (`lruKey`) finds every key in use, since `getObject` has
just set its clock. Of keys that are equally idle it takes the last, and so it takes the last one always
(`bestOf_idle`). It is the right one if and only if the last live key of the sample has been idle longest
(`evicts_oldest_iff`).
-/

namespace RedisDb

variable {S : Type}

/-- What is left of a database, when keys have gone: they had the same values, and the same deadlines. -/
structure Database.Remains (db rest : Database S) : Prop where
  values : ∀ key obj, rest.data.lookup key = some obj →
    ∃ old, db.data.lookup key = some old ∧ obj.value = old.value
  deadlines : ∀ key ∈ rest.data, rest.expires.lookup key = db.expires.lookup key
  expires : ∀ key deadline, rest.expires.lookup key = some deadline → db.expires.lookup key = some deadline

namespace Database.Remains

open DbState (mem_iff_lookup)

variable {db db' db'' : Database S} {key : Bytes}

/-- Everything stays. -/
theorem refl (db : Database S) : db.Remains db :=
  ⟨fun _ obj h => ⟨obj, h, rfl⟩, fun _ _ => rfl, fun _ _ h => h⟩

/-- No key is new. -/
theorem mem (h : db.Remains db') (hkey : key ∈ db'.data) : key ∈ db.data := by
  obtain ⟨obj, hobj⟩ := mem_iff_lookup.mp hkey
  obtain ⟨old, hold, -⟩ := h.values key obj hobj
  exact mem_iff_lookup.mpr ⟨old, hold⟩

/-- Nor is any deadline. -/
theorem mem_expires (h : db.Remains db') (hkey : key ∈ db'.expires) : key ∈ db.expires := by
  obtain ⟨deadline, hdeadline⟩ := mem_iff_lookup.mp hkey
  exact mem_iff_lookup.mpr ⟨deadline, h.expires key deadline hdeadline⟩

/-- What stays twice stays. -/
theorem trans (h : db.Remains db') (h' : db'.Remains db'') : db.Remains db'' where
  values key obj hobj := by
    obtain ⟨mid, hmid, heq⟩ := h'.values key obj hobj
    obtain ⟨old, hold, heq'⟩ := h.values key mid hmid
    exact ⟨old, hold, heq.trans heq'⟩
  deadlines key hkey := (h'.deadlines key hkey).trans (h.deadlines key (h'.mem hkey))
  expires key deadline hd := h.expires key deadline (h'.expires key deadline hd)

/-- How many keys and deadlines there are does not grow. -/
theorem size_le (h : db.Remains db') : db'.size + db'.expiresSize ≤ db.size + db.expiresSize :=
  Nat.add_le_add (UnorderedMap.size_le_of_subset fun _ => h.mem)
    (UnorderedMap.size_le_of_subset fun _ => h.mem_expires)

/-- And it falls, where a key goes away or a deadline. -/
theorem size_lt (h : db.Remains db') (hkey : key ∈ db.data ∨ key ∈ db.expires)
    (hdata : key ∉ db'.data) (hexpires : key ∉ db'.expires) :
    db'.size + db'.expiresSize < db.size + db.expiresSize := by
  rcases hkey with hmem | hmem
  · exact Nat.add_lt_add_of_lt_of_le (UnorderedMap.size_lt_of_subset (fun _ => h.mem) hmem hdata)
      (UnorderedMap.size_le_of_subset fun _ => h.mem_expires)
  · exact Nat.add_lt_add_of_le_of_lt (UnorderedMap.size_le_of_subset fun _ => h.mem)
      (UnorderedMap.size_lt_of_subset (fun _ => h.mem_expires) hmem hexpires)

end Database.Remains

namespace DbState

/-- **Keys go away**: those in `chosen`, and those whose deadline a reading of the clock has passed. Nothing else
happens to the keys, and no memory is taken up. -/
structure Sheds (chosen : Bytes → Prop) (s t : DbState S) : Prop where
  remains : s.db.Remains t.db
  gone : ∃ n, s.ReadsClock n t ∧ ∀ key ∈ s.db.data, key ∉ t.db.data → chosen key ∨
    ∃ deadline, s.db.expires.lookup key = some deadline ∧ ∃ i < n, deadline ≤ s.clock i
  memory : t.memory.usedMemory ≤ s.memory.usedMemory
  lruClock : t.memory.lruClock = s.memory.lruClock
  watchedKeys : t.db.watchedKeys = s.db.watchedKeys
  flagged : ∀ id ∈ t.flagged, id ∈ s.flagged ∨
    ∃ key clients, s.db.watchedKeys.lookup key = some clients ∧ id ∈ clients

namespace Sheds

variable {chosen : Bytes → Prop} {s t u : DbState S} {key : Bytes}

/-- No key goes away. -/
theorem of_eq {n : ℕ} (hremains : s.db.Remains t.db) (hkeys : ∀ key ∈ s.db.data, key ∈ t.db.data)
    (hclock : s.ReadsClock n t) (hmemory : t.memory = s.memory)
    (hwatched : t.db.watchedKeys = s.db.watchedKeys) (hflagged : t.flagged = s.flagged) :
    Sheds chosen s t where
  remains := hremains
  gone := ⟨n, hclock, fun key hs ht => absurd (hkeys key hs) ht⟩
  memory := by rw [hmemory]
  lruClock := by rw [hmemory]
  watchedKeys := hwatched
  flagged id h := .inl (hflagged ▸ h)

/-- Nothing happens, but that the clock may be read. -/
theorem of_now {n : ℕ} (hdb : t.db = s.db) (hclock : s.ReadsClock n t) (hmemory : t.memory = s.memory)
    (hflagged : t.flagged = s.flagged) : Sheds chosen s t :=
  of_eq (hdb ▸ .refl s.db) (fun key hkey => by rwa [hdb]) hclock hmemory (by rw [hdb]) hflagged

/-- Nothing happens. -/
theorem refl (chosen : Bytes → Prop) (s : DbState S) : Sheds chosen s s :=
  of_now rfl (readsClock_zero rfl) rfl rfl

/-- More keys may have been chosen than have been. -/
theorem mono {chosen' : Bytes → Prop} (h : Sheds chosen s t) (hle : ∀ key, chosen key → chosen' key) :
    Sheds chosen' s t :=
  { h with
    gone := by
      obtain ⟨n, hclock, hgone⟩ := h.gone
      exact ⟨n, hclock, fun key hs ht => (hgone key hs ht).imp_left (hle key)⟩ }

/-- One step after another, of which the second begins to read the clock where the first has stopped. -/
theorem trans (h : Sheds chosen s t) (h' : Sheds chosen t u) : Sheds chosen s u where
  remains := h.remains.trans h'.remains
  gone := by
    obtain ⟨n, hclock, hgone⟩ := h.gone
    obtain ⟨m, hclock', hgone'⟩ := h'.gone
    refine ⟨n + m, hclock.then hclock', fun key hs hu => ?_⟩
    by_cases ht : key ∈ t.db.data
    · -- the key goes away behind `t`, where the clock stands `n` readings later
      refine (hgone' key ht hu).imp_right ?_
      rintro ⟨deadline, hd, i, hi, hpast⟩
      refine ⟨deadline, h.remains.expires key deadline hd, n + i, by omega, ?_⟩
      rwa [show t.clock = _ from hclock] at hpast
    · refine (hgone key hs ht).imp_right ?_
      rintro ⟨deadline, hd, i, hi, hpast⟩
      exact ⟨deadline, hd, i, by omega, hpast⟩
  memory := h'.memory.trans h.memory
  lruClock := h'.lruClock.trans h.lruClock
  watchedKeys := h'.watchedKeys.trans h.watchedKeys
  flagged id hid := by
    rcases h'.flagged id hid with hmid | hwatches
    · exact h.flagged id hmid
    · exact .inr (h.watchedKeys ▸ hwatches)

/-- One key goes away, and its deadline. -/
theorem of_erase (key : Bytes) {n : ℕ} (hclock : s.ReadsClock n t)
    (hdata : ∀ k, t.db.data.lookup k = if k = key then none else s.db.data.lookup k)
    (hexpires : t.db.expires = s.db.expires.erase key)
    (hmemory : t.memory.usedMemory ≤ s.memory.usedMemory) (hlru : t.memory.lruClock = s.memory.lruClock)
    (hwatched : t.db.watchedKeys = s.db.watchedKeys)
    (hflagged : ∀ id ∈ t.flagged, id ∈ s.flagged ∨
      ∃ key clients, s.db.watchedKeys.lookup key = some clients ∧ id ∈ clients)
    (hwhy : chosen key ∨ ∃ deadline, s.db.expires.lookup key = some deadline ∧ ∃ i < n, deadline ≤ s.clock i) :
    Sheds chosen s t where
  remains :=
    { values := fun k obj hobj => by
        rw [hdata] at hobj
        split at hobj
        · cases hobj
        · exact ⟨obj, hobj, rfl⟩
      deadlines := fun k hk => by
        obtain ⟨obj, hobj⟩ := mem_iff_lookup.mp hk
        rw [hdata] at hobj
        split at hobj
        · cases hobj
        · next hne => rw [hexpires, UnorderedMap.lookup_erase_eq_ite, if_neg hne]
      expires := fun k deadline hd => by
        rw [hexpires, UnorderedMap.lookup_erase_eq_ite] at hd
        split at hd
        · cases hd
        · exact hd }
  gone := by
    refine ⟨n, hclock, fun k hs ht => ?_⟩
    by_cases hk : k = key
    · -- the key itself is the one that may go
      exact hk ▸ hwhy
    · obtain ⟨obj, hobj⟩ := mem_iff_lookup.mp hs
      exact absurd (mem_iff_lookup.mpr ⟨obj, by rw [hdata, if_neg hk, hobj]⟩) ht
  memory := hmemory
  lruClock := hlru
  watchedKeys := hwatched
  flagged := hflagged

end Sheds

/-! ### What is done to one key -/

section Methods

variable [Platform] {chosen : Bytes → Prop}

omit [Platform] in
/-- Flagging clients is no matter of the memory. -/
theorem touchWatchedKey_memory (key : Bytes) (s : DbState S) : (s.touchWatchedKey key).memory = s.memory := by
  unfold touchWatchedKey
  split <;> rfl

/-- What expiry and deletion share. -/
theorem sheds_removed {key : Bytes} {obj : RedisObject S} {s t : DbState S} {n : ℕ} (hdata : t.db = s.db)
    (hclock : s.ReadsClock n t) (hmemory : t.memory = s.memory) (hflagged : t.flagged = s.flagged)
    (hwhy : chosen key ∨ ∃ deadline, s.db.expires.lookup key = some deadline ∧ ∃ i < n, deadline ≤ s.clock i) :
    Sheds chosen s ((((t.release key obj).eraseData key).touchWatchedKey key).eraseExpires key).markDirty := by
  refine Sheds.of_erase key (n := n) ?_ (fun k => ?_) ?_ ?_ ?_ ?_ (fun id hid => ?_) hwhy
  · show ReadsClock n s (touchWatchedKey key _)
    rw [ReadsClock, touchWatchedKey_clock]
    exact hclock
  · rw [markDirty_data, eraseExpires_data, touchWatchedKey_db, eraseData_data, release_db, hdata]
    exact UnorderedMap.lookup_erase_eq_ite ..
  · rw [markDirty_expires, eraseExpires_expires, touchWatchedKey_db, eraseData_expires, release_db, hdata]
  · -- the memory is given back, and what is given back is not more than there is
    show (touchWatchedKey key _).memory.usedMemory ≤ _
    rw [touchWatchedKey_memory, ← hmemory]
    exact (Nat.sub_le _ _).trans (Nat.sub_le _ _)
  · show (touchWatchedKey key _).memory.lruClock = _
    rw [touchWatchedKey_memory, ← hmemory]
    rfl
  · show (touchWatchedKey key _).db.watchedKeys = _
    rw [touchWatchedKey_db, ← hdata]
    rfl
  · rcases (WatchersKept.touchWatchedKey ((t.release key obj).eraseData key) key).flagged id hid with hmem | hwatches
    · exact .inl (hflagged ▸ hmem)
    · exact .inr (hdata ▸ hwatches)

/-- A key that is looked at goes away if its deadline has passed, for that reason. -/
theorem sheds_checkAndExpire (key : Bytes) (s : DbState S) : Sheds chosen s (s.checkAndExpire key).2 := by
  unfold checkAndExpire isExpired
  cases hdeadline : s.db.expires.lookup key with
  | none => exact .refl chosen s
  | some deadline =>
    simp only [now]
    -- the clock is read once, if there is a deadline
    by_cases hpast : deadline ≤ s.clock 0
    · simp only [hpast, decide_true, if_true]
      have hwhy : ∃ d, some deadline = some d ∧ ∃ i < 1, d ≤ s.clock i := ⟨deadline, rfl, 0, by decide, hpast⟩
      rw [← hdeadline] at hwhy
      cases hobj : s.db.data.lookup key with
      | some obj => exact sheds_removed rfl (readsClock_now s) rfl rfl (.inr hwhy)
      | none =>
        -- a deadline of a key that is not there
        refine Sheds.of_erase key (n := 1) (readsClock_now s) (fun k => ?_) rfl le_rfl rfl rfl
          (fun id hid => .inl hid) (.inr hwhy)
        show s.db.data.lookup k = _
        split
        · next hk => rw [hk, hobj]
        · rfl
    · simp only [hpast, decide_false, Bool.false_eq_true, if_false]
      exact .of_now rfl (readsClock_now s) rfl rfl

/-- **Looking at a key**: it goes away if it has expired. An object that is there is in use from now on. -/
theorem sheds_getObject (key : Bytes) (s : DbState S) :
    Sheds chosen s (s.getObject key).2 ∧
      ∀ obj, (s.getObject key).1 = some obj → obj.lruClock = s.memory.lruClock := by
  have hcheck : Sheds chosen s (s.checkAndExpire key).2 := sheds_checkAndExpire key s
  unfold getObject
  rcases hx : s.checkAndExpire key with ⟨expired, t⟩
  rw [hx] at hcheck
  replace hcheck : Sheds chosen s t := hcheck
  cases expired with
  | true => exact ⟨hcheck, fun obj h => nomatch h⟩
  | false =>
    simp only [Bool.false_eq_true, if_false]
    cases hobj : t.db.data.lookup key with
    | none =>
      exact ⟨hcheck.trans (.of_eq (n := 0) ⟨fun _ obj h => ⟨obj, h, rfl⟩, fun _ _ => rfl, fun _ _ h => h⟩
        (fun _ h => h) (readsClock_zero rfl) rfl rfl rfl), fun obj h => nomatch h⟩
    | some obj =>
      refine ⟨hcheck.trans (.of_eq (n := 0) ⟨fun k new hnew => ?_, fun _ _ => rfl, fun _ _ h => h⟩
        (fun k hk => ?_) (readsClock_zero rfl) rfl rfl rfl), fun new hnew => ?_⟩
      · -- the object is stored again, with another clock
        rw [UnorderedMap.lookup_insert_eq_ite] at hnew
        split at hnew
        · next hk => exact ⟨obj, hk ▸ hobj, by rw [← Option.some.inj hnew]; rfl⟩
        · exact ⟨new, hnew, rfl⟩
      · exact mem_insert.mpr (.inr hk)
      · rw [← Option.some.inj hnew]
        exact hcheck.lruClock

omit [Platform] in
/-- `pttl` reads a deadline, and the clock. -/
theorem sheds_pttl (key : Bytes) (s : DbState S) : Sheds chosen s (s.pttl key).2 := by
  unfold pttl
  split
  · exact .refl chosen s
  · cases s.db.expires.lookup key with
    | none => exact .refl chosen s
    | some deadline =>
      exact .of_now rfl (readsClock_now s) rfl rfl

/-- **Deletion** of a chosen key. The deadline goes first, then the object, if there is one, and those who watch the
key are flagged. -/
theorem sheds_del {key : Bytes} (hchosen : chosen key) (s : DbState S) : Sheds chosen s (s.del key).2 ∧
    key ∉ (s.del key).2.db.data ∧ key ∉ (s.del key).2.db.expires := by
  have hno {V : Type} (m : UnorderedMap Bytes V) : key ∉ m.erase key := fun h => (mem_erase.mp h).1 rfl
  -- the deadline is erased first, and also where there is no object
  cases hobj : (s.eraseExpires key).db.data.lookup key with
  | none =>
    have hout : s.db.data.lookup key = none := hobj
    have hdel : s.del key = (false, s.eraseExpires key) := by
      unfold del
      simp only [hobj]
    rw [hdel]
    refine ⟨.of_erase key (n := 0) (readsClock_zero rfl) (fun k => ?_) rfl le_rfl rfl rfl
      (fun id hid => .inl hid) (.inl hchosen), fun h => ?_, hno _⟩
    · show s.db.data.lookup k = _
      split
      · next hk => rw [hk, hout]
      · rfl
    · obtain ⟨obj, hobj⟩ := mem_iff_lookup.mp h
      cases hout.symm.trans hobj
  | some obj =>
    -- the object is given back, and who watches it is flagged
    obtain ⟨t, ht⟩ : ∃ t, t = ((((s.eraseExpires key).release key obj).eraseData key).touchWatchedKey
      key).markDirty := ⟨_, rfl⟩
    have hdata : t.db.data = s.db.data.erase key := by
      rw [ht, markDirty_data, touchWatchedKey_db]
      rfl
    have hexpires : t.db.expires = s.db.expires.erase key := by
      rw [ht, markDirty_expires, touchWatchedKey_db]
      rfl
    have hdel : s.del key = (true, t) := by
      unfold del
      simp only [hobj, ht]
    rw [hdel]
    refine ⟨.of_erase key (n := 0) (readsClock_zero ?_) (fun k => ?_) hexpires ?_ ?_ ?_
      (fun id hid => ?_) (.inl hchosen), hdata ▸ hno _, hexpires ▸ hno _⟩
    · -- the clock is not read, memory is given back, and the watchers were watchers
      rw [ht, markDirty_clock, touchWatchedKey_clock]
      rfl
    · rw [hdata]
      exact UnorderedMap.lookup_erase_eq_ite ..
    · rw [ht]
      show (touchWatchedKey key _).memory.usedMemory ≤ _
      rw [touchWatchedKey_memory]
      exact (Nat.sub_le _ _).trans (Nat.sub_le _ _)
    · rw [ht]
      show (touchWatchedKey key _).memory.lruClock = _
      rw [touchWatchedKey_memory]
      rfl
    · rw [ht]
      show (touchWatchedKey key _).db.watchedKeys = _
      rw [touchWatchedKey_db]
      rfl
    · rw [ht] at hid
      exact (WatchersKept.touchWatchedKey (((s.eraseExpires key).release key obj).eraseData key) key).flagged id hid

end Methods

end DbState

/-! ### The sample -/

namespace DbState

variable {chosen : Bytes → Prop}

/-- What is drawn is drawn from the population, and nothing happens to the database. By induction on how many
are drawn. -/
theorem sampleLoop_spec (population : List Bytes) (count : ℕ) : ∀ s : DbState S,
    (∀ key ∈ (sampleLoop population count s).1, key ∈ population) ∧
      (sampleLoop population count s).2.db = s.db ∧ Sheds chosen s (sampleLoop population count s).2 := by
  induction count with
  | zero => exact fun s => ⟨fun key hkey => (List.not_mem_nil hkey).elim, rfl, .refl chosen s⟩
  | succ count ih =>
    intro s
    unfold sampleLoop
    cases hkey : population[s.random 0 % population.length]? with
    | none => exact ⟨fun key h => (List.not_mem_nil h).elim, rfl, .refl chosen s⟩
    | some key =>
      obtain ⟨hmem, hdb, hsheds⟩ := ih { s with random := fun k => s.random (k + 1) }
      refine ⟨List.forall_mem_cons.mpr ⟨List.mem_of_getElem? hkey, hmem⟩, hdb, ?_⟩
      have hdraw : Sheds chosen s { s with random := fun k => s.random (k + 1) } :=
        .of_now rfl (readsClock_zero rfl) rfl rfl
      exact hdraw.trans hsheds

/-- **Sampling**: a sample of the keys, or of the keys that have a deadline. -/
theorem randomSample_spec (count : ℤ) (volatileOnly : Bool) (s : DbState S) :
    (∀ key ∈ (s.randomSample count volatileOnly).1,
        if volatileOnly then key ∈ s.db.expires else key ∈ s.db.data) ∧
      (s.randomSample count volatileOnly).2.db = s.db ∧
      Sheds chosen s (s.randomSample count volatileOnly).2 := by
  obtain ⟨hmem, hdb, hsheds⟩ := @sampleLoop_spec S chosen
    (if volatileOnly then s.db.expires.keys else s.db.data.keys) count.toNat s
  refine ⟨fun key hkey => ?_, hdb, hsheds⟩
  have hkey' := hmem key hkey
  cases volatileOnly <;> exact hkey'

end DbState

/-! ### The choice -/

open DbState

section Choice

variable [Platform]

/-- The sample that is drawn under a policy. -/
def DbState.sample (policy : Bytes) (samples : ℤ) (s : DbState S) : List Bytes :=
  (s.randomSample samples ((str "volatile").isPrefixOf policy)).1

/-- The state behind the drawing, in which the choice is made. -/
def DbState.sampled (policy : Bytes) (samples : ℤ) (s : DbState S) : DbState S :=
  (s.randomSample samples ((str "volatile").isPrefixOf policy)).2

/-- **The choice among sampled keys**, by any measure that only looks at them: one of the keys, or the one to
begin with. By induction on the keys. -/
theorem ends_bestOf {better : ℕ → ℕ → Bool} {measure : Bytes → DbM S (Option ℕ)} (keys : List Bytes)
    (hmeasure : ∀ key s, (measure key).Ends s fun _ t => Sheds (fun _ => False) s t) :
    ∀ best bestKey s, (bestOf better measure best bestKey keys).Ends s fun key t =>
      Sheds (fun _ => False) s t ∧ (key = bestKey ∨ key ∈ keys) := by
  induction keys with
  | nil => exact fun best bestKey s => ⟨bestKey, s, rfl, .refl _ s, .inl rfl⟩
  | cons key keys ih =>
    intro best bestKey s
    -- whichever key is the best so far, the loop goes on with the keys that are left
    have hrest (best : ℕ) (bestKey' : Bytes) (hkey : bestKey' = bestKey ∨ bestKey' = key) {t : DbState S}
        (ht : Sheds (fun _ => False) s t) : (bestOf better measure best bestKey' keys).Ends t fun k u =>
          Sheds (fun _ => False) s u ∧ (k = bestKey ∨ k ∈ key :: keys) := by
      refine (ih best bestKey' t).mono fun k u ⟨hu, hk⟩ => ⟨ht.trans hu, ?_⟩
      rcases hk with rfl | hk
      · exact hkey.imp_right fun (h : k = key) => h ▸ List.mem_cons_self
      · exact .inr (List.mem_cons_of_mem _ hk)
    refine (hmeasure key s).bind fun n t ht => ?_
    cases n with
    | none => exact hrest best bestKey (.inl rfl) ht
    | some n =>
      simp only
      split
      · exact hrest n key (.inr rfl) ht
      · exact hrest best bestKey (.inl rfl) ht

/-- A measure of the object at a key looks at the key. -/
theorem ends_objectMeasure (f : RedisObject S → ℕ) (key : Bytes) (s : DbState S) :
    (objectMeasure f key).Ends s fun _ t => Sheds (fun _ => False) s t :=
  ⟨_, _, rfl, (sheds_getObject key s).1⟩

/-- **A key is chosen** out of the sample, or none, and no key goes away for being chosen. The sample is drawn first.
Under each policy the choice is the first of it, or the best by some measure, and measuring takes no key away but
those whose deadline has passed. -/
theorem ends_keyToEvict (policy : Bytes) (samples : ℤ) (s : DbState S) :
    (keyToEvict policy samples).Ends s fun chosen t => Sheds (fun _ => False) s t ∧
      ∀ key, chosen = some key → key = [] ∨ key ∈ s.sample policy samples := by
  have hsheds := (@randomSample_spec S (fun _ => False) samples ((str "volatile").isPrefixOf policy) s).2.2
  unfold keyToEvict DbState.sample
  refine Program.Ends.bind (Q := fun sample t => sample = (s.randomSample samples
    ((str "volatile").isPrefixOf policy)).1 ∧ Sheds (fun _ => False) s t) ⟨_, _, rfl, rfl, hsheds⟩ ?_
  rintro sample t ⟨rfl, ht⟩
  split
  · -- nothing has been sampled
    exact Program.ends_pure ⟨ht, fun key h => nomatch h⟩
  · next first rest hsample =>
    have hfirst : first ∈ (s.randomSample samples ((str "volatile").isPrefixOf policy)).1 :=
      hsample ▸ List.mem_cons_self
    -- what the best of the sampled keys is returned as, under three of the policies
    have hbest (better : ℕ → ℕ → Bool) (measure : Bytes → DbM S (Option ℕ)) (best : ℕ)
        (hmeasure : ∀ key s, (measure key).Ends s fun _ t => Sheds (fun _ => False) s t) :
        (bestOf better measure best [] (first :: rest)).Ends t fun key u => Sheds (fun _ => False) s u ∧
          (key = [] ∨ key ∈ (s.randomSample samples ((str "volatile").isPrefixOf policy)).1) :=
      (ends_bestOf (first :: rest) hmeasure best [] t).mono fun key u ⟨hu, hkey⟩ =>
        ⟨ht.trans hu, hkey.imp_right fun h => hsample ▸ h⟩
    split
    · -- a policy that takes any key takes the first
      exact Program.ends_pure ⟨ht, fun key h => .inr (Option.some.inj h ▸ hfirst)⟩
    · split
      · refine (hbest _ _ _ fun key s => ?_).bind fun key u ⟨hu, hkey⟩ =>
          Program.ends_pure ⟨hu, fun k h => Option.some.inj h ▸ hkey⟩
        exact Program.Ends.bind ⟨_, _, rfl, sheds_pttl key s⟩ fun ttl u hu => Program.ends_pure hu
      · split
        · exact (hbest _ _ _ (ends_objectMeasure _)).bind fun key u ⟨hu, hkey⟩ =>
            Program.ends_pure ⟨hu, fun k h => Option.some.inj h ▸ hkey⟩
        · refine (Program.ends_read (Q := fun _ u => u = t) rfl).bind fun clock u hu => ?_
          subst hu
          refine (hbest _ _ _ (ends_objectMeasure _)).bind fun key v ⟨hv, hkey⟩ =>
            Program.ends_pure ⟨hv, fun k h => ?_⟩
          rw [← Option.some.inj h]
          split
          · exact .inr hfirst
          · exact hkey

/-! ### The turn -/

/-- The key is in the sample, and is the one that is chosen. -/
def DbState.Chooses (policy : Bytes) (samples : ℤ) (s : DbState S) (key : Bytes) : Prop :=
  key ∈ s.sample policy samples ∧ ∃ t, (keyToEvict policy samples).run s = some (.ok (some key), t)

/-- The choice comes to nothing. -/
def DbState.ChoosesNone (policy : Bytes) (samples : ℤ) (s : DbState S) : Prop :=
  ∃ chosen t, (keyToEvict policy samples).run s = some (.ok chosen, t) ∧ chosen.getD [] = []

/-- **One turn**: what goes away is chosen, or has expired. A turn that evicts leaves fewer keys and deadlines,
and a turn that does not has enough memory before it, or no key to choose. -/
theorem ends_evictOne (policy : Bytes) (samples : ℤ) (target : ℕ) (s : DbState S) :
    (evictOne policy samples target).Ends s fun evicted t => Sheds (s.Chooses policy samples) s t ∧
      if evicted then t.db.size + t.db.expiresSize < s.db.size + s.db.expiresSize
      else t.memory.usedMemory ≤ target ∨ s.ChoosesNone policy samples := by
  unfold evictOne
  refine (Program.ends_read (Q := fun used t => used = s.memory.usedMemory ∧ s = t) ⟨rfl, rfl⟩).bind ?_
  rintro _ _ ⟨rfl, rfl⟩
  split
  · next hless => exact Program.ends_pure ⟨.refl _ s, .inl hless⟩
  · obtain ⟨key, t, hrun, hsheds, hkey⟩ := ends_keyToEvict policy samples s
    replace hsheds {chosen : Bytes → Prop} : Sheds chosen s t := hsheds.mono fun _ h => h.elim
    refine Program.Ends.bind (Q := fun k u => k = key ∧ u = t) ⟨_, _, hrun, rfl, rfl⟩ ?_
    rintro k u ⟨rfl, rfl⟩
    split
    · exact Program.ends_pure ⟨hsheds, .inr ⟨_, _, hrun, rfl⟩⟩
    · exact Program.ends_pure ⟨hsheds, .inr ⟨_, _, hrun, rfl⟩⟩
    · next key hne =>
      -- the key was in the sample, so it was there, and it is not there any more
      have hmem : key ∈ s.sample policy samples := (hkey key rfl).resolve_left fun h => hne (h ▸ rfl)
      obtain ⟨hdel, hdata, hexpires⟩ := @sheds_del S _ (s.Chooses policy samples) key ⟨hmem, u, hrun⟩ u
      refine Program.Ends.bind (Q := fun _ v => v = (u.del key).2) ⟨_, _, rfl, rfl⟩ ?_
      rintro _ v rfl
      have hall := hsheds.trans hdel
      refine Program.ends_pure ⟨hall, hall.remains.size_lt ?_ hdata hexpires⟩
      have hsampled := (@randomSample_spec S (fun _ => False) samples
        ((str "volatile").isPrefixOf policy) s).1 key hmem
      split at hsampled
      · exact .inr hsampled
      · exact .inl hsampled

/-! ### The key that has been idle longest -/

namespace DbState

/-- The sampled keys that are live, each where the loop over the sample comes to it. -/
def found : List Bytes → DbState S → List Bytes
  | [], _ => []
  | key :: rest, s =>
    let (obj, t) := s.getObject key
    if obj.isSome then key :: t.found rest else t.found rest

/-- How long the object at a key has not been used. -/
def idle (key : Bytes) (s : DbState S) : ℕ :=
  (s.db.data.lookup key).elim 0 fun obj => s.memory.lruClock.toNat - obj.lruClock.toNat

/-- **The right key**: it is live, and no live key of the sample has been idle longer. -/
def Oldest (sample : List Bytes) (s : DbState S) (key : Bytes) : Prop :=
  key ∈ s.found sample ∧ ∀ k ∈ s.found sample, s.idle k ≤ s.idle key

/-- The last live key of the sample is the right one. The empty key is passed over for the first of the
sample. -/
def LastIsOldest (sample : List Bytes) (s : DbState S) : Prop :=
  (∃ last, (s.found sample).getLast? = some last ∧ last ≠ [] ∧ ∀ k ∈ s.found sample, s.idle k ≤ s.idle last) ∨
    (s.found sample).getLast? = some [] ∧ ∃ first rest, sample = first :: rest ∧ first ∈ s.found sample ∧
      ∀ k ∈ s.found sample, s.idle k ≤ s.idle first

end DbState

/-- The policy goes by how long keys have been idle, as it goes by nothing else. -/
def GoesByIdleTime (policy : Bytes) : Prop :=
  isInfix (str "random") policy = false ∧ policy ≠ str "volatile-ttl" ∧ isInfix (str "lfu") policy = false

/-- **The loop takes the last live key.** By induction on the keys: `getObject` has just set the clock of the object,
so every key is idle for no time, and one that is as good as the best replaces it. -/
theorem bestOf_idle (keys : List Bytes) : ∀ (bestKey : Bytes) (s : DbState S), ∃ t,
    (bestOf (fun n best => best ≤ n) (objectMeasure fun obj => (s.memory.lruClock - obj.lruClock).toNat) 0
      bestKey keys).run s = some (.ok ((s.found keys).getLastD bestKey), t) := by
  induction keys with
  | nil => exact fun bestKey s => ⟨s, rfl⟩
  | cons key keys ih =>
    intro bestKey s
    obtain ⟨hsheds, hclock⟩ := @sheds_getObject S _ (fun _ => False) key s
    have hmeasure : (objectMeasure (fun obj => (s.memory.lruClock - obj.lruClock).toNat) key).run s
        = some (.ok ((s.getObject key).1.map fun obj => (s.memory.lruClock - obj.lruClock).toNat),
          (s.getObject key).2) := rfl
    unfold bestOf found
    rw [Program.run_bind_ok hmeasure]
    rcases hx : s.getObject key with ⟨obj, t⟩
    rw [hx] at hsheds hclock
    cases obj with
    | none =>
      rw [← hsheds.lruClock]
      exact ih bestKey t
    | some obj =>
      -- the object has been used just now
      have hzero : (s.memory.lruClock - obj.lruClock).toNat = 0 := by
        rw [hclock obj rfl, UInt32.sub_self]
        rfl
      simp only [Option.map_some, hzero, le_refl, decide_true, if_true, Option.isSome_some, List.getLastD_cons]
      rw [← hsheds.lruClock]
      exact ih key t

/-- What is chosen under such a policy, of a sample that is not empty. -/
theorem keyToEvict_idle {policy : Bytes} (hpolicy : GoesByIdleTime policy) {samples : ℤ} {s : DbState S}
    {first : Bytes} {rest : List Bytes} (hsample : s.sample policy samples = first :: rest) : ∃ u,
    (keyToEvict policy samples).run s = some (.ok (some
      (if ((s.sampled policy samples).found (first :: rest)).getLastD [] = [] then first
        else ((s.sampled policy samples).found (first :: rest)).getLastD [])), u) := by
  obtain ⟨hrandom, httl, hlfu⟩ := hpolicy
  obtain ⟨u, hu⟩ := bestOf_idle (first :: rest) [] (s.sampled policy samples)
  -- the sample is drawn once, and the clock of the policy read once
  have hdraw : (DbM.randomSample samples ((str "volatile").isPrefixOf policy)).run s
      = some (.ok (first :: rest), s.sampled policy samples) := by
    rw [← hsample]
    rfl
  refine ⟨u, ?_⟩
  unfold keyToEvict
  rw [Program.run_bind_ok hdraw]
  simp only [hrandom, httl, hlfu, if_false, Bool.false_eq_true]
  have hread : (Program.read (fun s : DbState S => s.memory.lruClock) : DbM S UInt32).run
      (s.sampled policy samples) = some (.ok (s.sampled policy samples).memory.lruClock,
        s.sampled policy samples) := rfl
  rw [Program.run_bind_ok hread, Program.run_bind_ok hu]
  rfl

/-- **The least recently used key of the sample** is chosen if and only if it comes last among those that are live.
`getObject` sets the clock of each object that it looks up, so every key that is found is idle for no time, and
replaces the one before. -/
theorem evicts_oldest_iff {policy : Bytes} (hpolicy : GoesByIdleTime policy) (samples : ℤ) (s : DbState S)
    (hsample : s.sample policy samples ≠ []) :
    (∃ key u, (keyToEvict policy samples).run s = some (.ok (some key), u) ∧
      (s.sampled policy samples).Oldest (s.sample policy samples) key) ↔
      (s.sampled policy samples).LastIsOldest (s.sample policy samples) := by
  obtain ⟨first, rest, hcons⟩ := List.exists_cons_of_ne_nil hsample
  obtain ⟨u, hrun⟩ := keyToEvict_idle hpolicy hcons
  rw [hcons]
  obtain ⟨t, ht⟩ : ∃ t, t = s.sampled policy samples := ⟨_, rfl⟩
  rw [← ht] at hrun ⊢
  -- what is chosen is told by the live key that comes last
  have hchosen : (∃ key u, (keyToEvict policy samples).run s = some (.ok (some key), u) ∧
      t.Oldest (first :: rest) key) ↔
      t.Oldest (first :: rest) (if (t.found (first :: rest)).getLastD [] = [] then first
        else (t.found (first :: rest)).getLastD []) := by
    constructor
    · rintro ⟨key, v, hkey, hold⟩
      rw [hrun] at hkey
      obtain ⟨heq, -⟩ := Prod.mk.inj (Option.some.inj hkey)
      rwa [Option.some.inj (Except.ok.inj heq)]
    · exact fun hold => ⟨_, u, hrun, hold⟩
  rw [hchosen]
  unfold LastIsOldest Oldest
  cases hfound : (t.found (first :: rest)).getLast? with
  | none =>
    rw [List.getLast?_eq_none_iff] at hfound
    simp [hfound]
  | some last =>
    rw [List.getLastD_eq_getLast?, hfound, Option.getD_some]
    have hmem : last ∈ t.found (first :: rest) := List.mem_of_getLast? hfound
    -- the empty key is taken for none
    by_cases hempty : last = []
    · subst hempty
      simp
    · rw [if_neg hempty]
      simp [hempty, hmem]

end Choice

section Sample

open Sample

/-- Two keys, which have been used last at these times. Both are drawn, `a` first. -/
def twoKeys (a b : UInt32) : DbState Score :=
  { idleEnv with
    memory := { lruClock := 10 }
    random := id
    db := { data := ((∅ : UnorderedMap Bytes (RedisObject Score)).insert (str "b")
      { value := .string [], lruClock := b }).insert (str "a") { value := .string [], lruClock := a } } }

/-- `allkeys-lru` is such a policy. -/
theorem goesByIdleTime_lru : GoesByIdleTime (str "allkeys-lru") := ⟨by decide, by decide, by decide⟩

/-- The second of two keys, which is drawn last, has been idle longest. -/
theorem evicts_oldest_iff_two : ∃ key u,
    (keyToEvict (str "allkeys-lru") 2).run (twoKeys 5 1) = some (.ok (some key), u) ∧
      ((twoKeys 5 1).sampled (str "allkeys-lru") 2).Oldest ((twoKeys 5 1).sample (str "allkeys-lru") 2) key := by
  refine (evicts_oldest_iff goesByIdleTime_lru 2 (twoKeys 5 1) (by decide)).mpr (.inl ⟨str "b", rfl, by decide, ?_⟩)
  intro k hk
  have hfound : ((twoKeys 5 1).sampled (str "allkeys-lru") 2).found ((twoKeys 5 1).sample (str "allkeys-lru") 2)
      = [str "a", str "b"] := rfl
  rw [hfound] at hk
  rcases List.mem_pair.mp hk with rfl | rfl <;> decide

/-- The key that has been used just before the other is evicted. -/
theorem evicts_younger : ¬∀ (policy : Bytes) (samples : ℤ) (s : DbState Score), GoesByIdleTime policy →
    s.sample policy samples ≠ [] →
    (∀ key ∈ s.sample policy samples, ∀ obj, s.db.data.lookup key = some obj →
      obj.lruClock ≤ s.memory.lruClock) →
    ∃ key u, (keyToEvict policy samples).run s = some (.ok (some key), u) ∧
      (s.sampled policy samples).Oldest (s.sample policy samples) key := by
  intro hall
  obtain ⟨key, u, hrun, -, hold⟩ := hall (str "allkeys-lru") 2 (twoKeys 1 5) goesByIdleTime_lru (by decide)
    fun key hkey obj hobj => by
      have hsample : (twoKeys 1 5).sample (str "allkeys-lru") 2 = [str "a", str "b"] := rfl
      rw [hsample] at hkey
      rcases List.mem_pair.mp hkey with rfl | rfl <;>
      · obtain rfl := Option.some.inj hobj
        decide
  have hchosen : ((keyToEvict (str "allkeys-lru") 2).run (twoKeys 1 5)).map Prod.fst
      = some (.ok (some (str "b"))) := rfl
  rw [hrun, Option.map_some] at hchosen
  obtain rfl : key = str "b" := Option.some.inj (Except.ok.inj (Option.some.inj hchosen))
  -- `a` has been idle for nine ticks of the clock, and `b` for five
  exact absurd (hold (str "a") (by decide)) (by decide)

end Sample

end RedisDb

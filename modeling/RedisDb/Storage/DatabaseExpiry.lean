import RedisDb.Storage.DatabaseInv

/-!
# Expired keys

A key whose deadline has passed may or may not have been removed yet, since it is removed by whatever comes across it
first: a method that looks for the expiry, the timer, or an eviction. `Purged` compares two states that differ in this
only, and `Database.Op` gathers the keyed operations.

`expired_invisible` says for which inputs an operation does not see the difference: those that look for the expiry
first never do, and the others only while the key they read has not expired.

What a caller can see of a key, whether its object is there and with what content and deadline, is `Database.live` of
it, which shows nothing of a key that has expired. Two states that are `Purged` show the same. For each method there
is a lemma `…_live` that says what it leaves to be seen, and the readers are told by what they see of the key
(`Fixed.get_eq`, …). So an operation that reads and writes by what can be seen is indistinct without an argument of
its own. The methods that read the key as it is get the condition `Op.Safe`. That it is needed is shown by the one
state `without` in which the expired key is gone: there the answers differ, or for `append` what is seen afterwards.
-/

namespace RedisDb

variable {S : Type}

/-! ### The operations -/

/-- The keyed operations of a database. -/
inductive Database.Op (S : Type) where
  | get (key : Bytes)
  | getObject (key : Bytes)
  | getObjectForWrite (key : Bytes)
  | contains (key : Bytes)
  | type (key : Bytes)
  | set (key value : Bytes)
  | setObject (key : Bytes) (obj : RedisObject S)
  | del (key : Bytes)
  | rename (oldKey newKey : Bytes)
  | incrby (key : Bytes) (increment : ℤ) (inRange : InRange 64 increment)
  | append (key value : Bytes)
  | setExpiry (key : Bytes) (milliseconds : ℤ)
  | setExpiryAt (key : Bytes) (timestampMs : ℤ)
  | pttl (key : Bytes)
  | persist (key : Bytes)
  | keys (pattern : Bytes)

/-- What an operation returns. -/
inductive Answer (S : Type) where
  | nothing
  | string (value : Option Bytes)
  | object (obj : Option (RedisObject S))
  | flag (b : Bool)
  | text (s : Bytes)
  | number (n : Option ℤ)
  | length (n : Option ℕ)
  | time (ms : ℤ)
  | names (keys : List Bytes)

/-- Two answers tell a caller the same. The order of a list of keys is not part of it. -/
def Answer.Same : Answer S → Answer S → Prop
  | .names keys, .names keys' => keys.Perm keys'
  | a, a' => a = a'

/-- An answer tells the same as itself. -/
theorem Answer.Same.refl (a : Answer S) : a.Same a := by
  cases a <;> first | rfl | exact List.Perm.refl _

section Run

variable [Platform]

/-- Call the operation. -/
def Database.Op.run : Database.Op S → DbState S → Answer S × DbState S
  | .get key, s => (s.get key).map .string id
  | .getObject key, s => (s.getObject key).map .object id
  | .getObjectForWrite key, s => (s.getObjectForWrite key).map .object id
  | .contains key, s => (s.contains key).map .flag id
  | .type key, s => (s.type key).map .text id
  | .set key value, s => (.nothing, s.set key value)
  | .setObject key obj, s => (.nothing, s.setObject key obj)
  | .del key, s => (s.del key).map .flag id
  | .rename oldKey newKey, s => (s.rename oldKey newKey).map .flag id
  | .incrby key increment _, s => (s.incrby key increment).map .number id
  | .append key value, s => (s.append key value).map .length id
  | .setExpiry key milliseconds, s => (s.setExpiry key milliseconds).map .flag id
  | .setExpiryAt key timestampMs, s => (s.setExpiryAt key timestampMs).map .flag id
  | .pttl key, s => (s.pttl key).map .time id
  | .persist key, s => (s.persist key).map .flag id
  | .keys pattern, s => (s.keys pattern).map .names id

end Run

/-! ### Removing expired keys -/

/-- `t` is `s` with some of the expired keys removed, read by the same clocks. What else removing a
key changes (the account of the memory, the counters, the clients flagged) is left open. -/
structure Purged (now : ℤ) (s t : DbState S) : Prop where
  fixed : t.Fixed now
  lruClock : t.memory.lruClock = s.memory.lruClock
  exists_removed : ∃ removed : Bytes → Bool,
    (∀ key, removed key = true → s.db.Expired now key) ∧
    (∀ key, t.db.data.lookup key = if removed key then none else s.db.data.lookup key) ∧
    ∀ key, t.db.expires.lookup key = if removed key then none else s.db.expires.lookup key

/-- What a caller can see of a key. -/
def Database.visible (db : Database S) (now : ℤ) (key : Bytes) : Option (RedisObject S) :=
  if db.Expired now key then none else db.data.lookup key

namespace Purged

variable {now : ℤ} {s t : DbState S}

/-- The keys that have not expired are untouched. -/
theorem lookup_eq (h : Purged now s t) {key : Bytes} (hlive : ¬ s.db.Expired now key) :
    t.db.data.lookup key = s.db.data.lookup key ∧
      t.db.expires.lookup key = s.db.expires.lookup key := by
  obtain ⟨removed, hexpired, hdata, hexpires⟩ := h.exists_removed
  have hkept : ¬ removed key = true := fun hr => hlive (hexpired key hr)
  rw [hdata, hexpires, if_neg hkept, if_neg hkept]
  exact ⟨rfl, rfl⟩

/-- A key that is not in `data_` is not there after the removal either. -/
theorem data_eq_of_absent (h : Purged now s t) {key : Bytes} (habsent : s.db.data.lookup key = none) :
    t.db.data.lookup key = none := by
  obtain ⟨removed, -, hdata, -⟩ := h.exists_removed
  rw [hdata, habsent, ite_self]

/-- Unless the key lingers, its object is the same. -/
theorem data_eq (h : Purged now s t) {key : Bytes}
    (hsafe : ¬ (s.db.Expired now key ∧ (s.db.data.lookup key).isSome)) :
    t.db.data.lookup key = s.db.data.lookup key := by
  by_cases hlive : s.db.Expired now key
  · have habsent : s.db.data.lookup key = none := by
      rw [← Option.not_isSome_iff_eq_none]
      exact fun hsome => hsafe ⟨hlive, hsome⟩
    rw [habsent, h.data_eq_of_absent habsent]
  · exact (h.lookup_eq hlive).1

/-- What has expired afterwards had expired before. -/
theorem expired_of (h : Purged now s t) {key : Bytes} (hexp : t.db.Expired now key) :
    s.db.Expired now key := by
  by_contra hlive
  obtain ⟨deadline, hd, hle⟩ := hexp
  rw [(h.lookup_eq hlive).2] at hd
  exact hlive ⟨deadline, hd, hle⟩

/-- What can be seen of a key is the same. -/
theorem visible_eq (h : Purged now s t) (key : Bytes) :
    t.db.visible now key = s.db.visible now key := by
  unfold Database.visible
  by_cases hs : s.db.Expired now key
  · rw [if_pos hs]
    split
    · rfl
    · next ht =>
      -- the deadline is gone, so the key was removed
      obtain ⟨removed, -, hdata, hexpires⟩ := h.exists_removed
      have hremoved : removed key = true := by
        by_contra hkept
        obtain ⟨deadline, hd, hle⟩ := hs
        exact ht ⟨deadline, by rw [hexpires, if_neg hkept, hd], hle⟩
      rw [hdata, if_pos hremoved]
  · have ht : ¬ t.db.Expired now key := fun ht => hs (h.expired_of ht)
    rw [if_neg hs, if_neg ht, (h.lookup_eq hs).1]

variable [Platform] [Inhabited S]

/-- So is its content with its deadline. -/
theorem live_eq (h : Purged now s t) (key : Bytes) : t.db.live now key = s.db.live now key := by
  have hvisible := h.visible_eq key
  unfold Database.live
  unfold Database.visible at hvisible
  by_cases hs : s.db.Expired now key
  · rw [if_pos hs] at hvisible ⊢
    split
    · rfl
    · next ht =>
      rw [if_neg ht] at hvisible
      rw [Database.dataset, hvisible, Option.map_none]
  · have ht : ¬ t.db.Expired now key := fun ht => hs (h.expired_of ht)
    obtain ⟨hdata, hexpires⟩ := h.lookup_eq hs
    rw [if_neg hs, if_neg ht, Database.dataset, Database.dataset, hdata, hexpires]

end Purged

/-! ### What the methods leave to be seen -/

section Live

variable [Platform] [Inhabited S] {s : DbState S} {now : ℤ} {key : Bytes}

/-- Two databases that agree at a key show the same there. -/
theorem Database.live_congr {db db' : Database S} {k : Bytes}
    (hdata : db'.data.lookup k = db.data.lookup k)
    (hexpires : db'.expires.lookup k = db.expires.lookup k) : db'.live now k = db.live now k := by
  have hexpired : db'.Expired now k ↔ db.Expired now k := by rw [Expired, Expired, hexpires]
  unfold live dataset
  rw [hdata, hexpires]
  by_cases h : db.Expired now k
  · rw [if_pos h, if_pos (hexpired.mpr h)]
  · rw [if_neg h, if_neg (hexpired.not.mpr h)]

/-- Nothing is seen of a key that is not there. -/
theorem Database.live_eq_none {db : Database S} {k : Bytes} (hdata : db.data.lookup k = none) :
    db.live now k = none := by
  rw [Database.live, Database.dataset, hdata, Option.map_none, ite_self]

namespace DbState

omit [Inhabited S] in
/-- An expired key is removed. -/
theorem Fixed.checkAndExpire_expired (h : s.Fixed now) (hexp : s.db.Expired now key) :
    (s.checkAndExpire key).1 = true ∧
      (∀ k, (s.checkAndExpire key).2.db.data.lookup k
        = if k = key then none else s.db.data.lookup k) ∧
      ∀ k, (s.checkAndExpire key).2.db.expires.lookup k
        = if k = key then none else s.db.expires.lookup k := by
  simp only [DbState.checkAndExpire, h.isExpired, hexp, decide_true, if_true, markDirty_data,
    markDirty_expires, eraseExpires_data, eraseExpires_expires, true_and]
  -- a deadline may be there without a key, and then only the deadline goes
  cases hobj : s.db.data.lookup key with
  | none =>
    refine ⟨fun k => ?_, fun k => UnorderedMap.lookup_erase_eq_ite ..⟩
    by_cases hk : k = key
    · rw [if_pos hk, hk]
      exact hobj
    · rw [if_neg hk]
  | some obj =>
    simp only [touchWatchedKey_db, eraseData_data, eraseData_expires, release_db]
    exact ⟨fun k => UnorderedMap.lookup_erase_eq_ite .., fun k => UnorderedMap.lookup_erase_eq_ite ..⟩

/-- Removing an expired key leaves the same to be seen. -/
theorem Fixed.checkAndExpire_live (h : s.Fixed now) (k : Bytes) :
    (s.checkAndExpire key).2.db.live now k = s.db.live now k := by
  by_cases hexp : s.db.Expired now key
  · obtain ⟨-, hdata, hexpires⟩ := h.checkAndExpire_expired hexp
    by_cases hk : k = key
    · rw [hk, Database.live_eq_none (by rw [hdata, if_pos rfl]), Database.live, if_pos hexp]
    · exact Database.live_congr (by rw [hdata, if_neg hk]) (by rw [hexpires, if_neg hk])
  · rw [h.checkAndExpire hexp]

omit [Inhabited S] in
/-- What `getObject` returns is what can be seen of the key, with the LRU clock set. -/
theorem Fixed.getObject_visible (key : Bytes) (h : s.Fixed now) :
    (s.getObject key).1
      = (s.db.visible now key).map fun obj => obj.updateLruClock s.memory.lruClock := by
  unfold Database.visible
  by_cases hexp : s.db.Expired now key
  · have hpair : s.checkAndExpire key = (true, (s.checkAndExpire key).2) :=
      Prod.ext (h.checkAndExpire_expired hexp).1 rfl
    rw [if_pos hexp, Option.map_none, DbState.getObject, hpair]
    rfl
  · rw [if_neg hexp]
    cases hobj : s.db.data.lookup key with
    | none => simp [DbState.getObject, h.checkAndExpire hexp, hobj]
    | some obj => rw [h.getObject hexp hobj]; rfl

/-- To set the LRU clock of an object is not to change its content. -/
theorem Fixed.getObject_live (h : s.Fixed now) (k : Bytes) :
    (s.getObject key).2.db.live now k = s.db.live now k := by
  by_cases hexp : s.db.Expired now key
  · have hpair : s.checkAndExpire key = (true, (s.checkAndExpire key).2) :=
      Prod.ext (h.checkAndExpire_expired hexp).1 rfl
    rw [DbState.getObject, hpair]
    exact h.checkAndExpire_live k
  · -- a live key: only the clock of the object is set, which is not part of its content
    cases hobj : s.db.data.lookup key with
    | none =>
      simp only [DbState.getObject, h.checkAndExpire hexp, hobj, Bool.false_eq_true, if_false]
      exact Database.live_congr rfl rfl
    | some obj =>
      rw [h.getObject hexp hobj]
      by_cases hk : k = key
      · rw [hk]
        simp only [Database.live, Database.dataset, AList.lookup_insert, hobj, Option.map_some]
        rfl
      · exact Database.live_congr (AList.lookup_insert_ne hk) rfl

/-- What is stored is seen, without a deadline. -/
theorem store_live (obj : RedisObject S) (k : Bytes) :
    (s.store key obj).db.live now k
      = if k = key then some (obj.value.content, none) else s.db.live now k := by
  by_cases hk : k = key
  · have hexpires : (s.store key obj).db.expires.lookup k = none := by
      rw [store_expires, UnorderedMap.lookup_erase_eq_ite, if_pos hk]
    have hlive : ¬ (s.store key obj).db.Expired now k := by
      rintro ⟨d, hd, -⟩
      rw [hexpires] at hd
      cases hd
    rw [Database.live, if_neg hlive, store_dataset, if_pos hk, if_pos hk]
  · obtain ⟨lruClock, hdata⟩ := s.store_data key obj
    rw [if_neg hk]
    exact Database.live_congr (by rw [hdata, AList.lookup_insert_ne hk])
      (by rw [store_expires, AList.lookup_erase_ne hk])

omit [Inhabited S] in
/-- Deleting a key that is not there takes away its deadline at most. -/
theorem del_absent (hobj : s.db.data.lookup key = none) :
    s.del key = (false, s.eraseExpires key) := by simp [del, hobj]

omit [Inhabited S] in
/-- Deleting a key that is there. -/
theorem del_present {obj : RedisObject S} (hobj : s.db.data.lookup key = some obj) :
    s.del key = (true, ((((s.eraseExpires key).release key obj).eraseData key).touchWatchedKey
      key).markDirty) := by simp [del, hobj]

/-- Nothing is seen of a deleted key. -/
theorem del_live (k : Bytes) :
    (s.del key).2.db.live now k = if k = key then none else s.db.live now k := by
  by_cases hk : k = key
  · rw [if_pos hk]
    -- there is nothing at the key any more
    refine Database.live_eq_none ?_
    cases hobj : s.db.data.lookup key with
    | none => rw [del_absent hobj, hk]; exact hobj
    | some obj =>
      rw [del_present hobj, markDirty_data, touchWatchedKey_db, eraseData_data, hk]
      exact AList.lookup_erase ..
  · rw [if_neg hk]
    cases hobj : s.db.data.lookup key with
    | none =>
      rw [del_absent hobj]
      exact Database.live_congr rfl (AList.lookup_erase_ne hk)
    | some obj =>
      rw [del_present hobj]
      refine Database.live_congr ?_ ?_
      · rw [markDirty_data, touchWatchedKey_db]
        exact AList.lookup_erase_ne hk
      · rw [markDirty_expires, touchWatchedKey_db]
        exact AList.lookup_erase_ne hk

/-- A deadline that has passed hides the key. -/
theorem setDeadline_live {obj : RedisObject S} (hobj : s.db.data.lookup key = some obj)
    (deadline : ℤ) (k : Bytes) :
    (s.setDeadline key deadline).db.live now k
      = if k = key then if deadline ≤ now then none else some (obj.value.content, some deadline)
        else s.db.live now k := by
  -- the key is there, so what can be seen is decided by the new deadline
  have hexpires : ∀ k, (s.setDeadline key deadline).db.expires.lookup k
      = if k = key then some deadline else s.db.expires.lookup k := fun k =>
    UnorderedMap.lookup_insert_eq_ite ..
  by_cases hk : k = key
  · have hexp : (s.setDeadline key deadline).db.Expired now k ↔ deadline ≤ now := by
      simp only [Database.Expired, hexpires, if_pos hk, Option.some.injEq, exists_eq_left']
    rw [Database.live, if_pos hk, setDeadline_dataset, if_pos hk, hk, Database.dataset, hobj]
    rw [hk] at hexp
    by_cases hd : deadline ≤ now
    · rw [if_pos hd, if_pos (hexp.mpr hd)]
    · rw [if_neg hd, if_neg (hexp.not.mpr hd)]
      rfl
  · rw [if_neg hk]
    exact Database.live_congr rfl (by rw [hexpires, if_neg hk])

/-- Without its deadline a key is seen again, also an expired one. -/
theorem eraseExpires_live {obj : RedisObject S} (hobj : s.db.data.lookup key = some obj)
    (k : Bytes) :
    (s.eraseExpires key).db.live now k
      = if k = key then some (obj.value.content, none) else s.db.live now k := by
  have hexpires : ∀ k, (s.eraseExpires key).db.expires.lookup k
      = if k = key then none else s.db.expires.lookup k := fun k =>
    UnorderedMap.lookup_erase_eq_ite ..
  by_cases hk : k = key
  · have hlive : ¬ (s.eraseExpires key).db.Expired now k := by
      rintro ⟨d, hd, -⟩
      rw [hexpires, if_pos hk] at hd
      cases hd
    rw [if_pos hk, Database.live, if_neg hlive, Database.dataset, hexpires, if_pos hk, hk,
      eraseExpires_data, hobj, Option.map_some]
  · rw [if_neg hk]
    exact Database.live_congr rfl (by rw [hexpires, if_neg hk])

/-- A change in place keeps the deadline. -/
theorem putObject_live (obj : RedisObject S) (k : Bytes) (hlive : ¬ s.db.Expired now key) :
    (s.putObject key obj).db.live now k
      = if k = key then some (obj.value.content, s.db.expires.lookup key)
        else s.db.live now k := by
  by_cases hk : k = key
  · rw [if_pos hk, hk, Database.live, if_neg (by exact hlive), Database.dataset, putObject,
      AList.lookup_insert, Option.map_some]
  · rw [if_neg hk]
    exact Database.live_congr (AList.lookup_insert_ne hk) rfl

/-! What the readers answer, from what can be seen of the key. -/

omit [Inhabited S] in
/-- `get` reads what can be seen. -/
theorem Fixed.get_eq (h : s.Fixed now) :
    s.get key = ((s.db.visible now key).bind fun obj =>
      match obj.value with
      | .string value => some value
      | _ => none, (s.getObject key).2) := by
  have hobj := h.getObject_visible key
  unfold DbState.get
  rcases hpair : s.getObject key with ⟨obj, s'⟩
  rw [hpair] at hobj
  subst hobj
  cases hv : s.db.visible now key with
  | none => rfl
  | some o =>
    obtain ⟨value, lruClock⟩ := o
    cases value <;> rfl

omit [Inhabited S] in
/-- So does `contains`. -/
theorem Fixed.contains_eq (h : s.Fixed now) :
    s.contains key = ((s.db.visible now key).isSome, (s.checkAndExpire key).2) := by
  unfold DbState.contains Database.visible
  by_cases hexp : s.db.Expired now key
  · have hpair : s.checkAndExpire key = (true, (s.checkAndExpire key).2) :=
      Prod.ext (h.checkAndExpire_expired hexp).1 rfl
    rw [hpair, if_pos hexp]
    rfl
  · rw [h.checkAndExpire hexp, if_neg hexp]
    rfl

omit [Inhabited S] in
/-- So does `type`. -/
theorem Fixed.type_eq (h : s.Fixed now) :
    s.type key = (match s.db.visible now key with
      | none => str "none"
      | some obj => obj.typeString, (s.checkAndExpire key).2) := by
  unfold DbState.type Database.visible
  by_cases hexp : s.db.Expired now key
  · have hpair : s.checkAndExpire key = (true, (s.checkAndExpire key).2) :=
      Prod.ext (h.checkAndExpire_expired hexp).1 rfl
    rw [hpair, if_pos hexp]
    rfl
  · rw [h.checkAndExpire hexp, if_neg hexp]
    cases hobj : s.db.data.lookup key <;> simp [hobj]

end DbState

end Live

/-! ### Which operations cannot tell -/

/-- An expired key that has not been removed. -/
def Database.Lingers (db : Database S) (now : ℤ) (key : Bytes) : Prop :=
  db.Expired now key ∧ (db.data.lookup key).isSome

/-- The number that `incrby` finds at a key: 0 where there is nothing, and the whole text of a
string otherwise. -/
def Database.counter (db : Database S) (key : Bytes) : Option ℤ :=
  match db.data.lookup key with
  | none => some 0
  | some { value := .string strValue, .. } =>
    match fromChars strValue with
    | .ok (current, []) => some current
    | _ => none
  | some _ => none

/-- **The condition.** The key that is read has not expired, or has been removed. An expired counter
may stay if it is 0, and an expired deadline if it is not so far back that its distance from the
clock overflows. -/
def Database.Op.Safe (db : Database S) (now : ℤ) : Database.Op S → Prop
  | .del key | .rename key _ | .append key _ | .setExpiry key _ | .setExpiryAt key _ =>
    ¬ db.Lingers now key
  | .incrby key _ _ => db.Lingers now key → db.counter key = some 0
  | .pttl key => db.Lingers now key →
    ∀ deadline, db.expires.lookup key = some deadline → asInt64 (deadline - now) ≤ 0
  | .persist key => ¬ db.Expired now key
  | _ => True

section Invisible

variable [Platform] [Inhabited S] {s t : DbState S} {now : ℤ}

/-- The operation does not tell the two states apart. -/
structure Indistinct (now : ℤ) (op : Database.Op S) (s t : DbState S) : Prop where
  answer : (op.run s).1.Same (op.run t).1
  live : ∀ key, (op.run s).2.db.live now key = (op.run t).2.db.live now key

/-- The answer is the same. -/
theorem Indistinct.of_eq {op : Database.Op S} (hanswer : (op.run s).1 = (op.run t).1)
    (hlive : ∀ key, (op.run s).2.db.live now key = (op.run t).2.db.live now key) :
    Indistinct now op s t := ⟨hanswer ▸ Answer.Same.refl _, hlive⟩

/-- Readers that look for the expiry first. -/
theorem Purged.indistinct_get (h : Purged now s t) (hs : s.Fixed now) (key : Bytes) :
    Indistinct now (.get key) s t := by
  refine .of_eq ?_ fun k => ?_
  · simp only [Database.Op.run, hs.get_eq, h.fixed.get_eq, h.visible_eq]
    rfl
  · simp only [Database.Op.run, hs.get_eq, h.fixed.get_eq]
    exact (hs.getObject_live k).trans ((h.live_eq k).symm.trans (h.fixed.getObject_live k).symm)

/-- `getObject` looks for the expiry first. -/
theorem Purged.indistinct_getObject (h : Purged now s t) (hs : s.Fixed now) (key : Bytes) :
    Indistinct now (.getObject key) s t := by
  refine .of_eq ?_ fun k => ?_
  · have heq : (s.getObject key).1 = (t.getObject key).1 := by
      rw [hs.getObject_visible, h.fixed.getObject_visible, h.visible_eq, h.lruClock]
    exact congrArg Answer.object heq
  · exact (hs.getObject_live k).trans ((h.live_eq k).symm.trans (h.fixed.getObject_live k).symm)

/-- So does `contains`. -/
theorem Purged.indistinct_contains (h : Purged now s t) (hs : s.Fixed now) (key : Bytes) :
    Indistinct now (.contains key) s t := by
  refine .of_eq ?_ fun k => ?_
  · simp only [Database.Op.run, hs.contains_eq, h.fixed.contains_eq, h.visible_eq]
    rfl
  · simp only [Database.Op.run, hs.contains_eq, h.fixed.contains_eq]
    exact (hs.checkAndExpire_live k).trans
      ((h.live_eq k).symm.trans (h.fixed.checkAndExpire_live k).symm)

/-- So does `type`. -/
theorem Purged.indistinct_type (h : Purged now s t) (hs : s.Fixed now) (key : Bytes) :
    Indistinct now (.type key) s t := by
  refine .of_eq ?_ fun k => ?_
  · simp only [Database.Op.run, hs.type_eq, h.fixed.type_eq, h.visible_eq]
    rfl
  · simp only [Database.Op.run, hs.type_eq, h.fixed.type_eq]
    exact (hs.checkAndExpire_live k).trans
      ((h.live_eq k).symm.trans (h.fixed.checkAndExpire_live k).symm)

/-- What is seen after the same is stored in both states. -/
theorem Purged.store_live (h : Purged now s t) (key : Bytes) (obj : RedisObject S) (k : Bytes) :
    (s.store key obj).db.live now k = (t.store key obj).db.live now k := by
  rw [DbState.store_live, DbState.store_live, h.live_eq]

/-! The operations that read the key as it is. -/

/-- `del` answers whether there is an object, expired or not. -/
theorem Purged.indistinct_del (h : Purged now s t) {key : Bytes} (hsafe : ¬ s.db.Lingers now key) :
    Indistinct now (.del key) s t := by
  refine .of_eq ?_ fun k => ?_
  · have hdata := h.data_eq hsafe
    have heq : (s.del key).1 = (t.del key).1 := by
      cases hobj : s.db.data.lookup key with
      | none => rw [DbState.del_absent hobj, DbState.del_absent (hdata.trans hobj)]
      | some obj => rw [DbState.del_present hobj, DbState.del_present (hdata.trans hobj)]
    exact congrArg Answer.flag heq
  · show (s.del key).2.db.live now k = (t.del key).2.db.live now k
    rw [DbState.del_live, DbState.del_live, h.live_eq]

omit [Inhabited S] in
/-- `rename` succeeds where there is an object, expired or not. -/
theorem rename_present {oldKey : Bytes} {obj : RedisObject S}
    (hobj : s.db.data.lookup oldKey = some obj) (newKey : Bytes) :
    (s.rename oldKey newKey).1 = true := by simp only [DbState.rename, hobj]

/-- What `rename` leaves to be seen: the object under the new key, without a deadline. -/
theorem rename_live {oldKey : Bytes} {obj : RedisObject S}
    (hobj : s.db.data.lookup oldKey = some obj) (newKey k : Bytes) :
    (s.rename oldKey newKey).2.db.live now k
      = if k = newKey then some (obj.value.content, none)
        else if k = oldKey then none else s.db.live now k := by
  simp only [DbState.rename, hobj]
  rw [DbState.setObject, DbState.store_live]
  by_cases hnew : k = newKey
  · rw [if_pos hnew, if_pos hnew]
  · rw [if_neg hnew, if_neg hnew, DbState.touchWatchedKey_db]
    -- a deadline moved to the new key is not at `k`
    obtain ⟨s', hs'⟩ : ∃ s', s' = ((s.release oldKey obj).eraseData oldKey).eraseExpires oldKey :=
      ⟨_, rfl⟩
    have hmoved : ∀ expiry : ℤ, (if 0 ≤ expiry then ({ s' with db := { s'.db with
        expires := s'.db.expires.insert newKey expiry } } : DbState S) else s').db.live now k
          = s'.db.live now k := fun expiry => by
      split
      · exact Database.live_congr rfl (AList.lookup_insert_ne hnew)
      · rfl
    rw [← hs', hmoved, hs']
    by_cases hold : k = oldKey
    · rw [if_pos hold, hold]
      exact Database.live_eq_none (AList.lookup_erase ..)
    · rw [if_neg hold]
      exact Database.live_congr (AList.lookup_erase_ne hold) (AList.lookup_erase_ne hold)

/-- `rename` moves an object that has expired like any other. -/
theorem Purged.indistinct_rename (h : Purged now s t) {oldKey : Bytes}
    (hsafe : ¬ s.db.Lingers now oldKey) (newKey : Bytes) :
    Indistinct now (.rename oldKey newKey) s t := by
  -- the old key is no expired key that is still there, so the purge has not taken it
  have hdata := h.data_eq hsafe
  cases hobj : s.db.data.lookup oldKey with
  | none =>
    have hs : s.rename oldKey newKey = (false, s) := by simp only [DbState.rename, hobj]
    have ht : t.rename oldKey newKey = (false, t) := by
      simp only [DbState.rename, hdata.trans hobj]
    refine .of_eq ?_ fun k => ?_
    · simp only [Database.Op.run, hs, ht]
      rfl
    · simp only [Database.Op.run, hs, ht]
      exact (h.live_eq k).symm
  | some obj =>
    refine .of_eq ?_ fun k => ?_
    · have hflag := (rename_present hobj newKey).trans
        (rename_present (hdata.trans hobj) newKey).symm
      exact congrArg Answer.flag hflag
    · show (s.rename oldKey newKey).2.db.live now k = (t.rename oldKey newKey).2.db.live now k
      rw [rename_live hobj, rename_live (hdata.trans hobj), h.live_eq]

omit [Inhabited S] in
/-- `incrby` counts on from what it finds, expired or not. -/
theorem incrby_eq (s : DbState S) (key : Bytes) (increment : ℤ) :
    s.incrby key increment = match s.db.counter key with
      | none => (none, s)
      | some current =>
        if (0 < increment ∧ 2 ^ 63 - 1 - increment < current) ∨
            (increment < 0 ∧ current < -2 ^ 63 - increment) then (none, s)
        else (some (current + increment), s.set key (toText (current + increment))) := rfl

/-- `incrby` cannot tell a 0 from a counter that is not there. -/
theorem Purged.indistinct_incrby (h : Purged now s t) {key : Bytes}
    (hsafe : s.db.Lingers now key → s.db.counter key = some 0) {increment : ℤ}
    (hrange : InRange 64 increment) : Indistinct now (.incrby key increment hrange) s t := by
  have hcounter : t.db.counter key = s.db.counter key := by
    by_cases hlingers : s.db.Lingers now key
    · -- it was removed, or it is still there; and 0 is where an absent counter starts
      obtain ⟨removed, -, hdata, -⟩ := h.exists_removed
      by_cases hremoved : removed key = true
      · rw [hsafe hlingers, Database.counter, hdata, if_pos hremoved]
      · rw [Database.counter, Database.counter, hdata, if_neg hremoved]
    · rw [Database.counter, Database.counter, h.data_eq hlingers]
  have heq : (s.incrby key increment).1 = (t.incrby key increment).1 ∧ ∀ k,
      (s.incrby key increment).2.db.live now k = (t.incrby key increment).2.db.live now k := by
    rw [incrby_eq, incrby_eq, hcounter]
    cases s.db.counter key with
    | none => exact ⟨rfl, fun k => (h.live_eq k).symm⟩
    | some current =>
      simp only
      split
      · exact ⟨rfl, fun k => (h.live_eq k).symm⟩
      · exact ⟨rfl, fun k => h.store_live key _ k⟩
  exact .of_eq (congrArg Answer.number heq.1) heq.2

/-- `append` appends to a string that has expired, which then stays hidden. -/
theorem Purged.indistinct_append (h : Purged now s t) {key : Bytes}
    (hsafe : ¬ s.db.Lingers now key) (value : Bytes) : Indistinct now (.append key value) s t := by
  have hdata := h.data_eq hsafe
  have heq : (s.append key value).1 = (t.append key value).1 ∧ ∀ k,
      (s.append key value).2.db.live now k = (t.append key value).2.db.live now k := by
    unfold DbState.append
    rw [hdata]
    cases hobj : s.db.data.lookup key with
    | none => exact ⟨rfl, fun k => h.store_live key _ k⟩
    | some obj =>
      obtain ⟨v, lruClock⟩ := obj
      cases v with
      | string old =>
        refine ⟨rfl, fun k => ?_⟩
        -- a string is there, and so it is live on both sides
        have hlive : ¬ s.db.Expired now key := fun hexp => hsafe ⟨hexp, by rw [hobj]; rfl⟩
        have hlive' : ¬ t.db.Expired now key := fun hexp => hlive (h.expired_of hexp)
        refine (DbState.putObject_live _ k (show ¬ s.db.Expired now key from hlive)).trans
          (Eq.trans ?_ (DbState.putObject_live _ k
            (show ¬ t.db.Expired now key from hlive')).symm)
        show (if k = key then some (Content.string (old ++ value), s.db.expires.lookup key)
          else s.db.live now k) = if k = key
            then some (Content.string (old ++ value), t.db.expires.lookup key) else t.db.live now k
        rw [h.live_eq, (h.lookup_eq hlive).2]
      | _ => exact ⟨rfl, fun k => (h.live_eq k).symm⟩
  exact .of_eq (congrArg Answer.length heq.1) heq.2

/-- A deadline for a key that is there. -/
theorem Purged.setExpiryAt_eq (h : Purged now s t) {key : Bytes} (hsafe : ¬ s.db.Lingers now key)
    (deadline : ℤ) : (s.setExpiryAt key deadline).1 = (t.setExpiryAt key deadline).1 ∧
      ∀ k, (s.setExpiryAt key deadline).2.db.live now k
        = (t.setExpiryAt key deadline).2.db.live now k := by
  have hdata := h.data_eq hsafe
  unfold DbState.setExpiryAt
  rw [hdata]
  cases hobj : s.db.data.lookup key with
  | none => exact ⟨rfl, fun k => (h.live_eq k).symm⟩
  | some obj =>
    refine ⟨rfl, fun k => ?_⟩
    show (s.setDeadline key deadline).db.live now k = (t.setDeadline key deadline).db.live now k
    rw [DbState.setDeadline_live hobj, DbState.setDeadline_live (hdata.trans hobj), h.live_eq]

/-- A deadline is set for an object that is there, expired or not. -/
theorem Purged.indistinct_setExpiryAt (h : Purged now s t) {key : Bytes}
    (hsafe : ¬ s.db.Lingers now key) (timestampMs : ℤ) :
    Indistinct now (.setExpiryAt key timestampMs) s t := by
  obtain ⟨hflag, hlive⟩ := h.setExpiryAt_eq hsafe timestampMs
  exact .of_eq (congrArg Answer.flag hflag) hlive

omit [Platform] [Inhabited S] in
/-- Under a fixed clock a distance from now is a deadline. -/
theorem setExpiry_eq (hs : s.Fixed now) (key : Bytes) (milliseconds : ℤ) :
    s.setExpiry key milliseconds = s.setExpiryAt key (asInt64 (now + milliseconds)) := by
  unfold DbState.setExpiry DbState.setExpiryAt
  cases s.db.data.lookup key <;> simp [hs.now_eq]

/-- The same with a distance from now. -/
theorem Purged.indistinct_setExpiry (h : Purged now s t) (hs : s.Fixed now) {key : Bytes}
    (hsafe : ¬ s.db.Lingers now key) (milliseconds : ℤ) :
    Indistinct now (.setExpiry key milliseconds) s t := by
  obtain ⟨hflag, hlive⟩ := h.setExpiryAt_eq hsafe (asInt64 (now + milliseconds))
  rw [← setExpiry_eq hs, ← setExpiry_eq h.fixed] at hflag
  refine .of_eq (congrArg Answer.flag hflag) fun k => ?_
  have hk := hlive k
  rw [← setExpiry_eq hs, ← setExpiry_eq h.fixed] at hk
  exact hk

/-- `pttl` takes a time left that is not positive for a key that has expired, and this may be the remainder of an
overflow. -/
theorem Purged.indistinct_pttl (h : Purged now s t) (hs : s.Fixed now) {key : Bytes}
    (hsafe : s.db.Lingers now key → ∀ deadline, s.db.expires.lookup key = some deadline →
      asInt64 (deadline - now) ≤ 0) : Indistinct now (.pttl key) s t := by
  have habsent : ∀ u : DbState S, u.db.data.lookup key = none → u.pttl key = (-2, u) :=
    fun u hu => by simp [DbState.pttl, hu]
  have hanswer : (s.pttl key).1 = (t.pttl key).1 ∧ (s.pttl key).2 = s ∧ (t.pttl key).2 = t := by
    cases hobj : s.db.data.lookup key with
    | none =>
      rw [habsent s hobj, habsent t (h.data_eq_of_absent hobj)]
      exact ⟨rfl, rfl, rfl⟩
    | some obj =>
      rw [hs.pttl hobj]
      obtain ⟨removed, hexpired, hdata, hexpires⟩ := h.exists_removed
      by_cases hremoved : removed key = true
      · -- the deadline has passed, which is answered like an absent key
        obtain ⟨deadline, hd, hle⟩ := hexpired key hremoved
        have hback := hsafe ⟨hexpired key hremoved, by rw [hobj]; rfl⟩ deadline hd
        rw [habsent t (by rw [hdata, if_pos hremoved]), hd]
        simp only [if_pos hback, and_self]
      · rw [h.fixed.pttl (by rw [hdata, if_neg hremoved, hobj]), hexpires, if_neg hremoved]
        exact ⟨rfl, rfl, rfl⟩
  refine .of_eq (congrArg Answer.time hanswer.1) fun k => ?_
  show (s.pttl key).2.db.live now k = (t.pttl key).2.db.live now k
  rw [hanswer.2.1, hanswer.2.2, h.live_eq]

/-- `persist` answers whether there is a deadline, and an expired key without its deadline is seen again. -/
theorem Purged.indistinct_persist (h : Purged now s t) {key : Bytes}
    (hsafe : ¬ s.db.Expired now key) : Indistinct now (.persist key) s t := by
  obtain ⟨hdata, hexpires⟩ := h.lookup_eq hsafe
  refine .of_eq (congrArg (fun d => Answer.flag (Option.isSome d)) hexpires.symm) fun k => ?_
  show (s.eraseExpires key).db.live now k = (t.eraseExpires key).db.live now k
  cases hobj : s.db.data.lookup key with
  | none =>
    have hkeep : ∀ u : DbState S, u.db.data.lookup key = none →
        (u.eraseExpires key).db.live now k = u.db.live now k := fun u hu => by
      by_cases hk : k = key
      · rw [hk, Database.live_eq_none hu]
        exact Database.live_eq_none hu
      · exact Database.live_congr rfl (AList.lookup_erase_ne hk)
    rw [hkeep s hobj, hkeep t (hdata.trans hobj), h.live_eq]
  | some obj =>
    rw [DbState.eraseExpires_live hobj, DbState.eraseExpires_live (hdata.trans hobj), h.live_eq]

omit [Platform] [Inhabited S] in
/-- The keys that can be seen and match. -/
theorem keys_eq (hs : s.Fixed now) (pattern : Bytes) : s.keys pattern
    = (s.db.data.keys.filter fun key => !decide (s.db.Expired now key) &&
        (decide (pattern = str "*") || Database.globMatch pattern key), s) := by
  have hloop : ∀ keys : List Bytes, DbState.keysLoop pattern keys s
      = (keys.filter fun key => !decide (s.db.Expired now key) &&
        (decide (pattern = str "*") || Database.globMatch pattern key), s) := fun keys => by
    induction keys with
    | nil => rfl
    | cons key rest ih =>
      rw [DbState.keysLoop, hs.isExpired, List.filter_cons]
      simp only [ih]
      split <;> rfl
  exact hloop _

/-- `keys` lists what can be seen. In what order it does so, and what else it removes, is not part of the answer. -/
theorem Purged.indistinct_keys (h : Purged now s t) (hs : s.Fixed now) (pattern : Bytes) :
    Indistinct now (.keys pattern) s t := by
  have hmem : ∀ key, (key ∈ s.db.data.keys ∧ ¬ s.db.Expired now key) ↔
      (key ∈ t.db.data.keys ∧ ¬ t.db.Expired now key) := fun key => by
    have hvisible := h.visible_eq key
    -- `keys` lists what can be seen
    have hseen : ∀ u : DbState S, (key ∈ u.db.data.keys ∧ ¬ u.db.Expired now key) ↔
        (u.db.visible now key).isSome := fun u => by
      rw [← AList.mem_keys, ← AList.lookup_isSome, Database.visible]
      by_cases hu : u.db.Expired now key
      · rw [if_pos hu]; simp [hu]
      · rw [if_neg hu]; simp [hu]
    rw [hseen, hseen, hvisible]
  refine ⟨?_, fun k => ?_⟩
  · simp only [Database.Op.run, keys_eq hs, keys_eq h.fixed]
    -- the order of the answer is that of the table, so the answers are compared as permutations
    refine (List.perm_ext_iff_of_nodup (s.db.data.nodupKeys.filter _)
      (t.db.data.nodupKeys.filter _)).mpr fun key => ?_
    have hkey := hmem key
    simp only [List.mem_filter, Bool.and_eq_true, Bool.not_eq_true', decide_eq_false_iff_not]
    constructor
    · rintro ⟨h1, h2, h3⟩
      exact ⟨(hkey.mp ⟨h1, h2⟩).1, (hkey.mp ⟨h1, h2⟩).2, h3⟩
    · rintro ⟨h1, h2, h3⟩
      exact ⟨(hkey.mpr ⟨h1, h2⟩).1, (hkey.mpr ⟨h1, h2⟩).2, h3⟩
  · simp only [Database.Op.run, keys_eq hs, keys_eq h.fixed]
    exact (h.live_eq k).symm

/-! ### The statement -/

/-- The state without one of its expired keys. -/
def DbState.without (s : DbState S) (key : Bytes) : DbState S :=
  { s with db := { s.db with data := s.db.data.erase key, expires := s.db.expires.erase key } }

omit [Platform] [Inhabited S] in
/-- The state without the key is one of those that may be found. -/
theorem purged_without (hs : s.Fixed now) {key : Bytes} (hexp : s.db.Expired now key) :
    Purged now s (s.without key) where
  fixed := hs
  lruClock := rfl
  exists_removed := by
    refine ⟨fun k => decide (k = key), fun k hk => ?_, fun k => ?_, fun k => ?_⟩
    · rw [of_decide_eq_true hk]
      exact hexp
    · simp only [DbState.without, UnorderedMap.lookup_erase_eq_ite, decide_eq_true_eq]
    · simp only [DbState.without, UnorderedMap.lookup_erase_eq_ite, decide_eq_true_eq]

omit [Platform] [Inhabited S] in
/-- Nothing is left of the key. -/
theorem without_lookup (s : DbState S) (key : Bytes) : (s.without key).db.data.lookup key = none ∧
    (s.without key).db.expires.lookup key = none :=
  ⟨AList.lookup_erase .., AList.lookup_erase ..⟩

omit [Inhabited S] in
/-- What the operations answer when the key is gone. -/
theorem answers_without (key : Bytes) :
    ((s.without key).del key).1 = false ∧
    (∀ newKey, ((s.without key).rename key newKey).1 = false) ∧
    (∀ increment, InRange 64 increment → ((s.without key).incrby key increment).1 = some increment) ∧
    (∀ value, ((s.without key).append key value).1 = some value.length) ∧
    (∀ deadline, ((s.without key).setExpiryAt key deadline).1 = false) ∧
    ((s.without key).pttl key).1 = -2 ∧ ((s.without key).persist key).1 = false := by
  obtain ⟨hdata, hexpires⟩ := without_lookup s key
  refine ⟨by rw [DbState.del_absent hdata], fun newKey => by simp only [DbState.rename, hdata],
    fun increment hrange => ?_, fun value => by simp only [DbState.append, hdata],
    fun deadline => by simp [DbState.setExpiryAt, hdata], by simp [DbState.pttl, hdata],
    by simp [DbState.persist, hexpires]⟩
  have hcounter : (s.without key).db.counter key = some 0 := by simp only [Database.counter, hdata]
  -- the counter is taken for 0, to which any increment can be added
  have hfits : ¬ ((0 < increment ∧ 2 ^ 63 - 1 - increment < 0) ∨
      (increment < 0 ∧ 0 < -2 ^ 63 - increment)) := by
    obtain ⟨hlow, hhigh⟩ := hrange
    norm_num at hlow hhigh ⊢
    omega
  rw [incrby_eq, hcounter]
  simp only [if_neg hfits, zero_add]

/-- An operation that tells no expired key from a removed one is safe: each case shows the two
answers, or what is left to be seen. -/
theorem safe_of_indistinct (hs : s.Fixed now) (op : Database.Op S)
    (h : ∀ key, s.db.Expired now key → Indistinct now op s (s.without key)) :
    op.Safe s.db now := by
  have hobj : ∀ {key : Bytes}, s.db.Lingers now key → ∃ obj, s.db.data.lookup key = some obj :=
    fun hlingers => Option.isSome_iff_exists.mp hlingers.2
  cases op with
  | del key =>
    -- a key that lingers is deleted with the answer that it was there
    intro hlingers
    obtain ⟨obj, hobj⟩ := hobj hlingers
    have heq := Answer.flag.inj (show Answer.flag (S := S) (s.del key).1 = .flag ((s.without key).del key).1 from
      (h key hlingers.1).answer)
    rw [DbState.del_present hobj, (answers_without key).1] at heq
    cases heq
  | rename oldKey newKey =>
    -- and renamed likewise
    intro hlingers
    obtain ⟨obj, hobj⟩ := hobj hlingers
    have heq := Answer.flag.inj (show Answer.flag (S := S) (s.rename oldKey newKey).1 = .flag ((s.without oldKey).rename oldKey newKey).1 from
      (h oldKey hlingers.1).answer)
    rw [rename_present hobj, (answers_without oldKey).2.1] at heq
    cases heq
  -- the sums agree only where the counter that lingers is 0
  | incrby key increment hrange =>
    intro hlingers
    have heq := Answer.number.inj (show Answer.number (S := S) (s.incrby key increment).1 = .number ((s.without key).incrby key increment).1 from
      (h key hlingers.1).answer)
    rw [(answers_without key).2.2.1 increment hrange, incrby_eq] at heq
    cases hcounter : s.db.counter key with
    | none => rw [hcounter] at heq; cases heq
    | some current =>
      rw [hcounter] at heq
      simp only at heq
      split at heq
      · cases heq
      · have hsum := Option.some.inj heq
        exact congrArg some (by simpa using hsum)
  | append key value =>
    intro hlingers
    obtain ⟨⟨v, lruClock⟩, hobj⟩ := hobj hlingers
    have heq := Answer.length.inj (show Answer.length (S := S) (s.append key value).1 = .length ((s.without key).append key value).1 from
      (h key hlingers.1).answer)
    rw [(answers_without key).2.2.2.1] at heq
    cases v with
    | string old =>
      -- the lengths can agree, but what is appended here stays expired
      have hlive : (s.append key value).2.db.live now key
        = ((s.without key).append key value).2.db.live now key := (h key hlingers.1).live key
      have hgone : ((s.without key).append key value).2
          = (s.without key).store key { value := .string value } := by
        simp only [DbState.append, (without_lookup s key).1]
        rfl
      have hstays : (s.append key value).2.db.Expired now key := by
        simp only [DbState.append, hobj]
        exact hlingers.1
      rw [hgone, DbState.store_live, if_pos rfl, Database.live, if_pos hstays] at hlive
      cases hlive
    | _ => simp [DbState.append, hobj] at heq
  | setExpiry key milliseconds =>
    -- a deadline is set on a key that lingers, and answered with success
    intro hlingers
    obtain ⟨obj, hobj⟩ := hobj hlingers
    have heq := Answer.flag.inj (show Answer.flag (S := S) (s.setExpiry key milliseconds).1 = .flag ((s.without key).setExpiry key milliseconds).1 from
      (h key hlingers.1).answer)
    rw [setExpiry_eq hs, setExpiry_eq (purged_without hs hlingers.1).fixed,
      (answers_without key).2.2.2.2.1] at heq
    simp [DbState.setExpiryAt, hobj] at heq
  | setExpiryAt key timestampMs =>
    intro hlingers
    obtain ⟨obj, hobj⟩ := hobj hlingers
    have heq := Answer.flag.inj (show Answer.flag (S := S) (s.setExpiryAt key timestampMs).1 = .flag ((s.without key).setExpiryAt key timestampMs).1 from
      (h key hlingers.1).answer)
    rw [(answers_without key).2.2.2.2.1] at heq
    simp [DbState.setExpiryAt, hobj] at heq
  -- without the key the answer is -2, so the time left must be one that `pttl` answers with -2
  | pttl key =>
    intro hlingers deadline hd
    obtain ⟨obj, hobj⟩ := hobj hlingers
    have heq := Answer.time.inj (show Answer.time (S := S) (s.pttl key).1 = .time ((s.without key).pttl key).1 from
      (h key hlingers.1).answer)
    rw [(answers_without key).2.2.2.2.2.1, hs.pttl hobj, hd] at heq
    simp only at heq
    split at heq
    · assumption
    · omega
  -- without the key there is no deadline to take away
  | persist key =>
    intro hexp
    obtain ⟨deadline, hd, hle⟩ := hexp
    have heq := Answer.flag.inj (show Answer.flag (S := S) (s.persist key).1 = .flag ((s.without key).persist key).1 from
      (h key ⟨deadline, hd, hle⟩).answer)
    rw [(answers_without key).2.2.2.2.2.2] at heq
    simp [DbState.persist, hd] at heq
  | _ => trivial

/-- **Expired keys are invisible** to an operation exactly when it is safe: no removal of expired keys changes its
answer, or what can be seen after it. That safety is needed is seen from the removal of the one key that decides it;
that it is enough is shown operation by operation. -/
theorem expired_invisible (hs : s.Fixed now) (op : Database.Op S) :
    (∀ t, Purged now s t → Indistinct now op s t) ↔ op.Safe s.db now := by
  constructor
  · intro h
    exact safe_of_indistinct hs op fun key hexp => h _ (purged_without hs hexp)
  · intro h t ht
    -- operation by operation: the first seven check the key or store at it, and are always safe
    cases op with
    | get key => exact ht.indistinct_get hs key
    | getObject key => exact ht.indistinct_getObject hs key
    | getObjectForWrite key =>
      obtain ⟨hanswer, hlive⟩ := ht.indistinct_getObject hs key
      exact ⟨hanswer, hlive⟩
    | contains key => exact ht.indistinct_contains hs key
    | type key => exact ht.indistinct_type hs key
    | set key value => exact .of_eq rfl (ht.store_live key _)
    | setObject key obj => exact .of_eq rfl (ht.store_live key obj)
    | del key => exact ht.indistinct_del h
    | rename oldKey newKey => exact ht.indistinct_rename h newKey
    | incrby key increment hrange => exact ht.indistinct_incrby h hrange
    | append key value => exact ht.indistinct_append h value
    | setExpiry key milliseconds => exact ht.indistinct_setExpiry hs h milliseconds
    | setExpiryAt key timestampMs => exact ht.indistinct_setExpiryAt h timestampMs
    | pttl key => exact ht.indistinct_pttl hs h
    | persist key => exact ht.indistinct_persist h
    | keys pattern => exact ht.indistinct_keys hs pattern

end Invisible

/-! ### A counter that outlives its deadline -/

section Sample

open Sample

/-- The number 5 with a deadline, read at the deadline. -/
def expiredCounter : DbState Score :=
  { idleEnv with
    clock := fun _ => 60000
    db := (DbState.setExpiryAt (str "k") 60000
      (DbState.set (str "k") (str "5") { idleEnv with db := {} })).2.db }

/-- The clocks of the sample show the deadline. -/
theorem expiredCounter_fixed : expiredCounter.Fixed 60000 := rfl

/-- `get` cannot tell whether the expired counter is still there. -/
theorem expired_invisible_counter :
    (∀ t, Purged 60000 expiredCounter t → Indistinct 60000 (.get (str "k")) expiredCounter t) ↔
      (Database.Op.get (str "k")).Safe expiredCounter.db 60000 :=
  expired_invisible expiredCounter_fixed (.get (str "k"))

/-- `incrby` counts on from the expired 5, and from 0 once the key has been removed. -/
theorem expired_counter_counts_on : ∃ s t : DbState Score, s.Fixed 60000 ∧ Purged 60000 s t ∧
    (s.incrby (str "k") 1).1 = some 6 ∧ (t.incrby (str "k") 1).1 = some 1 ∧
    ¬ Indistinct 60000 (.incrby (str "k") 1 (by decide)) s t := by
  have hexp : expiredCounter.db.Expired 60000 (str "k") := ⟨60000, rfl, le_rfl⟩
  have hs : (expiredCounter.incrby (str "k") 1).1 = some 6 := by decide
  have ht : ((expiredCounter.without (str "k")).incrby (str "k") 1).1 = some 1 := by decide
  refine ⟨expiredCounter, _, rfl, purged_without expiredCounter_fixed hexp, hs, ht, fun h => ?_⟩
  have hanswer : Answer.number (S := Score) (expiredCounter.incrby (str "k") 1).1
    = .number ((expiredCounter.without (str "k")).incrby (str "k") 1).1 := h.answer
  rw [hs, ht] at hanswer
  cases hanswer

end Sample

end RedisDb

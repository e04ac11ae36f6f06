import RedisDb.Storage.Keyspace
import RedisDb.Storage.WatchedKeys

/-!
# Two databases with the same data

A command that is run again, on another database and at another time, finds other objects in memory
than it found the first time. `Database.Same` says that this makes no difference: the two databases
have the same keys, with values of the same content and with the same deadlines.

`DbState.Same` adds what the readings of the two clocks have in common. `K` are the keys whose
deadline is looked at: both clocks tell the same of it. `T` asks for more: the two clocks read the
same time. Every method of `Database` that only looks at keys in `K` does the same to both sides.
-/

namespace RedisDb

variable {S : Type}

/-! ### Values -/

section Values

variable [Platform] [Inhabited S] [LinearOrder S]

/-- The two values say the same, each in a structure of its own. -/
inductive Value.Same : Value S → Value S → Prop where
  | string (str : Bytes) : Same (.string str) (.string str)
  | list {l l' : LinkedList} {xs : List Bytes} (h : l.Holds xs) (h' : l'.Holds xs) :
    Same (.list l) (.list l')
  | hash {t t' : HashTable Bytes Bytes} {m : Bytes → Option Bytes}
    (h : HashTable.Represents Platform.hash t m) (h' : HashTable.Represents Platform.hash t' m) :
    Same (.hash t) (.hash t')
  | set {t t' : HashSet} {m : Bytes → Option Unit}
    (h : HashTable.Represents Platform.hash t.table m)
    (h' : HashTable.Represents Platform.hash t'.table m) : Same (.set t) (.set t')
  | zset {z z' : SortedSet S} {m : Bytes → Option S} {row row' : List (SkipList.Tower S)}
    {s s' : Finset (S × Bytes)} (h : SortedSet.Represents Platform.hash z m row s)
    (h' : SortedSet.Represents Platform.hash z' m row' s') : Same (.zset z) (.zset z')

namespace Value.Same

variable {v v' v'' : Value S}

/-- The two values change places. -/
theorem symm (h : v.Same v') : v'.Same v := by
  cases h with
  | string str => exact .string str
  | list h h' => exact .list h' h
  | hash h h' => exact .hash h' h
  | set h h' => exact .set h' h
  | zset h h' => exact .zset h' h

/-- A structure stands for one content. -/
theorem trans (h : v.Same v') (h' : v'.Same v'') : v.Same v'' := by
  cases h with
  | string str => exact h'
  | list hl hl' =>
    cases h' with
    | list hm hm' =>
      -- the structure in the middle has one content, so the two outer ones have the same
      obtain rfl := hl'.toList.symm.trans hm.toList
      exact .list hl hm'
  | hash ht ht' =>
    cases h' with
    | hash hu hu' =>
      obtain rfl := funext fun k => (ht'.get_eq k).symm.trans (hu.get_eq k)
      exact .hash ht hu'
  | set ht ht' =>
    cases h' with
    | set hu hu' =>
      obtain rfl := funext fun k => (ht'.get_eq k).symm.trans (hu.get_eq k)
      exact .set ht hu'
  | zset hz hz' =>
    cases h' with
    | zset hw hw' =>
      obtain rfl := funext fun k => (hz'.dict.get_eq k).symm.trans (hw.dict.get_eq k)
      exact .zset hz hw'

/-- They have the same content. -/
theorem content_eq (h : v.Same v') : v.content = v'.content := by
  cases h with
  | string str => rfl
  | list h h' => exact congrArg Content.list (h.toList.trans h'.toList.symm)
  | hash h h' => exact congrArg Content.hash (funext fun k => (h.get_eq k).trans (h'.get_eq k).symm)
  | set h h' =>
    refine congrArg Content.set (funext fun k => ?_)
    rw [HashSet.contains, HashSet.contains, h.inv.contains_eq, h'.inv.contains_eq, h.get_eq, h'.get_eq]
  | zset h h' =>
    exact congrArg Content.zset (funext fun k => (h.dict.get_eq k).trans (h'.dict.get_eq k).symm)

/-- A value that is well formed says the same as itself. -/
theorem refl (h : v.WF) : v.Same v := by
  have hmaps {V : Type} [Inhabited V] {t : HashTable Bytes V} (ht : t.Inv Platform.hash) :
      HashTable.Represents Platform.hash t (t.get Platform.hash) :=
    ⟨ht, fun _ _ => ht.get_eq_some_iff.symm⟩
  cases v with
  | none => exact h.elim
  | string str => exact .string str
  | list l => obtain ⟨xs, hxs⟩ := h; exact .list hxs hxs
  | hash t => exact .hash (hmaps h) (hmaps h)
  | set t => exact .set (hmaps h) (hmaps h)
  | zset z => obtain ⟨m, row, s, hz⟩ := h; exact .zset hz hz

end Value.Same

end Values

/-! ### Databases -/

namespace Database

variable [Platform] [Inhabited S] [LinearOrder S]

/-- The same keys, with values that say the same, and the same deadlines. -/
structure Same (db db' : Database S) : Prop where
  values : ∀ key, Option.Rel (fun obj obj' => obj.value.Same obj'.value)
    (db.data.lookup key) (db'.data.lookup key)
  deadlines : ∀ key, db.expires.lookup key = db'.expires.lookup key

namespace Same

variable {db db' db'' u u' : Database S} {key : Bytes}

/-- The two databases change places. -/
theorem symm (h : Same db db') : Same db' db where
  values key := by
    have hkey := h.values key
    revert hkey
    generalize db.data.lookup key = o, db'.data.lookup key = o'
    rintro (hv | _)
    · exact .some hv.symm
    · exact .none
  deadlines key := (h.deadlines key).symm

/-- One comparison after another. -/
theorem trans (h : Same db db') (h' : Same db' db'') : Same db db'' where
  values key := by
    have hkey := h.values key
    have hkey' := h'.values key
    revert hkey hkey'
    generalize db.data.lookup key = o, db'.data.lookup key = o', db''.data.lookup key = o''
    rintro (hv | _) (hv' | _)
    · exact .some (hv.trans hv')
    · exact .none
  deadlines key := (h.deadlines key).trans (h'.deadlines key)

/-- Neither has an object at the key, or both have. -/
theorem lookup (h : Same db db') (key : Bytes) :
    (db.data.lookup key = none ∧ db'.data.lookup key = none) ∨
      ∃ obj obj', db.data.lookup key = some obj ∧ db'.data.lookup key = some obj' ∧
        obj.value.Same obj'.value := by
  have hkey := h.values key
  revert hkey
  generalize db.data.lookup key = o, db'.data.lookup key = o'
  rintro (hv | _)
  · exact .inr ⟨_, _, rfl, rfl, hv⟩
  · exact .inl ⟨rfl, rfl⟩

/-- They hold the same data. -/
theorem dataset_eq (h : Same db db') (key : Bytes) : db.dataset key = db'.dataset key := by
  rw [dataset, dataset, h.deadlines key]
  rcases h.lookup key with ⟨hnone, hnone'⟩ | ⟨obj, obj', hobj, hobj', hv⟩
  · rw [hnone, hnone']
  · rw [hobj, hobj', Option.map_some, Option.map_some, hv.content_eq]

/-- At every time the same keys have expired. -/
theorem expired_iff (h : Same db db') (now : ℤ) (key : Bytes) :
    db.Expired now key ↔ db'.Expired now key := by
  rw [Expired, Expired, h.deadlines key]

/-- At every time the same keys are there, with the same contents and deadlines. -/
theorem live_eq (h : Same db db') (now : ℤ) (key : Bytes) : db.live now key = db'.live now key := by
  rw [live, live, h.dataset_eq key]
  exact if_congr (h.expired_iff now key) rfl rfl

/-- Only the two maps matter. -/
theorem of_eq (h : Same db db') (hdata : u.data = db.data) (hexpires : u.expires = db.expires)
    (hdata' : u'.data = db'.data) (hexpires' : u'.expires = db'.expires) : Same u u' where
  values key := by rw [hdata, hdata']; exact h.values key
  deadlines key := by rw [hexpires, hexpires']; exact h.deadlines key

/-- Two empty databases. -/
theorem empty (hdata : db.data = ∅) (hexpires : db.expires = ∅) (hdata' : db'.data = ∅)
    (hexpires' : db'.expires = ∅) : Same db db' where
  values key := by rw [hdata, hdata']; exact .none
  deadlines key := by rw [hexpires, hexpires']

/-- A value is put at the key. -/
theorem insert (h : Same db db') {obj obj' : RedisObject S}
    (hdata : u.data = db.data.insert key obj) (hdata' : u'.data = db'.data.insert key obj')
    (hv : obj.value.Same obj'.value) (hexpires : ∀ k, u.expires.lookup k = u'.expires.lookup k) : Same u u' where
  values k := by
    rw [hdata, hdata', UnorderedMap.lookup_insert_eq_ite, UnorderedMap.lookup_insert_eq_ite]
    split
    · exact .some hv
    · exact h.values k
  deadlines := hexpires

/-- The object at the key goes away. -/
theorem erase (h : Same db db')
    (hdata : ∀ k, u.data.lookup k = if k = key then none else db.data.lookup k)
    (hdata' : ∀ k, u'.data.lookup k = if k = key then none else db'.data.lookup k)
    (hexpires : ∀ k, u.expires.lookup k = u'.expires.lookup k) : Same u u' where
  values k := by
    rw [hdata, hdata']
    split
    · exact .none
    · exact h.values k
  deadlines := hexpires

/-- The deadlines after one has been taken away. -/
theorem deadlines_erase (h : Same db db') (key k : Bytes) :
    (db.expires.erase key).lookup k = (db'.expires.erase key).lookup k := by
  rw [UnorderedMap.lookup_erase_eq_ite, UnorderedMap.lookup_erase_eq_ite, h.deadlines k]

end Same

end Database

/-! ### Databases and clocks -/

namespace DbState

variable [Platform] [Inhabited S] [LinearOrder S]

/-- The same data; the clocks agree on the deadlines of the keys in `K`, and on the time if `T`. -/
structure Same (K : Bytes → Prop) (T : Prop) (s s' : DbState S) : Prop where
  db : s.db.Same s'.db
  judged : ∀ key, K key → ∀ deadline, s.db.expires.lookup key = some deadline →
    ∀ m n, deadline ≤ s.clock m ↔ deadline ≤ s'.clock n
  times : T → ∀ m n, s.clock m = s'.clock n

/-- Nothing is asked of the clocks. -/
abbrev SameData (s s' : DbState S) : Prop := Same (fun _ => False) False s s'

namespace Same

variable {K : Bytes → Prop} {T : Prop} {s s' t t' : DbState S} {key : Bytes}

/-- Both sides go on: deadlines are not added for keys in `K`, and of the clocks some readings may
have been taken. -/
theorem next (h : Same K T s s') (hdb : t.db.Same t'.db)
    (hexpires : ∀ key deadline, K key → t.db.expires.lookup key = some deadline →
      s.db.expires.lookup key = some deadline)
    (hclock : ∃ n, s.ReadsClock n t) (hclock' : ∃ n, s'.ReadsClock n t') : Same K T t t' := by
  obtain ⟨n, hn⟩ := hclock
  obtain ⟨n', hn'⟩ := hclock'
  refine ⟨hdb, fun key hk d hd i j => ?_, fun hT i j => ?_⟩
  · rw [hn, hn']
    exact h.judged key hk d (hexpires key d hk hd) _ _
  · rw [hn, hn']
    exact h.times hT _ _

/-- The deadline of a key in `K` has passed on both sides, or on neither. -/
theorem expired_iff (h : Same K T s s') (hk : K key) :
    (∃ deadline, s.db.expires.lookup key = some deadline ∧ deadline ≤ s.clock 0) ↔
      ∃ deadline, s'.db.expires.lookup key = some deadline ∧ deadline ≤ s'.clock 0 := by
  rw [← h.db.deadlines key]
  exact exists_congr fun d => and_congr_right fun hd => h.judged key hk d hd 0 0

/-- Both sides go on without a reading of the clock. -/
theorem next_clock (h : Same K T s s') (hdb : t.db.Same t'.db)
    (hexpires : ∀ key deadline, K key → t.db.expires.lookup key = some deadline →
      s.db.expires.lookup key = some deadline)
    (hclock : t.clock = s.clock) (hclock' : t'.clock = s'.clock) : Same K T t t' :=
  h.next hdb hexpires ⟨0, readsClock_zero hclock⟩ ⟨0, readsClock_zero hclock'⟩

/-! ### Looking at a key -/

/-- A key is found expired in both or in neither. -/
theorem checkAndExpire (h : Same K T s s') (hk : K key) :
    (s.checkAndExpire key).1 = (s'.checkAndExpire key).1 ∧
      Same K T (s.checkAndExpire key).2 (s'.checkAndExpire key).2 := by
  have hdue := h.expired_iff hk
  rcases s.checkAndExpire_spec key with
    ⟨hlive, hfalse, hdb, hclock⟩ | ⟨d, hd, hpast, htrue, hclock, hexp, hdata⟩ <;>
  rcases s'.checkAndExpire_spec key with
    ⟨hlive', hfalse', hdb', hclock'⟩ | ⟨d', hd', hpast', htrue', hclock', hexp', hdata'⟩
  · -- neither has expired, or both have
    refine ⟨hfalse.trans hfalse'.symm, h.next ?_ (fun k d _ hk => ?_) hclock hclock'⟩
    · rw [hdb, hdb']
      exact h.db
    · rwa [hdb] at hk
  · exact absurd (hdue.mpr ⟨d', hd', hpast'⟩) hlive
  · exact absurd (hdue.mp ⟨d, hd, hpast⟩) hlive'
  · refine ⟨htrue.trans htrue'.symm, h.next ?_ (fun k d _ hk => ?_) ⟨1, hclock⟩ ⟨1, hclock'⟩⟩
    · refine h.db.erase hdata hdata' fun k => ?_
      rw [hexp, hexp']
      exact h.db.deadlines_erase key k
    · rw [hexp, UnorderedMap.lookup_erase_eq_ite] at hk
      split at hk
      · cases hk
      · exact hk

/-- What both find is the same. -/
theorem getObject (h : Same K T s s') (hk : K key) :
    Option.Rel (fun obj obj' => obj.value.Same obj'.value) (s.getObject key).1 (s'.getObject key).1 ∧
      Same K T (s.getObject key).2 (s'.getObject key).2 := by
  obtain ⟨heq, hnext⟩ := h.checkAndExpire hk
  unfold DbState.getObject
  rcases hx : s.checkAndExpire key with ⟨expired, t⟩
  rcases hx' : s'.checkAndExpire key with ⟨expired', t'⟩
  rw [hx, hx'] at heq hnext
  obtain rfl : expired = expired' := heq
  cases expired with
  | true => exact ⟨.none, hnext⟩
  | false =>
    simp only [Bool.false_eq_true, if_false]
    rcases hnext.db.lookup key with ⟨hnone, hnone'⟩ | ⟨obj, obj', hobj, hobj', hv⟩
    · simp only [hnone, hnone']
      exact ⟨.none, hnext.next_clock (hnext.db.of_eq rfl rfl rfl rfl) (fun _ _ _ h => h) rfl rfl⟩
    · simp only [hobj, hobj']
      -- only the clocks of the objects change, which may differ
      have hput : (obj.updateLruClock t.memory.lruClock).value.Same
          (obj'.updateLruClock t'.memory.lruClock).value := hv
      exact ⟨.some hput, hnext.next_clock (hnext.db.insert rfl rfl hput hnext.db.deadlines)
        (fun _ _ _ h => h) rfl rfl⟩

/-- Both look the key up. -/
theorem contains (h : Same K T s s') (hk : K key) :
    (s.contains key).1 = (s'.contains key).1 ∧ Same K T (s.contains key).2 (s'.contains key).2 := by
  obtain ⟨heq, hnext⟩ := h.checkAndExpire hk
  unfold DbState.contains
  rcases hx : s.checkAndExpire key with ⟨expired, t⟩
  rcases hx' : s'.checkAndExpire key with ⟨expired', t'⟩
  rw [hx, hx'] at heq hnext
  obtain rfl : expired = expired' := heq
  cases expired with
  | true => exact ⟨rfl, hnext⟩
  | false =>
    refine ⟨?_, hnext⟩
    show (t.db.data.lookup key).isSome = (t'.db.data.lookup key).isSome
    rcases hnext.db.lookup key with ⟨hnone, hnone'⟩ | ⟨obj, obj', hobj, hobj', -⟩
    · rw [hnone, hnone']
    · rw [hobj, hobj']
      rfl

/-! ### Writing to a key -/

/-- The same is stored in both. -/
theorem store (h : Same K T s s') {obj obj' : RedisObject S} (hv : obj.value.Same obj'.value)
    (key : Bytes) : Same K T (s.store key obj) (s'.store key obj') := by
  obtain ⟨clock, hdata⟩ := s.store_data key obj
  obtain ⟨clock', hdata'⟩ := s'.store_data key obj'
  refine h.next_clock (h.db.insert hdata hdata' hv fun k => ?_) (fun k d _ hk => ?_)
    (s.store_clock key obj) (s'.store_clock key obj')
  · rw [s.store_expires, s'.store_expires]
    exact h.db.deadlines_erase key k
  · rw [s.store_expires, UnorderedMap.lookup_erase_eq_ite] at hk
    split at hk
    · cases hk
    · exact hk

/-- So it is with a string. -/
theorem set (h : Same K T s s') (key value : Bytes) : Same K T (s.set key value) (s'.set key value) :=
  h.store (.string value) key

/-- Both objects are changed in their places. -/
theorem putObject (h : Same K T s s') {obj obj' : RedisObject S} (hv : obj.value.Same obj'.value)
    (key : Bytes) : Same K T (s.putObject key obj) (s'.putObject key obj') :=
  h.next_clock (h.db.insert rfl rfl hv h.db.deadlines) (fun _ _ _ h => h) rfl rfl

/-- The key goes from both. -/
theorem del (h : Same K T s s') (key : Bytes) : Same K T (s.del key).2 (s'.del key).2 := by
  obtain ⟨-, hdata, hexp, hclock⟩ := s.del_spec key
  obtain ⟨-, hdata', hexp', hclock'⟩ := s'.del_spec key
  refine h.next_clock (h.db.erase hdata hdata' fun k => ?_) (fun k d _ hk => ?_) hclock hclock'
  · rw [hexp, hexp']
    exact h.db.deadlines_erase key k
  · rw [hexp, UnorderedMap.lookup_erase_eq_ite] at hk
    split at hk
    · cases hk
    · exact hk

/-- The value moves, and its deadline does not. -/
theorem rename (h : Same K T s s') (oldKey newKey : Bytes) :
    Same K T (s.rename oldKey newKey).2 (s'.rename oldKey newKey).2 := by
  rcases h.db.lookup oldKey with ⟨hnone, hnone'⟩ | ⟨obj, obj', hobj, hobj', hv⟩
  · unfold DbState.rename
    rw [hnone, hnone']
    exact h
  · obtain ⟨u, hu, hdata, hclock, hexp⟩ := s.rename_spec newKey hobj
    obtain ⟨u', hu', hdata', hclock', hexp'⟩ := s'.rename_spec newKey hobj'
    rw [hu, hu']
    obtain ⟨c, hstored⟩ := u.store_data newKey obj
    obtain ⟨c', hstored'⟩ := u'.store_data newKey obj'
    -- what the keys other than the new one have, after the old key is gone
    have hrest : Database.Same { s.db with data := s.db.data.erase oldKey }
        { s'.db with data := s'.db.data.erase oldKey } :=
      h.db.erase (fun k => UnorderedMap.lookup_erase_eq_ite ..)
        (fun k => UnorderedMap.lookup_erase_eq_ite ..) h.db.deadlines
    rw [hdata] at hstored
    rw [hdata'] at hstored'
    refine h.next_clock (hrest.insert hstored hstored' hv fun k => ?_) (fun k d _ hk => ?_)
      ((store_clock ..).trans hclock) ((store_clock ..).trans hclock')
    · -- the deadline under the new name is gone on both sides, the others agree
      rw [u.store_expires, u'.store_expires, UnorderedMap.lookup_erase_eq_ite,
        UnorderedMap.lookup_erase_eq_ite]
      split
      · rfl
      · next hne =>
        rw [hexp k hne, hexp' k hne, h.db.deadlines k]
    · rw [u.store_expires, UnorderedMap.lookup_erase_eq_ite] at hk
      split at hk
      · cases hk
      · next hne =>
        rw [hexp k hne] at hk
        split at hk
        · cases hk
        · exact hk

/-- Both count on from the same number, or refuse to. -/
theorem incrby (h : Same K T s s') (key : Bytes) (increment : ℤ) :
    Same K T (s.incrby key increment).2 (s'.incrby key increment).2 := by
  -- what both store is the text of one number, if it is in range
  have hstored (current : ℤ) : Same K T
      (if (0 < increment ∧ 2 ^ 63 - 1 - increment < current) ∨
          (increment < 0 ∧ current < -2 ^ 63 - increment) then (none, s)
        else (some (current + increment), s.set key (toText (current + increment))) : Option ℤ × DbState S).2
      (if (0 < increment ∧ 2 ^ 63 - 1 - increment < current) ∨
          (increment < 0 ∧ current < -2 ^ 63 - increment) then (none, s')
        else (some (current + increment), s'.set key (toText (current + increment))) : Option ℤ × DbState S).2 := by
    split
    · exact h
    · exact h.set key _
  unfold DbState.incrby
  rcases h.db.lookup key with ⟨hnone, hnone'⟩ | ⟨⟨v, c⟩, ⟨v', c'⟩, hobj, hobj', hv⟩
  · rw [hnone, hnone']
    exact hstored 0
  · rw [hobj, hobj']
    simp only at hv
    cases hv with
    | string str =>
      simp only
      split
      · exact h
      · exact hstored _
    | list | hash | set | zset => exact h

/-- Both append to the same string, or refuse to. -/
theorem append (h : Same K T s s') (key value : Bytes) :
    Same K T (s.append key value).2 (s'.append key value).2 := by
  unfold DbState.append
  rcases h.db.lookup key with ⟨hnone, hnone'⟩ | ⟨⟨v, c⟩, ⟨v', c'⟩, hobj, hobj', hv⟩
  · rw [hnone, hnone']
    exact h.set key value
  · rw [hobj, hobj']
    simp only at hv
    cases hv with
    | string str =>
      exact h.next_clock (h.db.insert rfl rfl (.string (str ++ value)) h.db.deadlines)
        (fun _ _ _ h => h) rfl rfl
    | list | hash | set | zset => exact h

/-! ### Deadlines -/

/-- The deadline goes from both. -/
theorem persist (h : Same K T s s') (key : Bytes) :
    Same K T (s.persist key).2 (s'.persist key).2 := by
  refine h.next_clock ⟨h.db.values, h.db.deadlines_erase key⟩ (fun k d _ hk => ?_) rfl rfl
  have hk : (s.db.expires.erase key).lookup k = some d := hk
  rw [UnorderedMap.lookup_erase_eq_ite] at hk
  split at hk
  · cases hk
  · exact hk

/-- Both are emptied. -/
theorem flushDb (h : Same K T s s') : Same K T s.flushDb s'.flushDb := by
  refine h.next_clock (.empty rfl rfl rfl rfl) (fun k d _ hk => ?_) s.flushDb_clock s'.flushDb_clock
  cases hk

end Same

end DbState

end RedisDb

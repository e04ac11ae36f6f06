import RedisDb.Storage.Database
import RedisDb.Storage.HashTableRefine
import RedisDb.Storage.LinkedListInv
import RedisDb.Storage.SortedSetInv

/-!
# What a database holds

`Content` is what a stored value says, whatever it is made of: a string, a sequence, a map, a set, or a map to scores.
`Database.dataset` reads a database as a map from keys to a content and a deadline, and `Database.live` is the part of
it that has not expired. These are what the theorems about commands, files and replication speak of, so that the
buckets, nodes and links of the structures do not show in them.

The methods are described field by field first: which of the two maps they change, and what they leave of the clock. A
method that only takes entries away, or sets the LRU clock of an object, is `Within` the database before it: every
value and every deadline that is left was there before. Whatever is asked of each value and of each deadline by itself
is kept by such a method without a look at it.

`Database.Reachable` are the databases that calls of the methods, and changes to the objects made through pointers,
lead to. `Reachable.wf` says that their objects satisfy their representation invariants and their deadlines fit their
type, by induction on the calls.

With a clock that stands still (`DbState.Fixed`) the methods are functions of the database alone, and this is where
expiry can be stated without a race against the clock.
-/

namespace RedisDb

variable {S : Type}

/-! ### Contents -/

/-- What a stored value says. -/
inductive Content (S : Type) where
  | none
  | string (s : Bytes)
  | list (xs : List Bytes)
  | hash (m : Bytes → Option Bytes)
  | set (m : Bytes → Bool)
  | zset (m : Bytes → Option S)

/-- The content of a value, as its own lookups tell it. -/
def Value.content [Platform] [Inhabited S] : Value S → Content S
  | .none => .none
  | .string s => .string s
  | .list l => .list l.toList
  | .hash t => .hash (t.get Platform.hash)
  | .set s => .set s.contains
  | .zset z => .zset (z.getScore Platform.hash)

/-- The representation invariant of the structure a value is made of. -/
def Value.WF [Platform] [Inhabited S] [LinearOrder S] : Value S → Prop
  | .none => False
  | .string _ => True
  | .list l => ∃ xs, l.Holds xs
  | .hash t => t.Inv Platform.hash
  | .set s => s.table.Inv Platform.hash
  | .zset z => ∃ m row s, SortedSet.Represents Platform.hash z m row s

namespace Database

/-- The keys, each with its content and its deadline. -/
def dataset [Platform] [Inhabited S] (db : Database S) (key : Bytes) :
    Option (Content S × Option ℤ) :=
  (db.data.lookup key).map fun obj => (obj.value.content, db.expires.lookup key)

/-- The deadline of the key has passed. -/
def Expired (db : Database S) (now : ℤ) (key : Bytes) : Prop :=
  ∃ deadline, db.expires.lookup key = some deadline ∧ deadline ≤ now

instance (db : Database S) (now : ℤ) (key : Bytes) : Decidable (db.Expired now key) :=
  decidable_of_iff ((db.expires.lookup key).any fun d => decide (d ≤ now)) (by
    rw [Option.any_eq_true]
    simp [Expired])

/-- The keys that have not expired. -/
def live [Platform] [Inhabited S] (db : Database S) (now : ℤ) (key : Bytes) :
    Option (Content S × Option ℤ) :=
  if db.Expired now key then none else db.dataset key

end Database

/-! ### The methods, field by field -/

namespace DbState

variable (s : DbState S) (key : Bytes)

/-- Touching a key flags clients, and changes no database. -/
@[simp] theorem touchWatchedKey_db : (s.touchWatchedKey key).db = s.db := by
  unfold touchWatchedKey; split <;> rfl

@[simp] theorem touchWatchedKey_clock : (s.touchWatchedKey key).clock = s.clock := by
  unfold touchWatchedKey; split <;> rfl

@[simp] theorem eraseData_data : (s.eraseData key).db.data = s.db.data.erase key := rfl

@[simp] theorem eraseData_expires : (s.eraseData key).db.expires = s.db.expires := rfl

@[simp] theorem eraseData_clock : (s.eraseData key).clock = s.clock := rfl

@[simp] theorem eraseExpires_data : (s.eraseExpires key).db.data = s.db.data := rfl

@[simp] theorem eraseExpires_expires : (s.eraseExpires key).db.expires = s.db.expires.erase key := rfl

@[simp] theorem eraseExpires_clock : (s.eraseExpires key).clock = s.clock := rfl

@[simp] theorem markDirty_data : s.markDirty.db.data = s.db.data := rfl

@[simp] theorem markDirty_expires : s.markDirty.db.expires = s.db.expires := rfl

@[simp] theorem markDirty_clock : s.markDirty.clock = s.clock := rfl

/-- A look at the clock changes no database. -/
theorem isExpired_db : (s.isExpired key).2.db = s.db := by
  unfold isExpired now
  split <;> rfl

section Memory

variable [Platform]

@[simp] theorem release_db (obj : RedisObject S) : (s.release key obj).db = s.db := rfl

@[simp] theorem release_clock (obj : RedisObject S) : (s.release key obj).clock = s.clock := rfl

/-- A stored object keeps its value; its LRU clock is set. -/
theorem store_data (obj : RedisObject S) : ∃ lruClock, (s.store key obj).db.data
    = s.db.data.insert key { value := obj.value, lruClock := lruClock } := by
  unfold store
  cases s.db.data.lookup key <;>
  exact ⟨_, by simp only [markDirty_data, touchWatchedKey_db, eraseExpires_data]; rfl⟩

/-- What is stored has no deadline. -/
theorem store_expires (obj : RedisObject S) :
    (s.store key obj).db.expires = s.db.expires.erase key := by
  unfold store
  cases s.db.data.lookup key <;>
  simp only [markDirty_expires, touchWatchedKey_db, eraseExpires_expires] <;> rfl

end Memory

end DbState

/-! ### Well-formed databases -/

namespace Database

/-- The objects satisfy their invariants, and the deadlines are `int64_t`s. -/
structure WF [Platform] [Inhabited S] [LinearOrder S] (db : Database S) : Prop where
  values : ∀ key obj, db.data.lookup key = some obj → obj.value.WF
  deadlines : ∀ key deadline, db.expires.lookup key = some deadline → InRange 64 deadline

/-- Every value and every deadline comes from the other database, perhaps from another key. -/
structure Within (db' db : Database S) : Prop where
  values : ∀ key obj, db'.data.lookup key = some obj →
    ∃ key' obj', db.data.lookup key' = some obj' ∧ obj'.value = obj.value
  deadlines : ∀ key deadline, db'.expires.lookup key = some deadline →
    ∃ key', db.expires.lookup key' = some deadline

/-- A database is within itself. -/
theorem Within.refl (db : Database S) : Within db db :=
  ⟨fun key obj h => ⟨key, obj, h, rfl⟩, fun key _ h => ⟨key, h⟩⟩

/-- What comes from a database within another one comes from that one. -/
theorem Within.trans {db₁ db₂ db₃ : Database S} (h : Within db₁ db₂) (h' : Within db₂ db₃) :
    Within db₁ db₃ where
  values key obj hk := by
    obtain ⟨key', obj', hk', heq⟩ := h.values key obj hk
    obtain ⟨key'', obj'', hk'', heq'⟩ := h'.values key' obj' hk'
    exact ⟨key'', obj'', hk'', heq'.trans heq⟩
  deadlines key deadline hk := by
    obtain ⟨key', hk'⟩ := h.deadlines key deadline hk
    exact h'.deadlines key' deadline hk'

/-- Only the two maps matter. -/
theorem within_of_eq {db' db : Database S} (hdata : db'.data = db.data)
    (hexpires : db'.expires = db.expires) : Within db' db where
  values key obj h := ⟨key, obj, hdata ▸ h, rfl⟩
  deadlines key _ h := ⟨key, hexpires ▸ h⟩

/-- **What is within a well-formed database is well formed.** -/
theorem WF.of_within [Platform] [Inhabited S] [LinearOrder S] {db' db : Database S} (h : WF db)
    (hw : Within db' db) : WF db' where
  values key obj hk := by
    obtain ⟨key', obj', hk', heq⟩ := hw.values key obj hk
    exact heq ▸ h.values key' obj' hk'
  deadlines key deadline hk := by
    obtain ⟨key', hk'⟩ := hw.deadlines key deadline hk
    exact h.deadlines key' deadline hk'

end Database

namespace DbState

open Database (Within)

variable (s : DbState S) (key : Bytes)

/-- An object is taken out. -/
theorem within_eraseData : Within (s.eraseData key).db s.db where
  values k obj h := by
    rw [eraseData_data, UnorderedMap.lookup_erase_eq_ite] at h
    split at h
    · cases h
    · exact ⟨k, obj, h, rfl⟩
  deadlines k _ h := ⟨k, h⟩

/-- A deadline is taken out. -/
theorem within_eraseExpires : Within (s.eraseExpires key).db s.db where
  values k obj h := ⟨k, obj, h, rfl⟩
  deadlines k deadline h := by
    rw [eraseExpires_expires, UnorderedMap.lookup_erase_eq_ite] at h
    split at h
    · cases h
    · exact ⟨k, h⟩

/-- A counter is no entry. -/
theorem within_markDirty : Within s.markDirty.db s.db := Database.within_of_eq rfl rfl

variable [Platform]

/-- What expiring a key, deleting it and evicting it share. -/
theorem within_remove (obj : RedisObject S) :
    Within (((s.release key obj).eraseData key).touchWatchedKey key).db s.db := by
  rw [touchWatchedKey_db]
  exact within_eraseData (s.release key obj) key

/-- An expired key is taken out. -/
theorem within_checkAndExpire : Within (s.checkAndExpire key).2.db s.db := by
  have hdb := s.isExpired_db key
  unfold checkAndExpire
  rcases hx : s.isExpired key with ⟨expired, s'⟩
  rw [hx] at hdb
  simp only at hdb ⊢
  rw [← hdb]
  cases expired with
  | false => exact Within.refl _
  | true =>
    simp only [if_true]
    refine (within_markDirty _).trans ((within_eraseExpires _ key).trans ?_)
    cases s'.db.data.lookup key with
    | none => exact Within.refl _
    | some obj => exact within_remove s' key obj

/-- Reading an object sets its LRU clock. -/
theorem within_getObject : Within (s.getObject key).2.db s.db := by
  refine Within.trans ?_ (s.within_checkAndExpire key)
  unfold getObject
  rcases s.checkAndExpire key with ⟨expired, s'⟩
  cases expired with
  | true => exact Within.refl _
  | false =>
    simp only [Bool.false_eq_true, if_false]
    cases hk : s'.db.data.lookup key with
    | none => exact Database.within_of_eq rfl rfl
    | some obj =>
      refine ⟨fun k o h => ?_, fun k _ h => ⟨k, h⟩⟩
      simp only [UnorderedMap.lookup_insert_eq_ite] at h
      split at h
      · exact ⟨key, obj, hk, by rw [← Option.some.inj h]; rfl⟩
      · exact ⟨k, o, h, rfl⟩

/-- So is a key that is deleted. -/
theorem within_del : Within (s.del key).2.db s.db := by
  refine Within.trans ?_ (s.within_eraseExpires key)
  unfold del
  simp only
  cases (s.eraseExpires key).db.data.lookup key with
  | none => exact Within.refl _
  | some obj => exact (within_markDirty _).trans (within_remove _ key obj)

/-- By induction on the samples. -/
theorem within_expireLoop (samples : ℕ) : ∀ (entries : List (Bytes × ℤ)) (s : DbState S),
    Within (expireLoop samples entries s).2.db s.db := by
  induction samples with
  | zero =>
    intro entries s
    exact Within.refl _
  | succ samples ih =>
    intro entries s
    cases entries with
    | nil => exact Within.refl _
    | cons e rest =>
      obtain ⟨key, deadline⟩ := e
      simp only [expireLoop, now]
      -- a deadline that has passed takes the key with it, and the round goes on with what is left
      by_cases hd : deadline ≤ s.clock 0
      · simp only [hd, reduceIte]
        refine (ih _ _).trans ((within_eraseExpires _ key).trans ?_)
        cases s.db.data.lookup key with
        | none => exact Database.within_of_eq rfl rfl
        | some obj => exact (within_remove _ key obj).trans (Database.within_of_eq rfl rfl)
      · simp only [hd, reduceIte]
        exact (ih _ _).trans (Database.within_of_eq rfl rfl)

/-- A flush leaves nothing. -/
theorem flushDb_data : s.flushDb.db.data = ∅ ∧ s.flushDb.db.expires = ∅ := ⟨rfl, rfl⟩

end DbState

namespace Database

variable [Platform] [Inhabited S] [LinearOrder S]

/-- There is nothing to be asked of an empty database. -/
theorem wf_of_empty {db : Database S} (hdata : db.data = ∅) (hexpires : db.expires = ∅) :
    db.WF where
  values _ _ h := by rw [hdata] at h; cases h
  deadlines _ _ h := by rw [hexpires] at h; cases h

/-- A value stored without a deadline. -/
theorem WF.store {s : DbState S} (h : s.db.WF) (key : Bytes) {obj : RedisObject S}
    (hobj : obj.value.WF) : (s.store key obj).db.WF := by
  obtain ⟨lruClock, hdata⟩ := s.store_data key obj
  refine ⟨fun k o hk => ?_, fun k d hk => ?_⟩
  · rw [hdata, UnorderedMap.lookup_insert_eq_ite] at hk
    split at hk
    · rw [← Option.some.inj hk]; exact hobj
    · exact h.values k o hk
  · rw [DbState.store_expires, UnorderedMap.lookup_erase_eq_ite] at hk
    split at hk
    · cases hk
    · exact h.deadlines k d hk

/-- An object is changed in its place, to one that satisfies its invariant. -/
theorem WF.putObject {s : DbState S} (h : s.db.WF) (key : Bytes) {obj : RedisObject S}
    (hobj : obj.value.WF) : (s.putObject key obj).db.WF where
  values k o hk := by
    simp only [DbState.putObject, UnorderedMap.lookup_insert_eq_ite] at hk
    split at hk
    · rw [← Option.some.inj hk]; exact hobj
    · exact h.values k o hk
  deadlines := h.deadlines

/-- A deadline that is an `int64_t`. -/
theorem WF.setDeadline {s : DbState S} (h : s.db.WF) (key : Bytes) {deadline : ℤ}
    (hd : InRange 64 deadline) : (s.setDeadline key deadline).db.WF where
  values := h.values
  deadlines k d hk := by
    simp only [DbState.setDeadline, UnorderedMap.lookup_insert_eq_ite] at hk
    split at hk
    · rw [← Option.some.inj hk]; exact hd
    · exact h.deadlines k d hk

/-- `rename` takes the object to another key. -/
theorem WF.rename {s : DbState S} (h : s.db.WF) (oldKey newKey : Bytes) :
    (s.rename oldKey newKey).2.db.WF := by
  unfold DbState.rename
  cases hold : s.db.data.lookup oldKey with
  | none => exact h
  | some value =>
    have herase : ((s.release oldKey value).eraseData oldKey).db.WF :=
      h.of_within (DbState.within_eraseData (s.release oldKey value) oldKey)
    have herase' := herase.of_within (DbState.within_eraseExpires _ oldKey)
    refine WF.store ?_ newKey (h.values oldKey value hold)
    rw [DbState.touchWatchedKey_db]
    -- the deadline that is moved was the old key's
    cases hexp : s.db.expires.lookup oldKey with
    | none => simpa [hexp] using herase'
    | some expiry =>
      simp only [DbState.eraseData_expires, DbState.release_db, hexp, Option.getD_some]
      split
      · exact herase'.setDeadline newKey (h.deadlines oldKey expiry hexp)
      · exact herase'

/-- `incrby` stores a string. -/
theorem WF.incrby {s : DbState S} (h : s.db.WF) (key : Bytes) (increment : ℤ) :
    (s.incrby key increment).2.db.WF := by
  unfold DbState.incrby
  dsimp only
  split
  · exact h
  · split
    · exact h
    · exact h.store key trivial

/-- So does `append`. -/
theorem WF.append {s : DbState S} (h : s.db.WF) (key value : Bytes) :
    (s.append key value).2.db.WF := by
  unfold DbState.append
  split
  · exact h.store key trivial
  · split
    · refine WF.of_within (WF.putObject ?_ key ?_) (DbState.within_markDirty _)
      · exact h
      · trivial
    · exact h

end Database

/-! ### Datasets -/

section Dataset

variable [Platform] [Inhabited S]

/-- Storing a value replaces content and deadline at its key. -/
theorem DbState.store_dataset (s : DbState S) (key : Bytes) (obj : RedisObject S) (k : Bytes) :
    (s.store key obj).db.dataset k
      = if k = key then some (obj.value.content, none) else s.db.dataset k := by
  obtain ⟨lruClock, hdata⟩ := s.store_data key obj
  rw [Database.dataset, hdata, s.store_expires key obj, UnorderedMap.lookup_insert_eq_ite,
    UnorderedMap.lookup_erase_eq_ite]
  split <;> rfl

/-- A deadline is set at its key. -/
theorem DbState.setDeadline_dataset (s : DbState S) (key : Bytes) (deadline : ℤ) (k : Bytes) :
    (s.setDeadline key deadline).db.dataset k
      = if k = key then (s.db.dataset k).map fun e => (e.1, some deadline) else s.db.dataset k := by
  simp only [Database.dataset, DbState.setDeadline, UnorderedMap.lookup_insert_eq_ite]
  split
  · cases s.db.data.lookup k <;> rfl
  · rfl

/-- An empty database says nothing. -/
theorem Database.dataset_of_empty {db : Database S} (hdata : db.data = ∅) (key : Bytes) :
    db.dataset key = none := by
  rw [Database.dataset, hdata]
  rfl

end Dataset

/-! ### A fixed clock -/

namespace DbState

variable {s : DbState S} {now : ℤ}

/-- Every reading of the clock is `now`. -/
def Fixed (s : DbState S) (now : ℤ) : Prop := s.clock = fun _ => now

/-- Reading a fixed clock changes nothing. -/
theorem Fixed.now_eq (h : s.Fixed now) : s.now = (now, s) := by
  obtain ⟨⟨memory, clock, random, flagged⟩, db⟩ := s
  obtain rfl : clock = fun _ => now := h
  rfl

/-- Whether a key has expired can be read off the deadlines. -/
theorem Fixed.isExpired (h : s.Fixed now) (key : Bytes) :
    s.isExpired key = (decide (s.db.Expired now key), s) := by
  unfold DbState.isExpired
  cases hk : s.db.expires.lookup key with
  | none => simp [Database.Expired, hk]
  | some deadline => simp [Database.Expired, hk, h.now_eq]

variable [Platform]

/-- A live key stays. -/
theorem Fixed.checkAndExpire (h : s.Fixed now) {key : Bytes} (hlive : ¬ s.db.Expired now key) :
    s.checkAndExpire key = (false, s) := by
  simp [DbState.checkAndExpire, h.isExpired, hlive]

/-- Reading a live object sets its LRU clock and counts a hit. -/
theorem Fixed.getObject (h : s.Fixed now) {key : Bytes} (hlive : ¬ s.db.Expired now key)
    {obj : RedisObject S} (hobj : s.db.data.lookup key = some obj) :
    s.getObject key = (some { value := obj.value, lruClock := s.memory.lruClock },
      { s with db := { s.db with hits := s.db.hits + 1
                                 data := s.db.data.insert key
                                  { value := obj.value, lruClock := s.memory.lruClock } } }) := by
  simp [DbState.getObject, h.checkAndExpire hlive, hobj, RedisObject.updateLruClock]

omit [Platform] in
/-- The time that is left, of a key that is there. -/
theorem Fixed.pttl (h : s.Fixed now) {key : Bytes} {obj : RedisObject S}
    (hobj : s.db.data.lookup key = some obj) :
    s.pttl key = (match s.db.expires.lookup key with
      | none => -1
      | some deadline =>
        if asInt64 (deadline - now) ≤ 0 then -2 else asInt64 (deadline - now), s) := by
  unfold DbState.pttl
  rw [hobj]
  cases s.db.expires.lookup key with
  | none => rfl
  | some deadline => simp [h.now_eq]

omit [Platform] in
/-- The keys that have not expired. -/
theorem Fixed.keys (h : s.Fixed now) :
    s.keys (str "*") = (s.db.data.keys.filter fun key => !decide (s.db.Expired now key), s) := by
  have hloop : ∀ keys : List Bytes, keysLoop (str "*") keys s
      = (keys.filter fun key => !decide (s.db.Expired now key), s) := fun keys => by
    induction keys with
    | nil => rfl
    | cons key rest ih =>
      rw [keysLoop, h.isExpired, List.filter_cons]
      simp only [ih, decide_true, Bool.true_or, Bool.and_true]
      split <;> rfl
  exact hloop _

end DbState

/-! ### Reachable databases -/

section Reachable

variable [Platform] [Inhabited S] [LinearOrder S]

/-- The values that the operations of the five structures build. -/
inductive Value.Reachable : Value S → Prop where
  | string (s : Bytes) : Reachable (.string s)
  | newList : Reachable (.list .new)
  | pushFront {l : LinkedList} (h : Reachable (.list l)) (value : Bytes) :
    Reachable (.list (l.pushFront value))
  | pushBack {l : LinkedList} (h : Reachable (.list l)) (value : Bytes) :
    Reachable (.list (l.pushBack value))
  | popFront {l : LinkedList} (h : Reachable (.list l)) : Reachable (.list l.popFront.2)
  | popBack {l : LinkedList} (h : Reachable (.list l)) : Reachable (.list l.popBack.2)
  | newHash : Reachable (.hash .empty)
  | hashSet {t : HashTable Bytes Bytes} (h : Reachable (.hash t)) (key value : Bytes) :
    Reachable (.hash (t.set Platform.hash key value).1)
  | hashDel {t : HashTable Bytes Bytes} (h : Reachable (.hash t)) (key : Bytes) :
    Reachable (.hash (t.del Platform.hash key).1)
  | newSet : Reachable (.set .new)
  | setAdd {s : HashSet} (h : Reachable (.set s)) (member : Bytes) : Reachable (.set (s.add member).1)
  | setRemove {s : HashSet} (h : Reachable (.set s)) (member : Bytes) :
    Reachable (.set (s.remove member).1)
  | newZset (rng : ℕ → Height) : Reachable (.zset (.new rng))
  | zsetAdd {z : SortedSet S} (h : Reachable (.zset z)) (member : Bytes) (score : S) :
    Reachable (.zset (z.add Platform.hash member score).1)
  | zsetRemove {z : SortedSet S} (h : Reachable (.zset z)) (member : Bytes) :
    Reachable (.zset (z.remove Platform.hash member).1)

/-- By induction on the operations: each keeps the invariant of its structure. -/
theorem Value.Reachable.wf {v : Value S} (h : v.Reachable) : v.WF := by
  -- every constructor of a value is one operation of its structure, which keeps the invariant
  induction h with
  | string s => trivial
  | newList => exact ⟨[], LinkedList.holds_new⟩
  | pushFront _ value ih => obtain ⟨xs, hxs⟩ := ih; exact ⟨_, hxs.pushFront value⟩
  | pushBack _ value ih => obtain ⟨xs, hxs⟩ := ih; exact ⟨_, hxs.pushBack value⟩
  | popFront _ ih => obtain ⟨xs, hxs⟩ := ih; exact ⟨_, hxs.popFront.2⟩
  | popBack _ ih => obtain ⟨xs, hxs⟩ := ih; exact ⟨_, hxs.popBack.2⟩
  | newHash => exact HashTable.inv_empty
  | hashSet _ key value ih => exact (HashTable.Inv.set ih key value).1
  | hashDel _ key ih => exact (HashTable.Inv.del ih key).1
  | newSet => exact HashTable.inv_empty
  | setAdd _ member ih => exact (HashTable.Inv.set ih member ()).1
  | setRemove _ member ih => exact (HashTable.Inv.del ih member).1
  | newZset rng => exact ⟨_, _, _, SortedSet.represents_new rng⟩
  | zsetAdd _ member score ih =>
    obtain ⟨m, row, s, hz⟩ := ih
    obtain ⟨⟨row', s', hz'⟩, -⟩ := hz.add member score
    exact ⟨_, _, _, hz'⟩
  | zsetRemove _ member ih =>
    obtain ⟨m, row, s, hz⟩ := ih
    obtain ⟨⟨row', s', hz'⟩, -⟩ := hz.remove member
    exact ⟨_, _, _, hz'⟩

/-- The databases that calls of the methods lead to from an empty one, in any environment.
`putObject` is a change of an object made through a pointer to it, and `reorder` is a hash map
putting its entries in another order. -/
inductive Database.Reachable : Database S → Prop where
  | new : Reachable {}
  | set {s : DbState S} (h : Reachable s.db) (key value : Bytes) : Reachable (s.set key value).db
  | setObject {s : DbState S} (h : Reachable s.db) (key : Bytes) {obj : RedisObject S}
    (hobj : obj.value.Reachable) : Reachable (s.setObject key obj).db
  | putObject {s : DbState S} (h : Reachable s.db) (key : Bytes) {obj : RedisObject S}
    (hobj : obj.value.Reachable) : Reachable (s.putObject key obj).db
  | getObject {s : DbState S} (h : Reachable s.db) (key : Bytes) : Reachable (s.getObject key).2.db
  | checkAndExpire {s : DbState S} (h : Reachable s.db) (key : Bytes) :
    Reachable (s.checkAndExpire key).2.db
  | del {s : DbState S} (h : Reachable s.db) (key : Bytes) : Reachable (s.del key).2.db
  | rename {s : DbState S} (h : Reachable s.db) (oldKey newKey : Bytes) :
    Reachable (s.rename oldKey newKey).2.db
  | incrby {s : DbState S} (h : Reachable s.db) (key : Bytes) (increment : ℤ) :
    Reachable (s.incrby key increment).2.db
  | append {s : DbState S} (h : Reachable s.db) (key value : Bytes) :
    Reachable (s.append key value).2.db
  | setExpiry {s : DbState S} (h : Reachable s.db) (key : Bytes) (milliseconds : ℤ) :
    Reachable (s.setExpiry key milliseconds).2.db
  | setExpiryAt {s : DbState S} (h : Reachable s.db) (key : Bytes) {timestampMs : ℤ}
    (ht : InRange 64 timestampMs) : Reachable (s.setExpiryAt key timestampMs).2.db
  | persist {s : DbState S} (h : Reachable s.db) (key : Bytes) : Reachable (s.persist key).2.db
  | flushDb {s : DbState S} (h : Reachable s.db) : Reachable s.flushDb.db
  | activeExpireCycle {s : DbState S} (h : Reachable s.db) (maxSamples : ℕ) :
    Reachable (s.activeExpireCycle maxSamples).2.db
  | watch {s : DbState S} (h : Reachable s.db) (key : Bytes) (client : ClientId) :
    Reachable (s.addWatchedKey key client).db
  | unwatch {s : DbState S} (h : Reachable s.db) (key : Bytes) (client : ClientId) :
    Reachable (s.removeWatchedKey key client).db
  | reorder {db db' : Database S} (h : Reachable db) (hdata : db'.data.entries.Perm db.data.entries)
    (hexpires : db'.expires.entries.Perm db.expires.entries) : Reachable db'

/-- **Reachable databases are well formed.** By induction on the calls. -/
theorem Database.Reachable.wf {db : Database S} (h : db.Reachable) : db.WF := by
  induction h with
  | new => exact wf_of_empty rfl rfl
  | set _ key value ih => exact ih.store key trivial
  | setObject _ key hobj ih => exact ih.store key hobj.wf
  | putObject _ key hobj ih => exact ih.putObject key hobj.wf
  | getObject _ key ih => exact ih.of_within (DbState.within_getObject _ key)
  | checkAndExpire _ key ih => exact ih.of_within (DbState.within_checkAndExpire _ key)
  | del _ key ih => exact ih.of_within (DbState.within_del _ key)
  | rename _ oldKey newKey ih => exact ih.rename oldKey newKey
  | incrby _ key increment ih => exact ih.incrby key increment
  | append _ key value ih => exact ih.append key value
  | @setExpiry s _ key milliseconds ih =>
    -- the deadline that is set is an `int64_t` by the conversion; `setExpiryAt` is given one
    simp only [DbState.setExpiry, DbState.now]
    split
    · exact ih
    · exact ih.setDeadline (s := { s with clock := _ }) key (asInt64_inRange _)
  | @setExpiryAt s _ key timestampMs ht ih =>
    simp only [DbState.setExpiryAt]
    split
    · exact ih
    · exact ih.setDeadline key ht
  | persist _ key ih => exact ih.of_within (DbState.within_eraseExpires _ key)
  | @flushDb s _ ih => exact wf_of_empty s.flushDb_data.1 s.flushDb_data.2
  | activeExpireCycle _ maxSamples ih =>
    exact ih.of_within (DbState.within_expireLoop maxSamples _ _)
  | watch _ key client ih => exact ih.of_within (Database.within_of_eq rfl rfl)
  | unwatch _ key client ih =>
    refine ih.of_within ?_
    unfold DbState.removeWatchedKey
    split
    · exact Database.Within.refl _
    · dsimp only
      split <;> exact Database.within_of_eq rfl rfl
  | reorder _ hdata hexpires ih =>
    exact ⟨fun key obj h => ih.values key obj ((AList.perm_lookup hdata).symm ▸ h),
      fun key d h => ih.deadlines key d ((AList.perm_lookup hexpires).symm ▸ h)⟩

end Reachable

end RedisDb

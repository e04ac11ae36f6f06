import RedisDb.Storage.AofRewrite
import RedisDb.Storage.Keyspace
import RedisDb.Storage.RdbRoundTrip

/-!
# The deadlines in a snapshot

`saveToFile` and `rewriteAof` visit the keys alike: `getObject` looks whether the key has expired, `pttl` asks
how much time is left, and a third reading of the clock makes a deadline of that. `readDatabases` is this
walk, and what it finds of a key is a `KeyRecord`; both files are texts of the records
(`saveToFile_records`, `rewriteAof_records`).

The clock goes on between the readings. Where the deadline of a key passes between the first and the second,
`pttl` answers as for a key that is not there, and the key is written without a deadline
(`records_keep_deadlines_iff`).
-/

namespace RedisDb

variable {S : Type}

/-- What is found of a key: the object, and the deadline that is written with it. -/
structure KeyRecord (S : Type) where
  key : Bytes
  obj : RedisObject S
  deadline : Option ℤ

namespace DbState

section Walk

variable [Platform]

/-- A key is visited. -/
def readKey (key : Bytes) (s : DbState S) : Option (KeyRecord S) × DbState S :=
  let (obj, s) := s.getObject key
  match obj with
  | none => (none, s)
  | some obj =>
    let (pttl, s) := s.pttl key
    if 0 ≤ pttl then
      let (epoch, s) := s.now
      (some { key := key, obj := obj, deadline := some (epoch + pttl) }, s)
    else (some { key := key, obj := obj, deadline := none }, s)

/-- Keys are visited one after another. -/
def readKeys : List Bytes → DbState S → List (KeyRecord S) × DbState S
  | [], s => ([], s)
  | key :: rest, s =>
    let (record, s) := s.readKey key
    let (records, s) := readKeys rest s
    (record.toList ++ records, s)

/-- The visits to the keys, each with the state before it. -/
def visitsTo : List Bytes → DbState S → List (Bytes × DbState S)
  | [], _ => []
  | key :: rest, s => (key, s) :: visitsTo rest (s.readKey key).2

/-- The keys of a database are visited. -/
def readDatabase (s : DbState S) : List (KeyRecord S) × DbState S :=
  if s.db.size = 0 then ([], s)
  else
    let (keys, s) := s.keys (str "*")
    s.readKeys keys

/-- The visits to the keys of a database. -/
def visits (s : DbState S) : List (Bytes × DbState S) :=
  if s.db.size = 0 then []
  else
    let (keys, s) := s.keys (str "*")
    s.visitsTo keys

end Walk

end DbState

section Databases

variable [Platform]

/-- The databases are visited one after another. -/
def readDatabases : List (Database S) → Env → List (List (KeyRecord S)) × Env
  | [], env => ([], env)
  | db :: rest, env =>
    let (records, s) := DbState.readDatabase { env with db := db }
    let (rest, env) := readDatabases rest s.toEnv
    (records :: rest, env)

/-- All visits to keys. -/
def visitsToAll : List (Database S) → Env → List (Bytes × DbState S)
  | [], _ => []
  | db :: rest, env =>
    DbState.visits { env with db := db } ++
      visitsToAll rest (DbState.readDatabase { env with db := db }).2.toEnv

end Databases

/-! ### The files are texts of the records -/

section Texts

variable [Platform] [Double S] [Inhabited S]

namespace Rdb

omit [Platform] in
/-- A record in a snapshot file: the deadline stands before the key. -/
def saveRecord (w : Writer) (record : KeyRecord S) : Writer :=
  saveObject record.key record.obj (match record.deadline with
    | none => w
    | some deadline => (w.writeByte opcodeExpireTimeMs).put (LittleEndian.bytes 8 (asUInt64 deadline)))

omit [Platform] in
/-- The databases with their records. -/
def saveRecords : ℕ → List (Database S × List (KeyRecord S)) → Writer → Writer
  | _, [], w => w
  | i, (db, records) :: rest, w =>
    saveRecords (i + 1) rest (if db.size = 0 then w
      else records.foldl saveRecord (((((w.writeByte opcodeSelectDb).writeLength i).writeByte
        opcodeResizeDb).writeLength db.size).writeLength db.expiresSize))

theorem saveKey_record (key : Bytes) (w : Writer) (s : DbState S) :
    saveKey key w s = ((s.readKey key).1.toList.foldl saveRecord w, (s.readKey key).2) := by
  unfold saveKey DbState.readKey
  rcases s.getObject key with ⟨obj, t⟩
  cases obj with
  | none => rfl
  | some obj =>
    rcases hpttl : t.pttl key with ⟨pttl, u⟩
    by_cases hpos : 0 ≤ pttl
    · simp only [hpttl, if_pos hpos]
      rfl
    · simp only [hpttl, if_neg hpos]
      rfl

/-- By induction on the keys. -/
theorem saveKeys_records (keys : List Bytes) : ∀ (w : Writer) (s : DbState S),
    saveKeys keys w s = ((s.readKeys keys).1.foldl saveRecord w, (s.readKeys keys).2) := by
  induction keys with
  | nil => exact fun _ _ => rfl
  | cons key rest ih =>
    intro w s
    simp only [saveKeys, saveKey_record, ih, DbState.readKeys, List.foldl_append]

theorem saveDatabase_records (i : ℕ) (w : Writer) (s : DbState S) :
    (saveDatabase i w s).1 = saveRecords i [(s.db, s.readDatabase.1)] w ∧
      (saveDatabase i w s).2 = s.readDatabase.2 := by
  unfold saveDatabase saveRecords saveRecords DbState.readDatabase
  by_cases hsize : s.db.size = 0
  · simp only [if_pos hsize, and_self]
  · simp only [if_neg hsize, saveKeys_records, and_self]

/-- By induction on the databases. -/
theorem saveDatabases_records (databases : List (Database S)) : ∀ (i : ℕ) (w : Writer) (env : Env),
    (saveDatabases i databases w env).1 = saveRecords i (databases.zip (readDatabases databases env).1) w := by
  induction databases with
  | nil => exact fun _ _ _ => rfl
  | cons db rest ih =>
    intro i w env
    obtain ⟨htext, hstate⟩ := saveDatabase_records i w ({ env with db := db } : DbState S)
    simp only [saveDatabases, readDatabases, List.zip_cons_cons, htext, hstate, ih]
    rfl

/-- The snapshot file of the databases with their records. -/
def recordsFile (databases : List (Database S × List (KeyRecord S))) : Bytes :=
  let w := (saveRecords 0 databases (Writer.put {} magic)).writeByte opcodeEof
  w.out ++ LittleEndian.bytes 8 w.checksum.toNat

theorem saveToFile_records (databases : List (Database S)) (env : Env) :
    (saveToFile true databases env).2.1 = recordsFile (databases.zip (readDatabases databases env).1) := by
  rw [recordsFile, ← saveDatabases_records]
  rfl

end Rdb

namespace Aof

open RespSerializer

omit [Platform] in
/-- A record in a rewritten log: the deadline is set behind the command that makes the value. -/
def rewriteRecord (out : Bytes) (record : KeyRecord S) : Bytes :=
  out ++ rewriteObject record.key record.obj ++ (match record.deadline with
    | none => []
    | some deadline => bulkStringArray [str "PEXPIREAT", record.key, toText (asUInt64 deadline)])

omit [Platform] in
/-- The databases with their records. -/
def rewriteRecords : ℕ → List (Database S × List (KeyRecord S)) → Bytes → Bytes
  | _, [], out => out
  | i, (db, records) :: rest, out =>
    rewriteRecords (i + 1) rest (if db.size = 0 then out
      else records.foldl rewriteRecord (out ++ bulkStringArray [str "SELECT", toText i]))

theorem rewriteKey_record (key : Bytes) (out : Bytes) (s : DbState S) :
    rewriteKey key out s = ((s.readKey key).1.toList.foldl rewriteRecord out, (s.readKey key).2) := by
  unfold rewriteKey DbState.readKey
  rcases s.getObject key with ⟨obj, t⟩
  cases obj with
  | none => rfl
  | some obj =>
    rcases hpttl : t.pttl key with ⟨pttl, u⟩
    by_cases hpos : 0 ≤ pttl
    · simp only [hpttl, if_pos hpos]
      rfl
    · simp only [hpttl, if_neg hpos]
      simp [rewriteRecord]

/-- By induction on the keys. -/
theorem rewriteKeys_records (keys : List Bytes) : ∀ (out : Bytes) (s : DbState S),
    rewriteKeys keys out s = ((s.readKeys keys).1.foldl rewriteRecord out, (s.readKeys keys).2) := by
  induction keys with
  | nil => exact fun _ _ => rfl
  | cons key rest ih =>
    intro out s
    simp only [rewriteKeys, rewriteKey_record, ih, DbState.readKeys, List.foldl_append]

theorem rewriteDatabase_records (i : ℕ) (out : Bytes) (s : DbState S) :
    (rewriteDatabase i out s).1 = rewriteRecords i [(s.db, s.readDatabase.1)] out ∧
      (rewriteDatabase i out s).2 = s.readDatabase.2 := by
  unfold rewriteDatabase rewriteRecords rewriteRecords DbState.readDatabase
  by_cases hsize : s.db.size = 0
  · simp only [if_pos hsize, and_self]
  · simp only [if_neg hsize, rewriteKeys_records, and_self]

/-- By induction on the databases. -/
theorem rewriteDatabases_records (databases : List (Database S)) : ∀ (i : ℕ) (out : Bytes) (env : Env),
    (rewriteDatabases i databases out env).1
      = rewriteRecords i (databases.zip (readDatabases databases env).1) out := by
  induction databases with
  | nil => exact fun _ _ _ => rfl
  | cons db rest ih =>
    intro i out env
    obtain ⟨htext, hstate⟩ := rewriteDatabase_records i out ({ env with db := db } : DbState S)
    simp only [rewriteDatabases, readDatabases, List.zip_cons_cons, htext, hstate, ih]
    rfl

theorem rewriteAof_records (databases : List (Database S)) (env : Env) :
    (rewriteAof true databases env).2.1
      = rewriteRecords 0 (databases.zip (readDatabases databases env).1) [] := by
  rw [← rewriteDatabases_records]
  rfl

end Aof

end Texts

/-! ### What becomes of a deadline -/

/-- The clock never goes back, and its readings are `int64_t`s. -/
structure Env.Ticking (env : Env) : Prop where
  mono : Monotone env.clock
  inRange : ∀ n, InRange 64 (env.clock n)

/-- The record has a deadline not before that of its key, if the key has one. -/
def KeyRecord.Keeps (db : Database S) (record : KeyRecord S) : Prop :=
  ∀ deadline, db.expires.lookup record.key = some deadline →
    ∃ written, record.deadline = some written ∧ deadline ≤ asUInt64 written

namespace DbState

variable {s t : DbState S} {key : Bytes}

/-- **The deadline slips**: it has not passed where `getObject` looks, and where `pttl` does the time left, as an
`int64_t`, is not positive any more. -/
def Slips (key : Bytes) (s : DbState S) : Prop :=
  ∃ deadline, s.db.expires.lookup key = some deadline ∧ (s.db.data.lookup key).isSome = true ∧
    s.clock 0 < deadline ∧ asInt64 (deadline - s.clock 1) ≤ 0

theorem Ticking.of_readsClock {n : ℕ} (h : s.toEnv.Ticking) (hclock : s.ReadsClock n t) : t.toEnv.Ticking where
  mono i j hij := by
    rw [show t.toEnv.clock = _ from hclock]
    exact h.mono (by omega)
  inRange i := by
    rw [show t.toEnv.clock = _ from hclock]
    exact h.inRange (n + i)

variable [Platform]

/-- What `getObject` makes of a key with a deadline. -/
theorem getObject_of_deadline {deadline : ℤ} (hdeadline : s.db.expires.lookup key = some deadline) :
    (s.getObject key).1 = none ∧ (deadline ≤ s.clock 0 ∨ s.db.data.lookup key = none) ∨
    s.clock 0 < deadline ∧ (s.db.data.lookup key).isSome = true ∧ ∃ obj, (s.getObject key).1 = some obj ∧
      s.ReadsClock 1 (s.getObject key).2 ∧ (s.getObject key).2.db.expires = s.db.expires ∧
      (s.getObject key).2.db.data.lookup key = some obj := by
  have hone : s.ReadsClock 1 { s with clock := fun k => s.clock (k + 1) } :=
    funext fun k => by rw [Nat.add_comm]
  unfold getObject checkAndExpire isExpired
  simp only [hdeadline, now]
  -- the clock is read once, and the deadline has passed or not
  by_cases hpast : deadline ≤ s.clock 0
  · simp only [hpast, decide_true, if_true]
    exact .inl ⟨trivial, .inl trivial⟩
  · simp only [hpast, decide_false, Bool.false_eq_true, if_false, false_or]
    cases hobj : s.db.data.lookup key with
    | none => exact .inl ⟨rfl, rfl⟩
    | some obj =>
      refine .inr ⟨not_le.mp hpast, rfl, _, rfl, hone, rfl, ?_⟩
      exact AList.lookup_insert _

omit [Platform] in
/-- **The deadline written** is not before that of the key, as the clock does not go back. -/
theorem le_written {deadline epoch epoch' : ℤ} (hd : InRange 64 deadline) (he : InRange 64 epoch)
    (he' : InRange 64 epoch') (hle : epoch ≤ epoch') (hleft : 0 < asInt64 (deadline - epoch)) :
    deadline ≤ asUInt64 (epoch' + asInt64 (deadline - epoch)) := by
  have hrange := asInt64_inRange (deadline - epoch)
  -- the time left is off by a multiple of 2^64, which is not taken from it, for it is positive
  obtain ⟨k, hk⟩ : ∃ k, asInt64 (deadline - epoch) + 2 ^ 64 * k = deadline - epoch :=
    ⟨_, Int.bmod_add_bdiv (deadline - epoch) (2 ^ 64)⟩
  obtain ⟨left, hleftEq⟩ : ∃ left, left = asInt64 (deadline - epoch) := ⟨_, rfl⟩
  rw [← hleftEq] at hrange hleft hk ⊢
  unfold InRange at hd he he' hrange
  have hge : deadline ≤ epoch' + left := by omega
  unfold asUInt64
  omega

theorem key_of_readKey {record : KeyRecord S} (h : (s.readKey key).1 = some record) : record.key = key := by
  unfold readKey at h
  rcases hx : s.getObject key with ⟨obj, t⟩
  rw [hx] at h
  cases obj with
  | none => cases h
  | some obj =>
    rcases hpttl : t.pttl key with ⟨pttl, u⟩
    simp only [hpttl] at h
    split at h <;>
    · obtain rfl := Option.some.inj h
      rfl

/-- The record of a key whose deadline lies ahead of the check of `getObject`. -/
theorem readKey_of_ahead {deadline : ℤ} {obj : RedisObject S} (hobj : (s.getObject key).1 = some obj)
    (hclock : s.ReadsClock 1 (s.getObject key).2)
    (hdeadline : (s.getObject key).2.db.expires.lookup key = some deadline)
    (hdata : (s.getObject key).2.db.data.lookup key = some obj) :
    (s.readKey key).1 = some ⟨key, obj, if asInt64 (deadline - s.clock 1) ≤ 0 then none
      else some (s.clock 2 + asInt64 (deadline - s.clock 1))⟩ := by
  have hfirst : (s.getObject key).2.clock 0 = s.clock 1 := congrFun hclock 0
  have hsecond : (s.getObject key).2.clock 1 = s.clock 2 := congrFun hclock 1
  unfold readKey
  rcases hx : s.getObject key with ⟨o, t⟩
  rw [hx] at hobj hdeadline hdata hfirst hsecond
  obtain rfl : o = some obj := hobj
  replace hfirst : t.clock 0 = s.clock 1 := hfirst
  replace hsecond : t.clock 1 = s.clock 2 := hsecond
  -- `pttl` answers -2 for a deadline that has passed by now, which is what it answers for no key
  have hpttl : t.pttl key = (if asInt64 (deadline - s.clock 1) ≤ 0 then -2 else asInt64 (deadline - s.clock 1),
      t.now.2) := by
    unfold pttl
    simp only [hdata, hdeadline, Option.isNone_some, Bool.false_eq_true, if_false, now, hfirst]
  simp only [hpttl]
  by_cases hleft : asInt64 (deadline - s.clock 1) ≤ 0
  · simp only [if_pos hleft, if_neg (show ¬(0 : ℤ) ≤ -2 by decide)]
  · simp only [if_neg hleft, if_pos (le_of_lt (not_le.mp hleft))]
    rw [← hsecond]
    rfl

/-- **One visit**: what is found keeps the deadline of the key, unless the deadline slips. -/
theorem readKey_keeps_iff {db : Database S} (hticking : s.toEnv.Ticking)
    (hkey : s.db.expires.lookup key = db.expires.lookup key)
    (hrange : ∀ deadline, db.expires.lookup key = some deadline → InRange 64 deadline) :
    (∀ record, (s.readKey key).1 = some record → record.Keeps db) ↔ ¬s.Slips key := by
  cases hdeadline : s.db.expires.lookup key with
  | none =>
    -- without a deadline there is nothing to keep, and nothing to slip
    refine iff_of_true (fun record hr deadline hd => ?_) fun ⟨deadline, hd, _⟩ => ?_
    · rw [key_of_readKey hr, ← hkey, hdeadline] at hd
      cases hd
    · cases hdeadline.symm.trans hd
  | some deadline =>
    have hd := hrange deadline (hkey.symm.trans hdeadline)
    -- to keep the deadline is to write one that is not before it
    have hkeeps (record : KeyRecord S) (hr : record.key = key) : record.Keeps db ↔
        ∃ written, record.deadline = some written ∧ deadline ≤ asUInt64 written := by
      unfold KeyRecord.Keeps
      rw [hr, ← hkey, hdeadline]
      exact ⟨fun h => h deadline rfl, fun h d heq => Option.some.inj heq ▸ h⟩
    rcases getObject_of_deadline hdeadline with
      ⟨hnone, hwhy⟩ | ⟨hahead, hsome, obj, hobj, hclock, hexpires, hdata⟩
    · -- the key is left out
      have hout : (s.readKey key).1 = none := by
        unfold readKey
        rcases hx : s.getObject key with ⟨o, t⟩
        rw [hx] at hnone
        simp only at hnone
        rw [hnone]
      refine iff_of_true (fun record hr => by rw [hout] at hr; cases hr) ?_
      rintro ⟨d, hd', hsome, hahead, -⟩
      obtain rfl := Option.some.inj (hdeadline.symm.trans hd')
      rcases hwhy with hpast | hgone
      · exact absurd hahead (not_lt.mpr hpast)
      · rw [hgone] at hsome
        cases hsome
    · -- the key has not expired where `getObject` looks, so it is written
      have hread := readKey_of_ahead hobj hclock (hexpires ▸ hdeadline) hdata
      have hslips : s.Slips key ↔ asInt64 (deadline - s.clock 1) ≤ 0 := by
        constructor
        · rintro ⟨d, hd', -, -, hleft⟩
          obtain rfl := Option.some.inj (hdeadline.symm.trans hd')
          exact hleft
        · exact fun hleft => ⟨deadline, hdeadline, hsome, hahead, hleft⟩
      rw [hread, hslips]
      by_cases hleft : asInt64 (deadline - s.clock 1) ≤ 0
      · -- `pttl` finds no time left, and the record has no deadline
        refine iff_of_false (fun h => ?_) (not_not.mpr hleft)
        obtain ⟨written, hwritten, -⟩ := (hkeeps _ rfl).mp (h _ rfl)
        rw [if_pos hleft] at hwritten
        cases hwritten
      · -- the time left is added to a later reading of the clock, which is not before the deadline
        refine iff_of_true (fun record hr => ?_) hleft
        obtain rfl := Option.some.inj hr
        refine (hkeeps _ rfl).mpr ⟨s.clock 2 + asInt64 (deadline - s.clock 1), if_neg hleft, ?_⟩
        exact le_written hd (hticking.inRange 1) (hticking.inRange 2) (hticking.mono (by decide))
          (not_le.mp hleft)

/-! ### All visits -/

omit [Platform] in
theorem pttl_spec (key : Bytes) (s : DbState S) :
    (∃ n, s.ReadsClock n (s.pttl key).2) ∧ (s.pttl key).2.db = s.db := by
  unfold pttl
  split
  · exact ⟨⟨0, readsClock_zero rfl⟩, rfl⟩
  · cases s.db.expires.lookup key with
    | none => exact ⟨⟨0, readsClock_zero rfl⟩, rfl⟩
    | some deadline => exact ⟨⟨1, s.readsClock_now⟩, rfl⟩

/-- Reading an object leaves the deadlines of the other keys, and reads the clock some times. -/
theorem getObject_deadlines (key : Bytes) (s : DbState S) : (∃ n, s.ReadsClock n (s.getObject key).2) ∧
    ∀ k, k ≠ key → (s.getObject key).2.db.expires.lookup k = s.db.expires.lookup k := by
  have hcheck : (∃ n, s.ReadsClock n (s.checkAndExpire key).2) ∧
      ∀ k, k ≠ key → (s.checkAndExpire key).2.db.expires.lookup k = s.db.expires.lookup k := by
    rcases s.checkAndExpire_spec key with ⟨-, -, hdb, hclock⟩ | ⟨-, -, -, -, hclock, hexpires, -⟩
    · exact ⟨hclock, fun k _ => by rw [hdb]⟩
    · exact ⟨⟨1, hclock⟩, fun k hk => by rw [hexpires, UnorderedMap.lookup_erase_eq_ite, if_neg hk]⟩
  unfold getObject
  rcases hx : s.checkAndExpire key with ⟨expired, t⟩
  rw [hx] at hcheck
  cases expired with
  | true => exact hcheck
  | false =>
    simp only [Bool.false_eq_true, if_false]
    cases t.db.data.lookup key <;> exact hcheck

/-- **A visit** leaves the deadlines of the other keys, and reads the clock some times. -/
theorem readKey_spec (key : Bytes) (s : DbState S) : (∃ n, s.ReadsClock n (s.readKey key).2) ∧
    ∀ k, k ≠ key → (s.readKey key).2.db.expires.lookup k = s.db.expires.lookup k := by
  obtain ⟨⟨n, hclock⟩, hothers⟩ := s.getObject_deadlines key
  unfold readKey
  rcases hx : s.getObject key with ⟨obj, t⟩
  rw [hx] at hclock hothers
  cases obj with
  | none => exact ⟨⟨n, hclock⟩, hothers⟩
  | some obj =>
    -- what is left to live is read off with a further reading of the clock
    obtain ⟨⟨m, hclock'⟩, hdb⟩ := t.pttl_spec key
    rcases hpttl : t.pttl key with ⟨pttl, u⟩
    rw [hpttl] at hclock' hdb
    replace hdb : u.db = t.db := hdb
    simp only [hpttl]
    split
    · exact ⟨⟨_, (hclock.then hclock').then u.readsClock_now⟩, fun k hk => by
        show u.db.expires.lookup k = _
        rw [hdb]
        exact hothers k hk⟩
    · exact ⟨⟨_, hclock.then hclock'⟩, fun k hk => by
        show u.db.expires.lookup k = _
        rw [hdb]
        exact hothers k hk⟩

theorem readKeys_clock (keys : List Bytes) : ∀ s : DbState S, ∃ n, s.ReadsClock n (s.readKeys keys).2 := by
  induction keys with
  | nil => exact fun s => ⟨0, readsClock_zero rfl⟩
  | cons key rest ih =>
    intro s
    obtain ⟨⟨n, hclock⟩, -⟩ := s.readKey_spec key
    obtain ⟨m, hclock'⟩ := ih (s.readKey key).2
    exact ⟨_, hclock.then hclock'⟩

/-- **Keys are visited**: what is found keeps the deadlines that the keys have in `db`, unless one slips. By
induction on the keys, no two of which are the same. -/
theorem readKeys_keep_iff {db : Database S} (keys : List Bytes) : ∀ {s : DbState S}, keys.Nodup →
    s.toEnv.Ticking → (∀ key ∈ keys, s.db.expires.lookup key = db.expires.lookup key) →
    (∀ key deadline, db.expires.lookup key = some deadline → InRange 64 deadline) →
    ((∀ record ∈ (s.readKeys keys).1, record.Keeps db) ↔ ∀ v ∈ s.visitsTo keys, ¬v.2.Slips v.1) := by
  induction keys with
  | nil => exact fun _ _ _ _ => by simp [readKeys, visitsTo]
  | cons key rest ih =>
    intro s hnodup hticking hexpires hrange
    obtain ⟨hnew, hrest⟩ := List.nodup_cons.mp hnodup
    obtain ⟨⟨n, hclock⟩, hothers⟩ := s.readKey_spec key
    have hvisit := readKey_keeps_iff hticking (hexpires key List.mem_cons_self) (hrange key)
    have hlater := ih hrest (Ticking.of_readsClock hticking hclock) (fun k hk => by
      rw [hothers k fun heq => hnew (heq ▸ hk), hexpires k (List.mem_cons_of_mem _ hk)]) hrange
    simp only [readKeys, visitsTo, List.mem_append, Option.mem_toList, List.forall_mem_cons,
      or_imp, forall_and, ← hvisit, ← hlater]

omit [Platform] in
/-- Listing the keys reads the clock some times. By induction on the keys. -/
theorem keysLoop_spec (pattern : Bytes) (keys : List Bytes) : ∀ s : DbState S,
    (keysLoop pattern keys s).2.db = s.db ∧ (∃ n, s.ReadsClock n (keysLoop pattern keys s).2) ∧
      (keysLoop pattern keys s).1.Sublist keys := by
  induction keys with
  | nil => exact fun s => ⟨rfl, ⟨0, readsClock_zero rfl⟩, List.Sublist.slnil⟩
  | cons key rest ih =>
    intro s
    -- the clock is read only for keys with a deadline
    have hclock : ∃ n, s.ReadsClock n (s.isExpired key).2 := by
      unfold isExpired
      cases s.db.expires.lookup key with
      | none => exact ⟨0, readsClock_zero rfl⟩
      | some deadline => exact ⟨1, s.readsClock_now⟩
    have hdb := s.isExpired_db key
    rcases hx : s.isExpired key with ⟨expired, t⟩
    rw [hx] at hclock hdb
    obtain ⟨n, hclock⟩ := hclock
    obtain ⟨hdb', ⟨m, hclock'⟩, hsub⟩ := ih t
    unfold keysLoop
    simp only [hx]
    split
    · exact ⟨hdb'.trans hdb, ⟨_, hclock.then hclock'⟩, hsub.cons_cons key⟩
    · exact ⟨hdb'.trans hdb, ⟨_, hclock.then hclock'⟩, hsub.cons key⟩

/-- **A database is visited.** -/
theorem readDatabase_keeps_iff (hticking : s.toEnv.Ticking)
    (hrange : ∀ key deadline, s.db.expires.lookup key = some deadline → InRange 64 deadline) :
    (∀ record ∈ s.readDatabase.1, record.Keeps s.db) ↔ ∀ v ∈ s.visits, ¬v.2.Slips v.1 := by
  unfold readDatabase visits
  split
  · simp
  · obtain ⟨hdb, ⟨n, hclock⟩, hkeys⟩ := keysLoop_spec (str "*") s.db.data.keys s
    exact readKeys_keep_iff _ (hkeys.nodup s.db.data.keys_nodup) (Ticking.of_readsClock hticking hclock)
      (fun key _ => by rw [hdb]) hrange

theorem readDatabase_clock (s : DbState S) : ∃ n, s.ReadsClock n s.readDatabase.2 := by
  unfold readDatabase
  split
  · exact ⟨0, readsClock_zero rfl⟩
  · obtain ⟨-, ⟨n, hclock⟩, -⟩ := keysLoop_spec (str "*") s.db.data.keys s
    obtain ⟨m, hclock'⟩ := readKeys_clock (keysLoop (str "*") s.db.data.keys s).1
      (keysLoop (str "*") s.db.data.keys s).2
    exact ⟨_, hclock.then hclock'⟩

end DbState

/-- **Snapshots keep deadlines** unless one slips. -/
theorem records_keep_deadlines_iff [Platform] (databases : List (Database S)) : ∀ {env : Env}, env.Ticking →
    (∀ db ∈ databases, ∀ key deadline, db.expires.lookup key = some deadline → InRange 64 deadline) →
    (List.Forall₂ (fun db records => ∀ record ∈ records, record.Keeps db) databases
        (readDatabases databases env).1 ↔ ∀ v ∈ visitsToAll databases env, ¬v.2.Slips v.1) := by
  induction databases with
  | nil => exact fun _ _ => by simp [readDatabases, visitsToAll]
  | cons db rest ih =>
    intro env hticking hrange
    obtain ⟨s, hs⟩ : ∃ s : DbState S, s = { env with db := db } := ⟨_, rfl⟩
    have hticking' : s.toEnv.Ticking := by rw [hs]; exact hticking
    -- the first database, and the others from where its reading has left the clock
    have hfirst := DbState.readDatabase_keeps_iff hticking' (by rw [hs]; exact hrange db List.mem_cons_self)
    obtain ⟨n, hclock⟩ := s.readDatabase_clock
    have hrest := ih (DbState.Ticking.of_readsClock hticking' hclock) fun d hd =>
      hrange d (List.mem_cons_of_mem db hd)
    have hdb : s.db = db := by rw [hs]
    rw [hdb] at hfirst
    simp only [readDatabases, visitsToAll, ← hs, List.forall₂_cons, List.mem_append, or_imp, forall_and,
      ← hfirst, ← hrest]

/-- **Both files are texts of the same records**, and these keep the deadlines of the databases if and only if no
deadline slips between two readings of the clock. The records are what both writers read off the databases, with a
clock that may go on from one key to the next. -/
theorem snapshots_keep_deadlines_iff [Platform] [Double S] [Inhabited S] (databases : List (Database S))
    {env : Env} (hticking : env.Ticking)
    (hrange : ∀ db ∈ databases, ∀ key deadline, db.expires.lookup key = some deadline → InRange 64 deadline) :
    (Rdb.saveToFile true databases env).2.1
        = Rdb.recordsFile (databases.zip (readDatabases databases env).1) ∧
      (Aof.rewriteAof true databases env).2.1
        = Aof.rewriteRecords 0 (databases.zip (readDatabases databases env).1) [] ∧
      (List.Forall₂ (fun db records => ∀ record ∈ records, record.Keeps db) databases
        (readDatabases databases env).1 ↔ ∀ v ∈ visitsToAll databases env, ¬v.2.Slips v.1) :=
  ⟨Rdb.saveToFile_records databases env, Aof.rewriteAof_records databases env,
    records_keep_deadlines_iff databases hticking hrange⟩

/-! ### A key that is made permanent -/

section Sample

open Sample RespSerializer

theorem volatileDb_deadline {key : Bytes} {deadline : ℤ} (h : volatileDb.expires.lookup key = some deadline) :
    deadline = 60000 := by
  have hexpires : volatileDb.expires = (∅ : UnorderedMap Bytes ℤ).insert (str "k") 60000 := rfl
  rw [hexpires, UnorderedMap.lookup_insert_eq_ite] at h
  split at h
  · exact (Option.some.inj h).symm
  · cases h

theorem volatileDb_inRange : ∀ db ∈ [volatileDb], ∀ key deadline,
    db.expires.lookup key = some deadline → InRange 64 deadline := by
  intro db hdb key deadline h
  obtain rfl := List.mem_singleton.mp hdb
  rw [volatileDb_deadline h]
  decide

/-- With a clock that stands still both files have the deadline. -/
theorem snapshots_keep_deadlines_volatile :
    List.Forall₂ (fun db records => ∀ record ∈ records, record.Keeps db) [volatileDb]
      (readDatabases [volatileDb] idleEnv).1 := by
  refine (snapshots_keep_deadlines_iff [volatileDb] ⟨fun _ _ _ => le_rfl, fun _ => show InRange 64 0 by decide⟩
    volatileDb_inRange).2.2.mpr fun v hv => ?_
  -- the only key is visited at the time 0
  let reads (v : Bytes × DbState Score) := (v.2.db.expires.lookup v.1, v.2.clock 1)
  have hvisits : (visitsToAll [volatileDb] idleEnv).map reads = [(some 60000, 0)] := rfl
  have hmem : reads v ∈ (visitsToAll [volatileDb] idleEnv).map reads := List.mem_map_of_mem hv
  rw [hvisits, List.mem_singleton, Prod.mk.injEq] at hmem
  rintro ⟨deadline, hd, -, -, hleft⟩
  obtain rfl := Option.some.inj (hd.symm.trans hmem.1)
  rw [hmem.2] at hleft
  exact absurd hleft (by decide)

/-- The clock passes the deadline after the second reading. -/
def slippingEnv : Env := { idleEnv with clock := fun n => if n < 2 then 0 else 60000 }

/-- The key has a deadline, and both files have the key without one. -/
theorem deadline_slips_past :
    slippingEnv.Ticking ∧ volatileDb.expires.lookup (str "k") = some 60000 ∧
      (Aof.rewriteAof true [volatileDb] slippingEnv).2.1
        = bulkStringArray [str "SELECT", str "0"] ++ bulkStringArray [str "SET", str "k", str "v"] ∧
      (readDatabases [volatileDb] slippingEnv).1.map (fun records => records.map fun r => (r.key, r.deadline))
        = [[(str "k", none)]] ∧
      ¬List.Forall₂ (fun db records => ∀ record ∈ records, record.Keeps db) [volatileDb]
        (readDatabases [volatileDb] slippingEnv).1 := by
  refine ⟨⟨fun i j hij => ?_, fun n => ?_⟩, rfl, by decide +kernel, rfl, fun h => ?_⟩
  · show (if i < 2 then (0 : ℤ) else 60000) ≤ if j < 2 then 0 else 60000
    split <;> split <;> omega
  · show InRange 64 (if n < 2 then (0 : ℤ) else 60000)
    split <;> decide
  · -- the record that is written has no deadline any more
    obtain ⟨record, hr, hkey, hnone⟩ : ∃ record, [record] = (readDatabases [volatileDb] slippingEnv).1.flatten ∧
        record.key = str "k" ∧ record.deadline = none := ⟨_, rfl, rfl, rfl⟩
    obtain ⟨records, hrecords⟩ : ∃ records, (readDatabases [volatileDb] slippingEnv).1 = [records] := ⟨_, rfl⟩
    rw [hrecords] at h hr
    rw [List.forall₂_cons] at h
    obtain ⟨written, hwritten, -⟩ := h.1 record (by simp [show records = [record] by simpa using hr.symm]) 60000
      (by rw [hkey]; rfl)
    rw [hnone] at hwritten
    cases hwritten

end Sample

end RedisDb

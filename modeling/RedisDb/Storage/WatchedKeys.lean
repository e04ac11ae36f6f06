import RedisDb.Storage.DatabaseCalls
import RedisDb.Storage.RdbPersistence

/-!
# Who watches what

No access to a database changes `watchedKeys_`: only `WATCH` and the commands that undo it do. Nor does writing the
databases to a file, or loading them from one. An access flags a client where it changes a key that the client
watches, so only who watches a key is flagged.

`WatchersKept` says both of two states, and it is transitive because the table of watchers is the same in all of them.
Each method of a database is put together from a few writes, so there is one lemma for each method, by the branches of
its definition, and one for all of them (`Call.watchersKept`). Files are read and written with the same methods, one
key after another. Loading is by induction on the turns of its loop, and all that a turn does to the databases is to
store a key (`loadLoop_preserves`), which is used for other properties of the databases as well.
-/

namespace RedisDb

variable {S : Type} {s : DbState S} {key : Bytes}

namespace DbState

/-- Between the two states `watchedKeys_` has not changed, and only clients that watch a key have been
flagged. -/
structure WatchersKept (s t : DbState S) : Prop where
  watchedKeys : t.db.watchedKeys = s.db.watchedKeys
  flagged : ∀ id ∈ t.flagged, id ∈ s.flagged ∨
    ∃ key clients, s.db.watchedKeys.lookup key = some clients ∧ id ∈ clients

namespace WatchersKept

/-- Where neither the watchers nor the flags change. -/
theorem of_eq {t : DbState S} (hwatched : t.db.watchedKeys = s.db.watchedKeys)
    (hflagged : t.flagged = s.flagged) : WatchersKept s t :=
  ⟨hwatched, fun _ hid => .inl (hflagged ▸ hid)⟩

/-- Where nothing happens. -/
theorem refl (s : DbState S) : WatchersKept s s := of_eq rfl rfl

/-- One step after another. Who is flagged in the second watched a key before it, and so before the first. -/
theorem trans {t u : DbState S} (h : WatchersKept s t) (h' : WatchersKept t u) : WatchersKept s u :=
  ⟨h'.watchedKeys.trans h.watchedKeys, fun id hid => by
    rcases h'.flagged id hid with hmid | hwatches
    · exact h.flagged id hmid
    · exact .inr (h.watchedKeys ▸ hwatches)⟩

/-! ### One method after another -/

/-- **Here clients are flagged**: those that watch the key, and none else. -/
theorem touchWatchedKey (s : DbState S) (key : Bytes) : WatchersKept s (s.touchWatchedKey key) := by
  unfold DbState.touchWatchedKey
  split
  · exact refl s
  · next clients hclients =>
    refine ⟨rfl, fun id hid => ?_⟩
    rcases List.mem_append.mp hid with hwatcher | hold
    · exact .inr ⟨key, clients, hclients, hwatcher⟩
    · exact .inl hold

/-- The end of every method that changes a key. -/
theorem touched (s : DbState S) (key : Bytes) : WatchersKept s (s.touchWatchedKey key).markDirty :=
  (touchWatchedKey s key).trans (of_eq rfl rfl)

/-- A look at the clock. -/
theorem isExpired (s : DbState S) (key : Bytes) : WatchersKept s (s.isExpired key).2 := by
  unfold DbState.isExpired
  split <;> exact of_eq rfl rfl

variable [Platform]

/-- What expiring a key, deleting it and evicting it share. -/
theorem removed (s : DbState S) (key : Bytes) (obj : RedisObject S) :
    WatchersKept s (((s.release key obj).eraseData key).touchWatchedKey key) :=
  trans (t := (s.release key obj).eraseData key) (of_eq rfl rfl) (touchWatchedKey _ key)

/-- Expiring a key flags who watches it. -/
theorem checkAndExpire (s : DbState S) (key : Bytes) : WatchersKept s (s.checkAndExpire key).2 := by
  have hread := isExpired s key
  unfold DbState.checkAndExpire
  rcases hx : s.isExpired key with ⟨expired, t⟩
  rw [hx] at hread
  refine hread.trans ?_
  cases expired with
  | false => exact refl t
  | true =>
    simp only [if_true]
    cases t.db.data.lookup key with
    | none => exact of_eq rfl rfl
    | some obj => exact (removed t key obj).trans (of_eq rfl rfl)

/-- So does storing one. -/
theorem store (s : DbState S) (key : Bytes) (obj : RedisObject S) :
    WatchersKept s (s.store key obj) := by
  unfold DbState.store
  cases s.db.data.lookup key <;>
  · refine trans ?_ (touched _ key)
    exact of_eq rfl rfl

/-- A lookup flags at most because of the expiry. -/
theorem getObject (s : DbState S) (key : Bytes) : WatchersKept s (s.getObject key).2 := by
  have hcheck := checkAndExpire s key
  unfold DbState.getObject
  rcases hx : s.checkAndExpire key with ⟨expired, t⟩
  rw [hx] at hcheck
  refine hcheck.trans ?_
  cases expired with
  | true => exact refl t
  | false =>
    simp only [Bool.false_eq_true, if_false]
    cases t.db.data.lookup key <;> exact of_eq rfl rfl

/-- So does the lookup of `get`. -/
theorem get (s : DbState S) (key : Bytes) : WatchersKept s (s.get key).2 := by
  have hget := getObject s key
  unfold DbState.get
  rcases hx : s.getObject key with ⟨obj, t⟩
  rw [hx] at hget
  simp only
  split <;> exact hget

/-- So does that of `contains`. -/
theorem contains (s : DbState S) (key : Bytes) : WatchersKept s (s.contains key).2 := by
  have hcheck := checkAndExpire s key
  unfold DbState.contains
  rcases hx : s.checkAndExpire key with ⟨expired, t⟩
  rw [hx] at hcheck
  cases expired <;> exact hcheck

/-- So does that of `type`. -/
theorem type (s : DbState S) (key : Bytes) : WatchersKept s (s.type key).2 := by
  have hcheck := checkAndExpire s key
  unfold DbState.type
  rcases hx : s.checkAndExpire key with ⟨expired, t⟩
  rw [hx] at hcheck
  cases expired with
  | true => exact hcheck
  | false =>
    simp only [Bool.false_eq_true, if_false]
    cases t.db.data.lookup key <;> exact hcheck

/-- Deleting a key flags who watches it. -/
theorem del (s : DbState S) (key : Bytes) : WatchersKept s (s.del key).2 := by
  unfold DbState.del
  simp only
  refine trans (t := s.eraseExpires key) (of_eq rfl rfl) ?_
  cases (s.eraseExpires key).db.data.lookup key with
  | none => exact refl _
  | some obj => exact (removed _ key obj).trans (of_eq rfl rfl)

/-- `rename` touches both keys. -/
theorem rename (s : DbState S) (oldKey newKey : Bytes) :
    WatchersKept s (s.rename oldKey newKey).2 := by
  unfold DbState.rename
  cases s.db.data.lookup oldKey with
  | none => exact refl s
  | some value =>
    refine trans ?_ (store _ newKey value)
    refine trans ?_ (touchWatchedKey _ oldKey)
    simp only
    split <;> exact of_eq rfl rfl

/-- `incrby` stores, if at all. -/
theorem incrby (s : DbState S) (key : Bytes) (increment : ℤ) :
    WatchersKept s (s.incrby key increment).2 := by
  unfold DbState.incrby
  simp only
  split
  · exact refl s
  · split
    · exact refl s
    · exact store s key _

/-- `append` changes a string in its place, or stores one. -/
theorem append (s : DbState S) (key value : Bytes) : WatchersKept s (s.append key value).2 := by
  unfold DbState.append
  cases s.db.data.lookup key with
  | none => exact store s key _
  | some obj =>
    simp only
    split <;> exact of_eq rfl rfl

omit [Platform] in
/-- A deadline is a change of the key. -/
theorem setExpiry (s : DbState S) (key : Bytes) (milliseconds : ℤ) :
    WatchersKept s (s.setExpiry key milliseconds).2 := by
  unfold DbState.setExpiry
  split <;> exact of_eq rfl rfl

omit [Platform] in
/-- The same. -/
theorem setExpiryAt (s : DbState S) (key : Bytes) (timestampMs : ℤ) :
    WatchersKept s (s.setExpiryAt key timestampMs).2 := by
  unfold DbState.setExpiryAt
  split <;> exact of_eq rfl rfl

omit [Platform] in
/-- `pttl` only reads. -/
theorem pttl (s : DbState S) (key : Bytes) : WatchersKept s (s.pttl key).2 := by
  unfold DbState.pttl
  split
  · exact refl s
  · cases s.db.expires.lookup key <;> exact of_eq rfl rfl

omit [Platform] in
/-- By induction on the keys. -/
theorem keysLoop (pattern : Bytes) (keys : List Bytes) : ∀ s : DbState S,
    WatchersKept s (DbState.keysLoop pattern keys s).2 := by
  induction keys with
  | nil => exact refl
  | cons key keys ih =>
    intro s
    have hrest := (isExpired s key).trans (ih (s.isExpired key).2)
    unfold DbState.keysLoop
    simp only
    split <;> exact hrest

omit [Platform] in
/-- By induction on the number of keys to draw. -/
theorem sampleLoop (population : List Bytes) (count : ℕ) : ∀ s : DbState S,
    WatchersKept s (DbState.sampleLoop population count s).2 := by
  induction count with
  | zero => exact refl
  | succ count ih =>
    intro s
    unfold DbState.sampleLoop
    split
    · exact refl s
    · exact trans (t := { s with random := fun k => s.random (k + 1) }) (of_eq rfl rfl) (ih _)

/-- By induction on the samples. -/
theorem expireLoop (samples : ℕ) : ∀ (entries : List (Bytes × ℤ)) (s : DbState S),
    WatchersKept s (DbState.expireLoop samples entries s).2 := by
  induction samples with
  | zero => exact fun _ => refl
  | succ samples ih =>
    intro entries s
    cases entries with
    | nil => exact refl s
    | cons e rest =>
      obtain ⟨key, deadline⟩ := e
      -- the clock is read for each entry
      have hread : WatchersKept s s.now.2 := of_eq rfl rfl
      unfold DbState.expireLoop
      simp only
      refine hread.trans ?_
      split
      · refine trans ?_ (ih rest _)
        cases s.now.2.db.data.lookup key with
        | none => exact of_eq rfl rfl
        | some obj => exact (removed _ key obj).trans (of_eq rfl rfl)
      · exact ih rest _

/-- By induction on the entries. -/
theorem foldl_release (entries : List (Sigma fun _ : Bytes => RedisObject S)) : ∀ s : DbState S,
    WatchersKept s (entries.foldl (fun s e => s.release e.1 e.2) s) := by
  induction entries with
  | nil => exact refl
  | cons e rest ih =>
    intro s
    exact trans (t := s.release e.1 e.2) (of_eq rfl rfl) (ih _)

/-- All objects go at once, and who watches them is not flagged. -/
theorem flushDb (s : DbState S) : WatchersKept s s.flushDb := by
  have hrelease := foldl_release s.db.data.entries s
  refine hrelease.trans ⟨rfl, fun id hid => ?_⟩
  rcases List.mem_append.mp hid with hwatcher | hold
  · obtain ⟨e, he, hmem⟩ := List.mem_flatMap.mp hwatcher
    exact .inr ⟨e.1, e.2, AList.mem_lookup_iff.mpr he, hmem⟩
  · exact .inl hold

end WatchersKept

/-! ### Any access -/

variable [Platform]

/-- **Any access**, one case for each method. -/
theorem Call.watchersKept {s t : DbState S} (h : Call s t) : WatchersKept s t := by
  cases h with
  | getObject => exact .getObject _ _
  | putObject => exact .of_eq rfl rfl
  | setObject => exact .store _ _ _
  | set => exact .store _ _ _
  | get => exact .get _ _
  | del => exact .del _ _
  | contains => exact .contains _ _
  | type => exact .type _ _
  | rename => exact .rename _ _ _
  | incrby => exact .incrby _ _ _
  | append => exact .append _ _ _
  | setExpiry => exact .setExpiry _ _ _
  | setExpiryAt => exact .setExpiryAt _ _ _
  | pttl => exact .pttl _ _
  | persist => exact .of_eq rfl rfl
  | keys => exact .keysLoop _ _ _
  | flushDb => exact .flushDb _
  | activeExpireCycle => exact .expireLoop _ _ _
  | randomSample => exact .sampleLoop _ _ _

/-- Any number of accesses. -/
theorem Calls.watchersKept {s t : DbState S} (h : Calls s t) : WatchersKept s t := by
  induction h with
  | refl => exact .refl s
  | tail _ hcall ih => exact ih.trans hcall.watchersKept

/-- Any number of accesses leaves `watchedKeys_` alone. -/
theorem Calls.watchedKeys {s t : DbState S} (h : Calls s t) :
    t.db.watchedKeys = s.db.watchedKeys := h.watchersKept.watchedKeys

end DbState

/-! ### Files -/

namespace Rdb

/-- `WatchersKept` of all databases. -/
structure WatchersKept (databases : List (Database S)) (env : Env) (databases' : List (Database S))
    (env' : Env) : Prop where
  watchedKeys : databases'.map Database.watchedKeys = databases.map Database.watchedKeys
  flagged : ∀ id ∈ env'.flagged, id ∈ env.flagged ∨ ∃ watchers ∈ databases.map Database.watchedKeys,
    ∃ key clients, watchers.lookup key = some clients ∧ id ∈ clients

namespace WatchersKept

variable {databases databases' databases'' : List (Database S)} {env env' env'' : Env} {db : Database S}
  {s : DbState S}

theorem refl (databases : List (Database S)) (env : Env) : WatchersKept databases env databases env :=
  ⟨rfl, fun _ => .inl⟩

theorem trans (h : WatchersKept databases env databases' env')
    (h' : WatchersKept databases' env' databases'' env'') : WatchersKept databases env databases'' env'' :=
  ⟨h'.watchedKeys.trans h.watchedKeys, fun id hid => by
    rcases h'.flagged id hid with hmid | hwatches
    · exact h.flagged id hmid
    · exact .inr (h.watchedKeys ▸ hwatches)⟩

theorem cons (h : DbState.WatchersKept { env with db := db } s)
    (hrest : WatchersKept databases s.toEnv databases' env') :
    WatchersKept (db :: databases) env (s.db :: databases') env' :=
  ⟨by rw [List.map_cons, List.map_cons, hrest.watchedKeys, h.watchedKeys], fun id hid => by
    rcases hrest.flagged id hid with hmid | ⟨watchers, hmem, hwatches⟩
    · exact (h.flagged id hmid).imp_right fun hwatches => ⟨_, List.mem_cons_self, hwatches⟩
    · exact .inr ⟨watchers, List.mem_cons_of_mem _ hmem, hwatches⟩⟩

theorem set {i : ℕ} (h : DbState.WatchersKept { env with db := db } s) (hdb : databases[i]? = some db) :
    WatchersKept databases env (databases.set i s.db) s.toEnv := by
  obtain ⟨hlt, rfl⟩ := List.getElem?_eq_some_iff.mp hdb
  refine ⟨List.ext_getElem (by simp) fun j _ hj => ?_, fun id hid => ?_⟩
  · rw [List.getElem_map, List.getElem_map, List.getElem_set]
    split
    · next heq =>
      subst heq
      exact h.watchedKeys
    · rfl
  · exact (h.flagged id hid).imp_right fun hwatches =>
      ⟨_, List.mem_map_of_mem (List.getElem_mem hlt), hwatches⟩

end WatchersKept

variable [Platform] [Double S] [Inhabited S]

/-- Saving a key looks it up. -/
theorem watchersKept_saveKey (w : Writer) : s.WatchersKept (saveKey key w s).2 := by
  have hget := DbState.WatchersKept.getObject s key
  unfold saveKey
  rcases hx : s.getObject key with ⟨obj, t⟩
  rw [hx] at hget
  cases obj with
  | none => exact hget
  | some obj =>
    have hpttl := hget.trans (.pttl t key)
    simp only
    split
    · exact hpttl.trans (.of_eq rfl rfl)
    · exact hpttl

/-- By induction on the keys. -/
theorem watchersKept_saveKeys (keys : List Bytes) : ∀ (w : Writer) (s : DbState S),
    s.WatchersKept (saveKeys keys w s).2 := by
  induction keys with
  | nil => exact fun _ s => .refl s
  | cons key keys ih => exact fun w s => (watchersKept_saveKey w).trans (ih _ _)

/-- The keys of a database are saved one after another. -/
theorem watchersKept_saveDatabase (i : ℕ) (w : Writer) : s.WatchersKept (saveDatabase i w s).2 := by
  unfold saveDatabase
  split
  · exact .refl s
  · exact (DbState.WatchersKept.keysLoop _ _ s).trans (watchersKept_saveKeys _ _ _)

/-- By induction on the databases. -/
theorem watchersKept_saveDatabases (databases : List (Database S)) : ∀ (i : ℕ) (w : Writer) (env : Env),
    WatchersKept databases env (saveDatabases i databases w env).2.1 (saveDatabases i databases w env).2.2 := by
  induction databases with
  | nil => exact fun _ _ env => .refl [] env
  | cons db rest ih => exact fun i w env => .cons (watchersKept_saveDatabase i w) (ih _ _ _)

/-- **Saving** leaves the watchers alone. -/
theorem watchersKept_saveToFile (opens : Bool) (databases : List (Database S)) (env : Env) :
    WatchersKept databases env (saveToFile opens databases env).2.2.1
      (saveToFile opens databases env).2.2.2 := by
  unfold saveToFile
  split
  · exact .refl databases env
  · exact watchersKept_saveDatabases databases 0 _ env

/-- The tables of watchers are the same after it. -/
theorem watchedKeys_saveToFile (opens : Bool) (databases : List (Database S)) (env : Env) :
    (saveToFile opens databases env).2.2.1.map Database.watchedKeys
      = databases.map Database.watchedKeys :=
  (watchersKept_saveToFile opens databases env).watchedKeys

omit [Double S] [Inhabited S] in
/-- By induction on the databases. -/
theorem watchersKept_flushAll (databases : List (Database S)) : ∀ env : Env,
    WatchersKept databases env (flushAll databases env).1 (flushAll databases env).2 := by
  induction databases with
  | nil => exact fun env => .refl [] env
  | cons db rest ih => exact fun env => .cons (.flushDb _) (ih _)

omit [Double S] [Inhabited S] in
/-- A key that is loaded is stored. -/
theorem watchersKept_storeKey {st : LoadState S} {db : Database S}
    (hdb : st.databases[st.currentDb.toNat]? = some db) (value : Option (Value S)) :
    WatchersKept st.databases st.env (st.storeKey db key value).databases (st.storeKey db key value).env := by
  refine .set ?_ hdb
  cases value with
  | none =>
    simp only
    split
    · exact .setExpiryAt _ key _
    · exact .refl _
  | some v =>
    simp only
    split
    · exact (DbState.WatchersKept.store _ key _).trans (.setExpiryAt _ key _)
    · exact .store _ key _

variable [LT S] [DecidableLT S] [BEq S]

/-- Reading a key changes the databases by storing it, if at all. -/
theorem loadKey_stores {opcode : UInt8} {st st' : LoadState S} {r r' : Reader}
    (h : loadKey opcode st r = .ok (st', r')) :
    st'.databases = st.databases ∧ st'.env = st.env ∨
      ∃ db key value, st.databases[st.currentDb.toNat]? = some db ∧
        st'.databases = (st.storeKey db key value).databases ∧
        st'.env = (st.storeKey db key value).env := by
  unfold loadKey at h
  cases hkey : r.readString with
  | error e => rw [hkey] at h; cases h
  | ok x =>
    obtain ⟨key, r₁⟩ := x
    rw [hkey] at h
    -- a key is read first, then it is decided whether the database is there
    change (if _ then _ else _) = _ at h
    split at h
    · cases h; exact .inl ⟨rfl, rfl⟩
    · split at h
      · cases h
      · cases hdb : st.databases[st.currentDb.toNat]? with
        | none => rw [hdb] at h; cases h
        | some db =>
          rw [hdb] at h
          simp only at h
          cases hv : @loadValue S _ _ _ _ _ _ (st.seeds 0) opcode r₁ with
          | error e => rw [hv] at h; cases h
          | ok y =>
            rw [hv] at h
            cases h
            exact .inr ⟨db, key, _, rfl, rfl, rfl⟩

/-- So what an opcode does to the databases is to store a key, if anything. -/
theorem loadOpcode_stores {opcode : UInt8} {st st' : LoadState S} {r r' : Reader}
    (h : loadOpcode opcode st r = .ok (st', r')) :
    st'.databases = st.databases ∧ st'.env = st.env ∨
      ∃ db key value, st.databases[st.currentDb.toNat]? = some db ∧
        st'.databases = (st.storeKey db key value).databases ∧
        st'.env = (st.storeKey db key value).env := by
  unfold loadOpcode at h
  split at h
  · cases h; exact .inl ⟨rfl, rfl⟩
  · split at h
    · cases h; exact .inl ⟨rfl, rfl⟩
    · split at h
      · cases h; exact .inl ⟨rfl, rfl⟩
      · split at h
        · cases h; exact .inl ⟨rfl, rfl⟩
        · exact loadKey_stores h

/-- **What storing a key preserves, loading preserves.** By induction on the turns of the loop. -/
theorem loadLoop_preserves {P : List (Database S) → Env → Prop}
    (hstore : ∀ (st : LoadState S) (db : Database S) (key : Bytes) (value : Option (Value S)),
      st.databases[st.currentDb.toNat]? = some db → P st.databases st.env →
        P (st.storeKey db key value).databases (st.storeKey db key value).env)
    (fuel : ℕ) : ∀ {st st' : LoadState S} {r r' : Reader},
    loadLoop fuel st r = .ok (st', r') → P st.databases st.env → P st'.databases st'.env := by
  induction fuel with
  | zero => intro st st' r r' h hst; cases h; exact hst
  | succ fuel ih =>
    intro st st' r r' h hst
    unfold loadLoop at h
    split at h
    · cases h; exact hst
    · simp only at h
      split at h
      · cases h; exact hst
      · cases hop : loadOpcode r.readByte.1 st r.readByte.2 with
        | error e => rw [hop] at h; cases h
        | ok x =>
          rw [hop] at h
          refine ih h ?_
          -- an opcode stores one value at most, and otherwise changes neither databases nor environment
          rcases loadOpcode_stores hop with ⟨hdatabases, henv⟩ | ⟨db, key, value, hdb, hdatabases, henv⟩
          · exact hdatabases ▸ henv ▸ hst
          · exact hdatabases ▸ henv ▸ hstore st db key value hdb hst

/-- The databases change by a relation that storing a key is in. -/
theorem loadLoop_databases {R : List (Database S) → List (Database S) → Prop} (hrefl : ∀ dbs, R dbs dbs)
    (htrans : ∀ {dbs dbs' dbs''}, R dbs dbs' → R dbs' dbs'' → R dbs dbs'')
    (hstore : ∀ (st : LoadState S) (db : Database S) (key : Bytes) (value : Option (Value S)),
      st.databases[st.currentDb.toNat]? = some db →
        R st.databases (st.storeKey db key value).databases)
    (fuel : ℕ) {st st' : LoadState S} {r r' : Reader}
    (h : loadLoop fuel st r = .ok (st', r')) : R st.databases st'.databases :=
  loadLoop_preserves (P := fun dbs _ => R st.databases dbs)
    (fun st' db key value hdb hst => htrans hst (hstore st' db key value hdb)) fuel h (hrefl _)

/-- All that is loaded is stored. -/
theorem watchersKept_loadLoop (fuel : ℕ) {st st' : LoadState S} {r r' : Reader}
    (h : loadLoop fuel st r = .ok (st', r')) : WatchersKept st.databases st.env st'.databases st'.env :=
  loadLoop_preserves (P := WatchersKept st.databases st.env)
    (fun _ _ _ value hdb hst => hst.trans (watchersKept_storeKey hdb value)) fuel h (.refl _ _)

/-- **Loading** empties the databases first, and then stores. -/
theorem watchersKept_loadFromFile {file : Option Bytes} {junk : ℕ → UInt8} {seeds : ℕ → ℕ → Height}
    {databases databases' : List (Database S)} {env env' : Env} {result : Bool}
    (h : loadFromFile file junk seeds databases env = .ok (result, databases', env')) :
    WatchersKept databases env databases' env' := by
  unfold loadFromFile at h
  cases file with
  | none => cases h; exact .refl _ _
  | some contents =>
    simp only at h
    split at h
    · cases h; exact .refl _ _
    · split at h
      · cases h
      · next st r hloop =>
        cases h
        exact (watchersKept_flushAll databases env).trans (watchersKept_loadLoop _ hloop)

end Rdb

end RedisDb

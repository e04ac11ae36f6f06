import RedisDb.Storage.WatchedKeys

/-!
# The account of the memory

`usedMemory_` is to be what the estimates give for all keys with their objects. Every method of a database keeps it
so: what it takes away from `data_` it gives back to the `MemoryManager`, and what it stores it adds. The pointer that
`getObjectForWrite` returns does not: an object that is changed through it has another estimate, and nobody tells the
`MemoryManager`.

The invariant (`Balanced`) is a balance with the changes in place on it, each with the estimates before and after:
what is in use, and what the changed objects came to amount to, is the sum of all estimates, and what they amounted
to before. It holds as long as `freeMemory` does not stop at zero, which it does not where each change has kept the
estimate. The account is one for all databases, so what is proved of a database is proved with what the other
databases amount to (`DbState.Accounts`).
-/

namespace RedisDb

open MemoryManager

/-- What there is on the account: the memory in use, whether `freeMemory` has stopped at zero, and the changes in
place. -/
def Env.account (env : Env) : ℕ × Bool × List InPlace :=
  (env.memory.usedMemory, env.memory.clamped, env.inPlace)

/-- What the estimates gave for the objects that have been changed in place, before each change. -/
def Env.before (env : Env) : ℕ := (env.inPlace.map InPlace.before).sum

/-- What the estimates gave for them after it. -/
def Env.after (env : Env) : ℕ := (env.inPlace.map InPlace.after).sum

/-- Each change in place has kept the estimate. -/
def Env.KeepsSizes (env : Env) : Prop := ∀ w ∈ env.inPlace, w.before = w.after

/-- **The balance**, with `n` as what all estimates give. -/
structure Balanced (n : ℕ) (env : Env) : Prop where
  balance : env.memory.clamped = false → env.memory.usedMemory + env.after = n + env.before
  clamped : env.KeepsSizes → env.memory.clamped = false

namespace Balanced

variable {n b : ℕ} {env env' : Env}

/-- The balance goes by the account. -/
theorem of_account (h : Balanced n env) (haccount : env'.account = env.account) : Balanced n env' := by
  obtain ⟨hused, hrest⟩ := Prod.mk.inj haccount
  obtain ⟨hclamped, hinPlace⟩ := Prod.mk.inj hrest
  refine ⟨fun hno => ?_, fun hkeeps => ?_⟩
  · rw [hused, Env.after, Env.before, hinPlace]
    exact h.balance (hclamped ▸ hno)
  · rw [hclamped]
    exact h.clamped (by rwa [Env.KeepsSizes, hinPlace] at hkeeps)

/-- Where each change has kept the estimate, what is in use is what the estimates give. -/
theorem usedMemory_eq (h : Balanced n env) (hkeeps : env.KeepsSizes) : env.memory.usedMemory = n := by
  have hsame : env.before = env.after := congrArg List.sum (List.map_congr_left hkeeps)
  have hbalance := h.balance (h.clamped hkeeps)
  rw [hsame] at hbalance
  exact Nat.add_right_cancel hbalance

/-- What is not there any more is given back. -/
theorem freeMemory (h : Balanced (n + b) env) : Balanced n { env with memory := env.memory.freeMemory b } where
  balance hno := by
    obtain ⟨hclamped, hle⟩ := Bool.or_eq_false_iff.mp hno
    have hbalance := h.balance hclamped
    have hle := of_decide_eq_false hle
    show env.memory.usedMemory - b + env.after = n + env.before
    omega
  clamped hkeeps := by
    have hused := h.usedMemory_eq hkeeps
    exact Bool.or_eq_false_iff.mpr ⟨h.clamped hkeeps, decide_eq_false (by omega)⟩

/-- What is new is added. -/
theorem addMemory (h : Balanced n env) : Balanced (n + b) { env with memory := env.memory.addMemory b } where
  balance hno := by
    have hbalance := h.balance hno
    show env.memory.usedMemory + b + env.after = n + b + env.before
    omega
  clamped := h.clamped

end Balanced

variable {S : Type} [Platform]

/-- What the estimates give for a database. -/
def Database.footprint (db : Database S) : ℕ := UnorderedMap.total entrySize db.data

/-- The balance of all databases. -/
def Accounted (databases : List (Database S)) (env : Env) : Prop :=
  Balanced (databases.map Database.footprint).sum env

/-- The same, of one database, where the others amount to `rest`. -/
def DbState.Accounts (rest : ℕ) (s : DbState S) : Prop := Balanced (rest + s.db.footprint) s.toEnv

namespace DbState

variable {rest : ℕ} {s t : DbState S} {key : Bytes}

/-! ### One method after another -/

namespace Accounts

/-- A step that leaves the objects and the account alone. -/
theorem of_eq (h : s.Accounts rest) (hdata : t.db.data = s.db.data) (hmemory : t.memory = s.memory)
    (hinPlace : t.inPlace = s.inPlace) : t.Accounts rest := by
  rw [Accounts, Database.footprint, hdata]
  exact Balanced.of_account h (by rw [Env.account, Env.account, hmemory, hinPlace])

/-- To touch a key is to flag clients. -/
theorem touchWatchedKey (h : s.Accounts rest) (key : Bytes) : (s.touchWatchedKey key).Accounts rest := by
  unfold DbState.touchWatchedKey
  split
  · exact h
  · exact h.of_eq rfl rfl rfl

/-- A look at the clock costs nothing. -/
theorem isExpired (h : s.Accounts rest) (key : Bytes) : (s.isExpired key).2.Accounts rest := by
  unfold DbState.isExpired
  split
  · exact h
  · exact h.of_eq rfl rfl rfl

/-- An object is taken out of `data_` with its key, and their memory is given back. -/
theorem remove {obj : RedisObject S} (h : s.Accounts rest) (hobj : s.db.data.lookup key = some obj) :
    ((s.release key obj).eraseData key).Accounts rest := by
  have htotal : s.db.footprint = entrySize key obj + ((s.release key obj).eraseData key).db.footprint :=
    UnorderedMap.total_erase entrySize hobj
  have hsum : rest + s.db.footprint = rest + ((s.release key obj).eraseData key).db.footprint
      + estimateStringSize key + estimateObjectSize obj := by
    rw [htotal, entrySize]
    omega
  rw [Accounts, hsum] at h
  exact h.freeMemory.freeMemory

/-- The end of every method that stores an object. -/
theorem touched (h : s.Accounts rest) (key : Bytes) :
    (((s.eraseExpires key).touchWatchedKey key).markDirty).Accounts rest := by
  have herased : (s.eraseExpires key).Accounts rest := h.of_eq rfl rfl rfl
  exact (herased.touchWatchedKey key).of_eq rfl rfl rfl

/-- An object takes the place of another with its key, and so does its estimate. -/
theorem replace {obj old : RedisObject S} (h : s.Accounts rest) (hold : s.db.data.lookup key = some old) :
    (((s.freeMemory (estimateObjectSize old)).addMemory (estimateObjectSize obj)).writeBack key
      obj).Accounts rest := by
  have hwithout : s.db.footprint = entrySize key old + UnorderedMap.total entrySize (s.db.data.erase key) :=
    UnorderedMap.total_erase entrySize hold
  have hwith : UnorderedMap.total entrySize (s.db.data.insert key obj)
      = entrySize key obj + UnorderedMap.total entrySize (s.db.data.erase key) :=
    UnorderedMap.total_insert entrySize obj
  -- what the write has nothing to do with
  obtain ⟨others, hothers⟩ : ∃ others, others = rest + estimateStringSize key
      + UnorderedMap.total entrySize (s.db.data.erase key) := ⟨_, rfl⟩
  have hbefore : rest + s.db.footprint = others + estimateObjectSize old := by
    rw [hwithout, entrySize]
    omega
  have hafter : rest + UnorderedMap.total entrySize (s.db.data.insert key obj) = others + estimateObjectSize obj := by
    rw [hwith, entrySize]
    omega
  rw [Accounts, hbefore] at h
  have hreplaced : Balanced (others + estimateObjectSize obj)
      ((s.freeMemory (estimateObjectSize old)).addMemory (estimateObjectSize obj)).toEnv := h.freeMemory.addMemory
  rwa [← hafter] at hreplaced

/-- An object is stored, in the place of another or with a new key. -/
theorem store (h : s.Accounts rest) (key : Bytes) (obj : RedisObject S) :
    (s.store key obj).Accounts rest := by
  unfold DbState.store
  cases hold : s.db.data.lookup key with
  | some old =>
    refine touched ?_ key
    exact (h.replace hold).of_eq rfl rfl rfl
  | none =>
    refine touched ?_ key
    -- a new key is counted with its object
    obtain ⟨new, hnew⟩ : ∃ new, new = obj.updateLruClock s.memory.lruClock := ⟨_, rfl⟩
    have hwith : rest + UnorderedMap.total entrySize (s.db.data.insert key new)
        = rest + s.db.footprint + estimateStringSize key + estimateObjectSize new := by
      rw [UnorderedMap.total_insert, UnorderedMap.total_erase_of_none entrySize hold, entrySize, Database.footprint]
      omega
    have hstored : Balanced (rest + s.db.footprint + estimateStringSize key + estimateObjectSize new)
        ((s.addMemory (estimateStringSize key)).addMemory (estimateObjectSize new)).toEnv := h.addMemory.addMemory
    rw [← hwith, hnew] at hstored
    exact hstored

/-- What expiring a key and evicting it share. -/
theorem removed {obj : RedisObject S} (h : s.Accounts rest) (hobj : s.db.data.lookup key = some obj) :
    (((s.release key obj).eraseData key).touchWatchedKey key).Accounts rest :=
  (h.remove hobj).touchWatchedKey key

/-- A key that has expired is given back. -/
theorem checkAndExpire (h : s.Accounts rest) (key : Bytes) : (s.checkAndExpire key).2.Accounts rest := by
  have hread := h.isExpired key
  unfold DbState.checkAndExpire
  rcases hx : s.isExpired key with ⟨expired, t⟩
  rw [hx] at hread
  cases expired with
  | false => exact hread
  | true =>
    simp only [if_true]
    cases hobj : t.db.data.lookup key with
    | none => exact hread.of_eq rfl rfl rfl
    | some obj => exact (hread.removed hobj).of_eq rfl rfl rfl

/-- An object that is read gets another time of access, and keeps its estimate. -/
theorem getObject (h : s.Accounts rest) (key : Bytes) : (s.getObject key).2.Accounts rest := by
  have hcheck := h.checkAndExpire key
  unfold DbState.getObject
  rcases hx : s.checkAndExpire key with ⟨expired, t⟩
  rw [hx] at hcheck
  cases expired with
  | true => exact hcheck
  | false =>
    simp only [Bool.false_eq_true, if_false]
    cases hobj : t.db.data.lookup key with
    | none => exact hcheck.of_eq rfl rfl rfl
    | some obj =>
      -- only the clock of the object changes, and the estimate does not go by it
      have hsame : entrySize key obj = entrySize key (obj.updateLruClock t.memory.lruClock) := rfl
      have hreplace := UnorderedMap.total_replace entrySize hobj
        (v := obj.updateLruClock t.memory.lruClock)
      rw [hsame] at hreplace
      rw [Accounts, Database.footprint, ← Nat.add_right_cancel hreplace] at hcheck
      exact hcheck

/-- What `get` finds expired is given back. -/
theorem get (h : s.Accounts rest) (key : Bytes) : (s.get key).2.Accounts rest := by
  have hget := h.getObject key
  unfold DbState.get
  rcases hx : s.getObject key with ⟨obj, t⟩
  rw [hx] at hget
  simp only
  split <;> exact hget

/-- So it is with `contains`. -/
theorem contains (h : s.Accounts rest) (key : Bytes) : (s.contains key).2.Accounts rest := by
  have hcheck := h.checkAndExpire key
  unfold DbState.contains
  rcases hx : s.checkAndExpire key with ⟨expired, t⟩
  rw [hx] at hcheck
  cases expired <;> exact hcheck

/-- So it is with `type`. -/
theorem type (h : s.Accounts rest) (key : Bytes) : (s.type key).2.Accounts rest := by
  have hcheck := h.checkAndExpire key
  unfold DbState.type
  rcases hx : s.checkAndExpire key with ⟨expired, t⟩
  rw [hx] at hcheck
  cases expired with
  | true => exact hcheck
  | false =>
    simp only [Bool.false_eq_true, if_false]
    cases t.db.data.lookup key <;> exact hcheck

/-- What is deleted is given back. -/
theorem del (h : s.Accounts rest) (key : Bytes) : (s.del key).2.Accounts rest := by
  have herased : (s.eraseExpires key).Accounts rest := h.of_eq rfl rfl rfl
  unfold DbState.del
  simp only
  cases hobj : (s.eraseExpires key).db.data.lookup key with
  | none => exact herased
  | some obj => exact (herased.removed hobj).of_eq rfl rfl rfl

/-- What is under the new key goes, and the object is stored there. -/
theorem rename (h : s.Accounts rest) (oldKey newKey : Bytes) :
    (s.rename oldKey newKey).2.Accounts rest := by
  unfold DbState.rename
  cases hold : s.db.data.lookup oldKey with
  | none => exact h
  | some value =>
    refine store ?_ newKey value
    refine touchWatchedKey ?_ oldKey
    have hremoved := h.remove hold
    simp only
    split <;> exact hremoved.of_eq rfl rfl rfl

/-- A number is stored. -/
theorem incrby (h : s.Accounts rest) (key : Bytes) (increment : ℤ) :
    (s.incrby key increment).2.Accounts rest := by
  unfold DbState.incrby
  simp only
  split
  · exact h
  · split
    · exact h
    · exact h.store key _

/-- `append` gives the string back and adds the longer one. -/
theorem append (h : s.Accounts rest) (key value : Bytes) : (s.append key value).2.Accounts rest := by
  unfold DbState.append
  cases hold : s.db.data.lookup key with
  | none => exact h.store key _
  | some obj =>
    simp only
    split
    · exact (h.replace hold).of_eq rfl rfl rfl
    · exact h

/-- **An object that is written back** goes onto the balance with what it amounted to before. -/
theorem putObject (h : s.Accounts rest) (key : Bytes) (obj : RedisObject S) :
    (s.putObject key obj).Accounts rest := by
  -- what the estimate was for the object before, which the event keeps
  obtain ⟨old, hold⟩ : ∃ old, old = (s.db.data.lookup key).elim 0 (entrySize key) := ⟨_, rfl⟩
  have htotal : UnorderedMap.total entrySize (s.db.data.insert key obj) + old
      = s.db.footprint + entrySize key obj := by
    cases hlookup : s.db.data.lookup key with
    | none =>
      rw [hold, hlookup, Option.elim_none, UnorderedMap.total_insert,
        UnorderedMap.total_erase_of_none entrySize hlookup, Database.footprint]
      omega
    | some obj' =>
      rw [hold, hlookup, Option.elim_some]
      exact UnorderedMap.total_replace entrySize hlookup
  refine ⟨fun hno => ?_, fun hkeeps => ?_⟩
  · -- the account is not changed, and so the difference is one of the changes in place
    have hbalance := h.balance hno
    show s.memory.usedMemory + (entrySize key obj + s.after)
      = rest + UnorderedMap.total entrySize (s.db.data.insert key obj)
        + ((s.db.data.lookup key).elim 0 (entrySize key) + s.before)
    rw [← hold]
    omega
  · exact h.clamped fun w hw => hkeeps w (List.mem_cons_of_mem _ hw)

/-- A deadline is not on the account. -/
theorem setExpiry (h : s.Accounts rest) (key : Bytes) (milliseconds : ℤ) :
    (s.setExpiry key milliseconds).2.Accounts rest := by
  unfold DbState.setExpiry
  split
  · exact h
  · exact h.of_eq rfl rfl rfl

/-- The same. -/
theorem setExpiryAt (h : s.Accounts rest) (key : Bytes) (timestampMs : ℤ) :
    (s.setExpiryAt key timestampMs).2.Accounts rest := by
  unfold DbState.setExpiryAt
  split
  · exact h
  · exact h.of_eq rfl rfl rfl

/-- Nor is the time that is left. -/
theorem pttl (h : s.Accounts rest) (key : Bytes) : (s.pttl key).2.Accounts rest := by
  unfold DbState.pttl
  split
  · exact h
  · cases s.db.expires.lookup key with
    | none => exact h
    | some deadline => exact h.of_eq rfl rfl rfl

/-- By induction on the keys. -/
theorem keysLoop (pattern : Bytes) (keys : List Bytes) : ∀ {s : DbState S}, s.Accounts rest →
    (DbState.keysLoop pattern keys s).2.Accounts rest := by
  induction keys with
  | nil => exact fun h => h
  | cons key keys ih =>
    intro s h
    have hrest := ih (h.isExpired key)
    unfold DbState.keysLoop
    simp only
    split <;> exact hrest

/-- By induction on the keys that are drawn. -/
theorem sampleLoop (population : List Bytes) (count : ℕ) : ∀ {s : DbState S}, s.Accounts rest →
    (DbState.sampleLoop population count s).2.Accounts rest := by
  induction count with
  | zero => exact fun h => h
  | succ count ih =>
    intro s h
    have hdrawn : DbState.Accounts rest { s with random := fun k => s.random (k + 1) } :=
      h.of_eq rfl rfl rfl
    unfold DbState.sampleLoop
    split
    · exact h
    · exact ih hdrawn

/-- By induction on the entries of `expires_`. -/
theorem expireLoop (entries : List (Bytes × ℤ)) : ∀ (samples : ℕ) {s : DbState S}, s.Accounts rest →
    (DbState.expireLoop samples entries s).2.Accounts rest := by
  induction entries with
  | nil =>
    intro samples s h
    cases samples <;> exact h
  | cons e entries ih =>
    intro samples s h
    cases samples with
    | zero => exact h
    | succ samples =>
      obtain ⟨key, deadline⟩ := e
      -- reading the clock is no matter of memory
      have hread : s.now.2.Accounts rest := h.of_eq rfl rfl rfl
      unfold DbState.expireLoop
      simp only
      split
      · refine ih samples ?_
        cases hobj : s.now.2.db.data.lookup key with
        | none => exact hread.of_eq rfl rfl rfl
        | some obj => exact (hread.removed hobj).of_eq rfl rfl rfl
      · exact ih samples hread

/-- The loop of `flushDb` gives back what the entries amount to. By induction on them. -/
theorem foldl_release (entries : List (Sigma fun _ : Bytes => RedisObject S)) : ∀ {s : DbState S},
    Balanced (rest + (entries.map fun e => entrySize e.1 e.2).sum) s.toEnv →
    Balanced rest (entries.foldl (fun s e => s.release e.1 e.2) s).toEnv := by
  induction entries with
  | nil => exact fun h => h
  | cons e entries ih =>
    intro s h
    have hsum : rest + (List.map (fun e => entrySize e.1 e.2) (e :: entries)).sum
        = rest + (entries.map fun e => entrySize e.1 e.2).sum + estimateStringSize e.1
          + estimateObjectSize e.2 := by
      rw [List.map_cons, List.sum_cons, entrySize]
      omega
    rw [hsum] at h
    exact ih h.freeMemory.freeMemory

/-- A flush gives back everything. -/
theorem flushDb (h : s.Accounts rest) : s.flushDb.Accounts rest :=
  Balanced.of_account (n := rest) (foldl_release s.db.data.entries h) rfl

end Accounts

/-- **Every access keeps the account.** -/
theorem Call.accounts (h : Call s t) (hs : s.Accounts rest) : t.Accounts rest := by
  cases h with
  | getObject => exact hs.getObject _
  | putObject => exact hs.putObject _ _
  | setObject => exact hs.store _ _
  | set => exact hs.store _ _
  | get => exact hs.get _
  | del => exact hs.del _
  | contains => exact hs.contains _
  | type => exact hs.type _
  | rename => exact hs.rename _ _
  | incrby => exact hs.incrby _ _
  | append => exact hs.append _ _
  | setExpiry => exact hs.setExpiry _ _
  | setExpiryAt => exact hs.setExpiryAt _ _
  | pttl => exact hs.pttl _
  | persist => exact hs.of_eq rfl rfl rfl
  | keys => exact hs.keysLoop _ _
  | flushDb => exact hs.flushDb
  | activeExpireCycle => exact hs.expireLoop _ _
  | randomSample => exact hs.sampleLoop _ _

/-- So do any number of them. -/
theorem Calls.accounts (h : Calls s t) (hs : s.Accounts rest) : t.Accounts rest := by
  induction h with
  | refl => exact hs
  | tail _ hcall ih => exact hcall.accounts ih

end DbState

/-! ### All databases -/

/-- The balance of some databases, where others amount to `rest`. -/
def AccountedBeside (rest : ℕ) (databases : List (Database S)) (env : Env) : Prop :=
  Balanced (rest + (databases.map Database.footprint).sum) env

/-- Beside nothing. -/
theorem accountedBeside_zero {databases : List (Database S)} {env : Env} :
    AccountedBeside 0 databases env ↔ Accounted databases env := by
  rw [AccountedBeside, Accounted, Nat.zero_add]

/-- The first database is counted with the rest. -/
theorem accountedBeside_cons {rest : ℕ} {db : Database S} {databases : List (Database S)} {env : Env} :
    AccountedBeside rest (db :: databases) env ↔
      AccountedBeside (rest + db.footprint) databases env := by
  rw [AccountedBeside, AccountedBeside, List.map_cons, List.sum_cons, Nat.add_assoc]

/-- The first database keeps the account with what the others amount to. -/
theorem AccountedBeside.accounts {rest : ℕ} {db : Database S} {databases : List (Database S)} {env : Env}
    (h : AccountedBeside rest (db :: databases) env) :
    DbState.Accounts (rest + (databases.map Database.footprint).sum) { env with db := db } := by
  rw [accountedBeside_cons, AccountedBeside, Nat.add_right_comm] at h
  exact h

/-- The other way round. -/
theorem DbState.Accounts.beside {rest : ℕ} {databases : List (Database S)} {s : DbState S}
    (h : s.Accounts (rest + (databases.map Database.footprint).sum)) :
    AccountedBeside (rest + s.db.footprint) databases s.toEnv := by
  rw [DbState.Accounts, Nat.add_right_comm] at h
  exact h

/-- **One database changes**, and the others stay. By induction on the databases before it. -/
theorem AccountedBeside.set {databases : List (Database S)} {db : Database S} {env : Env} {t : DbState S} :
    ∀ {rest i : ℕ}, AccountedBeside rest databases env → databases[i]? = some db →
    (∀ rest, DbState.Accounts rest { env with db := db } → t.Accounts rest) →
    AccountedBeside rest (databases.set i t.db) t.toEnv := by
  induction databases with
  | nil => exact fun _ hdb => by cases hdb
  | cons first databases ih =>
    intro rest i h hdb hstep
    cases i with
    | zero =>
      obtain rfl := Option.some.inj hdb
      exact accountedBeside_cons.mpr (hstep _ h.accounts).beside
    | succ i => exact accountedBeside_cons.mpr (ih (accountedBeside_cons.mp h) hdb hstep)

/-- One of all databases changes. -/
theorem Accounted.set {databases : List (Database S)} {i : ℕ} {db : Database S} {env : Env} {t : DbState S}
    (h : Accounted databases env) (hdb : databases[i]? = some db)
    (hstep : ∀ rest, DbState.Accounts rest { env with db := db } → t.Accounts rest) :
    Accounted (databases.set i t.db) t.toEnv :=
  accountedBeside_zero.mp ((accountedBeside_zero.mpr h).set hdb hstep)

/-- The account goes by the objects. -/
theorem Accounted.of_data {databases databases' : List (Database S)} {env env' : Env}
    (h : Accounted databases env) (hdata : databases'.map Database.data = databases.map Database.data)
    (haccount : env'.account = env.account) : Accounted databases' env' := by
  have hsum (databases : List (Database S)) : databases.map Database.footprint
      = (databases.map Database.data).map (UnorderedMap.total entrySize) := by
    rw [List.map_map]
    rfl
  rw [Accounted, hsum databases', hdata, ← hsum]
  exact Balanced.of_account h haccount

/-! ### Files -/

namespace Rdb

section Save

variable [Double S] [Inhabited S] {rest : ℕ} {s : DbState S}

/-- Saving a key looks it up. -/
theorem accounts_saveKey (key : Bytes) (w : Writer) (h : s.Accounts rest) :
    (saveKey key w s).2.Accounts rest := by
  have hget := h.getObject key
  unfold saveKey
  rcases hx : s.getObject key with ⟨obj, t⟩
  rw [hx] at hget
  cases obj with
  | none => exact hget
  | some obj =>
    have hpttl := hget.pttl key
    simp only
    split
    · exact hpttl.of_eq rfl rfl rfl
    · exact hpttl

/-- By induction on the keys. -/
theorem accounts_saveKeys (keys : List Bytes) : ∀ (w : Writer) {s : DbState S}, s.Accounts rest →
    (saveKeys keys w s).2.Accounts rest := by
  induction keys with
  | nil => exact fun _ _ h => h
  | cons key keys ih => exact fun w s h => ih _ (accounts_saveKey key w h)

/-- The keys of a database are saved one after another. -/
theorem accounts_saveDatabase (i : ℕ) (w : Writer) (h : s.Accounts rest) :
    (saveDatabase i w s).2.Accounts rest := by
  unfold saveDatabase
  split
  · exact h
  · exact accounts_saveKeys _ _ (h.keysLoop _ _)

/-- By induction on the databases. -/
theorem accounted_saveDatabases (databases : List (Database S)) : ∀ (i : ℕ) (w : Writer) {rest : ℕ}
    {env : Env}, AccountedBeside rest databases env →
    AccountedBeside rest (saveDatabases i databases w env).2.1 (saveDatabases i databases w env).2.2 := by
  induction databases with
  | nil => exact fun _ _ _ _ h => h
  | cons db databases ih =>
    intro i w rest env h
    have hsaved := accounts_saveDatabase i w h.accounts
    exact accountedBeside_cons.mpr (ih (i + 1) _ hsaved.beside)

/-- **Saving keeps the account.** -/
theorem accounted_saveToFile {opens : Bool} {databases : List (Database S)} {env : Env}
    (h : Accounted databases env) :
    Accounted (saveToFile opens databases env).2.2.1 (saveToFile opens databases env).2.2.2 := by
  unfold saveToFile
  split
  · exact h
  · exact accountedBeside_zero.mp
      (accounted_saveDatabases databases 0 _ (accountedBeside_zero.mpr h))

end Save

/-- By induction on the databases. -/
theorem accounted_flushAll (databases : List (Database S)) : ∀ {rest : ℕ} {env : Env},
    AccountedBeside rest databases env →
    AccountedBeside rest (flushAll databases env).1 (flushAll databases env).2 := by
  induction databases with
  | nil => exact fun h => h
  | cons db databases ih =>
    intro rest env h
    exact accountedBeside_cons.mpr (ih h.accounts.flushDb.beside)

/-- A key that is loaded is stored, and so added. -/
theorem accounted_storeKey {st : LoadState S} {db : Database S} (key : Bytes) (value : Option (Value S))
    (hdb : st.databases[st.currentDb.toNat]? = some db) (h : Accounted st.databases st.env) :
    Accounted (st.storeKey db key value).databases (st.storeKey db key value).env := by
  refine h.set hdb fun rest hs => ?_
  cases value with
  | none =>
    simp only
    split
    · exact hs.setExpiryAt key _
    · exact hs
  | some value =>
    have hstored := hs.store key { value := value }
    simp only
    split
    · exact hstored.setExpiryAt key _
    · exact hstored

variable [Double S] [Inhabited S] [LT S] [DecidableLT S] [BEq S]

/-- **Loading keeps the account**: the databases are emptied first. -/
theorem accounted_loadFromFile {file : Option Bytes} {junk : ℕ → UInt8} {seeds : ℕ → ℕ → Height}
    {databases databases' : List (Database S)} {env env' : Env} {result : Bool}
    (h : loadFromFile file junk seeds databases env = .ok (result, databases', env'))
    (hs : Accounted databases env) : Accounted databases' env' := by
  unfold loadFromFile at h
  cases file with
  | none => cases h; exact hs
  | some contents =>
    simp only at h
    split at h
    · cases h; exact hs
    · split at h
      · cases h
      · next st r hloop =>
        cases h
        -- what was there before is given back first
        have hflushed := accountedBeside_zero.mp
          (accounted_flushAll databases (accountedBeside_zero.mpr hs))
        exact loadLoop_preserves (P := Accounted)
          (fun _ _ key value hdb hst => accounted_storeKey key value hdb hst) _ hloop hflushed

end Rdb

end RedisDb

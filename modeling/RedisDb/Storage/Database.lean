import RedisDb.Lib.UnorderedMap
import RedisDb.Server.MemoryManager

/-!
# `Database`

The keyspace: `data_`, `expires_` and `watchedKeys_`, with the methods of the source in their order.

A method reaches beyond its own object: it reads the system clock, keeps the account of the
`MemoryManager`, and sets a flag on the clients that watch a key. `Env` is all of this: the readings
of the clock still to come, so that two readings of one call can differ, and the clients flagged so
far. `random_device` is seen through the numbers it will draw. `DbState` is a database in its
environment.

A pointer that `getObjectForWrite` returns is used by `putObject`: the object is read, changed, and
written back in place.
-/

namespace RedisDb

/-- A client's identity. -/
abbrev ClientId := ℕ

variable {S : Type}

/-- `Database`. -/
structure Database (S : Type) where
  data : UnorderedMap Bytes (RedisObject S) := ∅
  expires : UnorderedMap Bytes ℤ := ∅
  watchedKeys : UnorderedMap Bytes (List ClientId) := ∅
  hits : ℕ := 0
  misses : ℕ := 0
  dirty : ℤ := 0

/-- What the methods of a database reach beyond it. -/
structure Env where
  memory : MemoryManager
  /-- The readings of `system_clock::now()`, in milliseconds since the epoch. -/
  clock : ℕ → ℤ
  /-- What the random number generators will draw. -/
  random : ℕ → ℕ
  /-- The clients on which `CLIENT_DIRTY_EXEC` has been set. -/
  flagged : List ClientId
  /-- The changes of objects in place: a history variable. -/
  inPlace : List InPlace := []

/-- An environment in which no time passes. -/
def idleEnv : Env := { memory := {}, clock := fun _ => 0, random := fun _ => 0, flagged := [] }

/-- A database in its environment. -/
structure DbState (S : Type) extends Env where
  db : Database S

namespace Database

/-- `size`. -/
def size (db : Database S) : ℕ := db.data.size

/-- `expiresSize`. -/
def expiresSize (db : Database S) : ℕ := db.expires.size

/-- `clone`: the objects are copied and the deadlines, and nothing else. The skip list of the sorted
set at a key draws its heights from the generator of that key. -/
def clone [Inhabited S] [LT S] [DecidableLT S] [BEq S] (db : Database S)
    (rng : Bytes → ℕ → Height) : Database S where
  data := db.data.mapVal fun key obj => obj.clone (rng key)
  expires := db.expires

/-- The clients of all entries of `watchedKeys_`. -/
def watchers (db : Database S) : List ClientId :=
  db.watchedKeys.entries.flatMap fun e : (_ : Bytes) × List ClientId => e.2

/-- The loop of `globMatch`, at suffixes of the pattern and the string; `star` holds the suffixes
behind the last `*` and at the position it was met. -/
def globLoop : ℕ → Bytes → Bytes → Option (Bytes × Bytes) → Bool
  | 0, _, _, _ => false
  | _ + 1, p, [], _ => p.all (· = 42)
  | fuel + 1, p, c :: s, star =>
    match p with
    | b :: p' =>
      if b = 63 ∨ b = c then globLoop fuel p' s star
      else if b = 42 then globLoop fuel p' (c :: s) (some (p', c :: s))
      else backtrack fuel star
    | [] => backtrack fuel star
where
  /-- Let the last `*` match one byte more. -/
  backtrack (fuel : ℕ) : Option (Bytes × Bytes) → Bool
    | some (pStar, _ :: s) => globLoop fuel pStar s (some (pStar, s))
    | _ => false

/-- `globMatch`. -/
def globMatch (pattern s : Bytes) : Bool :=
  globLoop ((pattern.length + 1) * (s.length + 1) * (s.length + 1) + 1) pattern s none

end Database

namespace DbState

/-! ### Outside the database -/

/-- `MemoryManager::instance().addMemory`. -/
def addMemory (bytes : ℕ) (s : DbState S) : DbState S :=
  { s with memory := s.memory.addMemory bytes }

/-- `MemoryManager::instance().freeMemory`. -/
def freeMemory (bytes : ℕ) (s : DbState S) : DbState S :=
  { s with memory := s.memory.freeMemory bytes }

/-- `system_clock::now()` as milliseconds since the epoch. -/
def now (s : DbState S) : ℤ × DbState S :=
  (s.clock 0, { s with clock := fun k => s.clock (k + 1) })

/-! ### Watched keys -/

/-- `addWatchedKey`. -/
def addWatchedKey (key : Bytes) (client : ClientId) (s : DbState S) : DbState S :=
  let clients := (s.db.watchedKeys.lookup key).getD []
  { s with db := { s.db with watchedKeys := s.db.watchedKeys.insert key (clients ++ [client]) } }

/-- `removeWatchedKey`. -/
def removeWatchedKey (key : Bytes) (client : ClientId) (s : DbState S) : DbState S :=
  match s.db.watchedKeys.lookup key with
  | none => s
  | some clients =>
    let clients := clients.filter (· ≠ client)
    if clients = [] then
      { s with db := { s.db with watchedKeys := s.db.watchedKeys.erase key } }
    else { s with db := { s.db with watchedKeys := s.db.watchedKeys.insert key clients } }

/-- `touchWatchedKey`. -/
def touchWatchedKey (key : Bytes) (s : DbState S) : DbState S :=
  match s.db.watchedKeys.lookup key with
  | none => s
  | some clients => { s with flagged := clients ++ s.flagged }

/-! ### Expiry -/

/-- `isExpired`. -/
def isExpired (key : Bytes) (s : DbState S) : Bool × DbState S :=
  match s.db.expires.lookup key with
  | none => (false, s)
  | some deadline => let (epoch, s) := s.now; (decide (deadline ≤ epoch), s)

variable [Platform]

open MemoryManager

/-- Give back the memory of an object and its key. -/
def release (key : Bytes) (obj : RedisObject S) (s : DbState S) : DbState S :=
  (s.freeMemory (estimateObjectSize obj)).freeMemory (estimateStringSize key)

/-- `data_.erase(key)`. -/
def eraseData (key : Bytes) (s : DbState S) : DbState S :=
  { s with db := { s.db with data := s.db.data.erase key } }

/-- `expires_.erase(key)`. -/
def eraseExpires (key : Bytes) (s : DbState S) : DbState S :=
  { s with db := { s.db with expires := s.db.expires.erase key } }

/-- `dirty_++`. -/
def markDirty (s : DbState S) : DbState S :=
  { s with db := { s.db with dirty := s.db.dirty + 1 } }

/-- `checkAndExpire`. -/
def checkAndExpire (key : Bytes) (s : DbState S) : Bool × DbState S :=
  let (expired, s) := s.isExpired key
  if expired then
    let s := match s.db.data.lookup key with
      | none => s
      | some obj => ((s.release key obj).eraseData key).touchWatchedKey key
    (true, (s.eraseExpires key).markDirty)
  else (false, s)

/-! ### Writing -/

/-- What `set` and `setObject` share: the old object gives back its memory, or the key takes up its
own; the new object is stored, without a deadline, and the key is touched. -/
def store (key : Bytes) (obj : RedisObject S) (s : DbState S) : DbState S :=
  let s := match s.db.data.lookup key with
    | some old => s.freeMemory (estimateObjectSize old)
    | none => s.addMemory (estimateStringSize key)
  let obj := obj.updateLruClock s.memory.lruClock
  let s := s.addMemory (estimateObjectSize obj)
  let s := { s with db := { s.db with data := s.db.data.insert key obj } }
  ((s.eraseExpires key).touchWatchedKey key).markDirty

/-- `set`. -/
def set (key value : Bytes) (s : DbState S) : DbState S := s.store key { value := .string value }

/-- `setObject`. -/
def setObject (key : Bytes) (obj : RedisObject S) (s : DbState S) : DbState S := s.store key obj

/-- The object at a key, after it has been changed where it is. -/
def writeBack (key : Bytes) (obj : RedisObject S) (s : DbState S) : DbState S :=
  { s with db := { s.db with data := s.db.data.insert key obj } }

/-- The object at a key, written back after a change made through a pointer to it. -/
def putObject (key : Bytes) (obj : RedisObject S) (s : DbState S) : DbState S :=
  { s with
    db := { s.db with data := s.db.data.insert key obj }
    inPlace := { key := key
                 before := (s.db.data.lookup key).elim 0 (entrySize key)
                 after := entrySize key obj } :: s.inPlace }

/-- `del`. -/
def del (key : Bytes) (s : DbState S) : Bool × DbState S :=
  let s := s.eraseExpires key
  match s.db.data.lookup key with
  | none => (false, s)
  | some obj => (true, (((s.release key obj).eraseData key).touchWatchedKey key).markDirty)

/-! ### Reading -/

/-- `getObject`, and `getObjectForWrite`. -/
def getObject (key : Bytes) (s : DbState S) : Option (RedisObject S) × DbState S :=
  let (expired, s) := s.checkAndExpire key
  if expired then (none, s)
  else
    match s.db.data.lookup key with
    | none => (none, { s with db := { s.db with misses := s.db.misses + 1 } })
    | some obj =>
      let obj := obj.updateLruClock s.memory.lruClock
      (some obj, { s with db := { s.db with hits := s.db.hits + 1
                                            data := s.db.data.insert key obj } })

@[inherit_doc getObject]
def getObjectForWrite (key : Bytes) (s : DbState S) : Option (RedisObject S) × DbState S :=
  s.getObject key

/-- `get`. -/
def get (key : Bytes) (s : DbState S) : Option Bytes × DbState S :=
  let (obj, s) := s.getObject key
  match obj with
  | some { value := .string value, .. } => (some value, s)
  | _ => (none, s)

/-- `exists`. -/
def contains (key : Bytes) (s : DbState S) : Bool × DbState S :=
  let (expired, s) := s.checkAndExpire key
  if expired then (false, s) else ((s.db.data.lookup key).isSome, s)

/-- `type`. -/
def type (key : Bytes) (s : DbState S) : Bytes × DbState S :=
  let (expired, s) := s.checkAndExpire key
  if expired then (str "none", s)
  else
    match s.db.data.lookup key with
    | none => (str "none", s)
    | some obj => (obj.typeString, s)

/-! ### Changing what is there -/

/-- `rename`. -/
def rename (oldKey newKey : Bytes) (s : DbState S) : Bool × DbState S :=
  match s.db.data.lookup oldKey with
  | none => (false, s)
  | some value =>
    let s := (s.release oldKey value).eraseData oldKey
    let expiry := (s.db.expires.lookup oldKey).getD (-1)
    let s := s.eraseExpires oldKey
    let s := if 0 ≤ expiry then
        { s with db := { s.db with expires := s.db.expires.insert newKey expiry } }
      else s
    (true, (s.touchWatchedKey oldKey).setObject newKey value)

/-- `incrby`. -/
def incrby (key : Bytes) (increment : ℤ) (s : DbState S) : Option ℤ × DbState S :=
  let current : Option ℤ :=
    match s.db.data.lookup key with
    | none => some 0
    | some { value := .string strValue, .. } =>
      match fromChars strValue with
      | .ok (current, []) => some current
      | _ => none
    | some _ => none
  match current with
  | none => (none, s)
  | some current =>
    if (0 < increment ∧ 2 ^ 63 - 1 - increment < current) ∨
        (increment < 0 ∧ current < -2 ^ 63 - increment) then (none, s)
    else (some (current + increment), s.set key (toText (current + increment)))

/-- `append`. -/
def append (key value : Bytes) (s : DbState S) : Option ℕ × DbState S :=
  match s.db.data.lookup key with
  | none => (some value.length, s.set key value)
  | some obj =>
    match obj.value with
    | .string old =>
      let s := s.freeMemory (estimateObjectSize obj)
      let obj : RedisObject S := { value := .string (old ++ value), lruClock := s.memory.lruClock }
      let s := s.addMemory (estimateObjectSize obj)
      (some (old ++ value).length, (s.writeBack key obj).markDirty)
    | _ => (none, s)

omit [Platform] in
/-- `expires_[key] = deadline`, for a key that is there. -/
def setDeadline (key : Bytes) (deadline : ℤ) (s : DbState S) : DbState S :=
  { s with db := { s.db with expires := s.db.expires.insert key deadline } }

omit [Platform] in
/-- `setExpiry`. -/
def setExpiry (key : Bytes) (milliseconds : ℤ) (s : DbState S) : Bool × DbState S :=
  if (s.db.data.lookup key).isNone then (false, s)
  else
    let (epoch, s) := s.now
    (true, s.setDeadline key (asInt64 (epoch + milliseconds)))

omit [Platform] in
/-- `setExpiryAt`. -/
def setExpiryAt (key : Bytes) (timestampMs : ℤ) (s : DbState S) : Bool × DbState S :=
  if (s.db.data.lookup key).isNone then (false, s) else (true, s.setDeadline key timestampMs)

omit [Platform] in
/-- `pttl`. -/
def pttl (key : Bytes) (s : DbState S) : ℤ × DbState S :=
  if (s.db.data.lookup key).isNone then (-2, s)
  else
    match s.db.expires.lookup key with
    | none => (-1, s)
    | some deadline =>
      let (epoch, s) := s.now
      let remaining := asInt64 (deadline - epoch)
      (if remaining ≤ 0 then -2 else remaining, s)

omit [Platform] in
/-- `persist`. -/
def persist (key : Bytes) (s : DbState S) : Bool × DbState S :=
  ((s.db.expires.lookup key).isSome, s.eraseExpires key)

/-! ### The whole keyspace -/

/-- `flushDb`. -/
def flushDb (s : DbState S) : DbState S :=
  let s : DbState S := s.db.data.entries.foldl (fun s e => s.release e.1 e.2) s
  let s := { s with flagged := s.db.watchers ++ s.flagged }
  { s with db := { s.db with data := ∅, expires := ∅ } }.markDirty

omit [Platform] in
/-- The loop of `keys`. -/
def keysLoop (pattern : Bytes) : List Bytes → DbState S → List Bytes × DbState S
  | [], s => ([], s)
  | key :: rest, s =>
    let (expired, s) := s.isExpired key
    let (result, s) := keysLoop pattern rest s
    if !expired && (pattern = str "*" || Database.globMatch pattern key) then (key :: result, s)
    else (result, s)

omit [Platform] in
/-- `keys`. -/
def keys (pattern : Bytes) (s : DbState S) : List Bytes × DbState S :=
  keysLoop pattern s.db.data.keys s

/-- The loop of `activeExpireCycle` over the entries of `expires_`. -/
def expireLoop : ℕ → List (Bytes × ℤ) → DbState S → ℕ × DbState S
  | samples + 1, (key, deadline) :: rest, s =>
    let (epoch, s) := s.now
    if deadline ≤ epoch then
      let s := match s.db.data.lookup key with
        | none => s
        | some obj => ((s.release key obj).eraseData key).touchWatchedKey key
      let (expired, s) := expireLoop samples rest (s.eraseExpires key)
      (expired + 1, s)
    else expireLoop samples rest s
  | _, _, s => (0, s)

/-- `activeExpireCycle`. -/
def activeExpireCycle (maxSamples : ℕ) (s : DbState S) : ℕ × DbState S :=
  expireLoop maxSamples (s.db.expires.entries.map fun e => (e.1, e.2)) s

omit [Platform] in
/-- The loop of `randomSample` over the keys it draws from. -/
def sampleLoop (population : List Bytes) : ℕ → DbState S → List Bytes × DbState S
  | 0, s => ([], s)
  | count + 1, s =>
    match population[s.random 0 % population.length]? with
    | none => ([], s)
    | some key =>
      let (result, s) := sampleLoop population count { s with random := fun k => s.random (k + 1) }
      (key :: result, s)

omit [Platform] in
/-- `randomSample`. -/
def randomSample (count : ℤ) (volatileOnly : Bool) (s : DbState S) : List Bytes × DbState S :=
  sampleLoop (if volatileOnly then s.db.expires.keys else s.db.data.keys) count.toNat s

end DbState

end RedisDb

import RedisDb.Lib.LittleEndian
import RedisDb.Storage.Crc64
import RedisDb.Storage.Database

/-!
# `RdbPersistence`

The snapshot file. The writer appends bytes and folds each of them into the checksum; the reader
takes bytes off, with a stream that stays failed after the first short read. What a variable holds
that was declared without a value and never read into is unknown, so the reader is given the bytes
of all such variables (`junk`).

The file itself is the bytes written; opening it can fail.
-/

namespace RedisDb
namespace Rdb

/-! ### Opcodes and types -/

/-- `RDB_OPCODE_EOF`. -/
def opcodeEof : UInt8 := 255
/-- `RDB_OPCODE_SELECTDB`. -/
def opcodeSelectDb : UInt8 := 254
/-- `RDB_OPCODE_EXPIRETIME`. -/
def opcodeExpireTime : UInt8 := 253
/-- `RDB_OPCODE_EXPIRETIME_MS`. -/
def opcodeExpireTimeMs : UInt8 := 252
/-- `RDB_OPCODE_RESIZEDB`. -/
def opcodeResizeDb : UInt8 := 251

/-- `RDB_TYPE_STRING`. -/
def typeString : UInt8 := 0
/-- `RDB_TYPE_LIST`. -/
def typeList : UInt8 := 1
/-- `RDB_TYPE_SET`. -/
def typeSet : UInt8 := 2
/-- `RDB_TYPE_ZSET`. -/
def typeZset : UInt8 := 3
/-- `RDB_TYPE_HASH`. -/
def typeHash : UInt8 := 4

/-- The first nine bytes of a file. -/
def magic : Bytes := str "REDIS0009"

/-! ### Writing -/

/-- The bytes written, and `checksum`. -/
structure Writer where
  out : Bytes := []
  checksum : UInt64 := 0

namespace Writer

/-- `out.write` and `crc64_update`. -/
def put (w : Writer) (bs : Bytes) : Writer :=
  { out := w.out ++ bs, checksum := crc64Update w.checksum bs }

/-- `writeByte`. -/
def writeByte (w : Writer) (val : UInt8) : Writer := w.put [val]

/-- `writeLength`. -/
def writeLength (w : Writer) (len : ℕ) : Writer := w.put (LittleEndian.bytes 8 len)

/-- `writeString`. -/
def writeString (w : Writer) (s : Bytes) : Writer := (w.writeLength s.length).put s

variable {S : Type} [Double S]

/-- `writeDouble`. -/
def writeDouble (w : Writer) (val : S) : Writer :=
  w.put (LittleEndian.bytes 8 (Double.toBits val).toNat)

end Writer

section Save

variable {S : Type} [Platform] [Double S] [Inhabited S]

omit [Platform] in
/-- The `switch` on the type of the object. The loop over a list counts with an `int`. -/
def saveObject (key : Bytes) (obj : RedisObject S) (w : Writer) : Writer :=
  match obj.value with
  | .string s => ((w.writeByte typeString).writeString key).writeString s
  | .list l =>
    (List.range (asInt l.size).toNat).foldl
      (fun w (j : ℕ) => match l.get j with
        | some val => w.writeString val
        | none => w)
      (((w.writeByte typeList).writeString key).writeLength l.size)
  | .hash t =>
    t.toList.foldl (fun w kv => (w.writeString kv.1).writeString kv.2)
      (((w.writeByte typeHash).writeString key).writeLength t.size)
  | .set s =>
    s.members.foldl (fun w member => w.writeString member)
      (((w.writeByte typeSet).writeString key).writeLength s.size)
  | .zset z =>
    (z.rangeByRank 0 (-1)).foldl (fun w pair => (w.writeString pair.1).writeDouble pair.2)
      (((w.writeByte typeZset).writeString key).writeLength z.size)
  | .none => w

/-- One turn of the loop over the keys. -/
def saveKey (key : Bytes) (w : Writer) (s : DbState S) : Writer × DbState S :=
  let (obj, s) := s.getObject key
  match obj with
  | none => (w, s)
  | some obj =>
    let (pttl, s) := s.pttl key
    let (w, s) :=
      if 0 ≤ pttl then
        let (epoch, s) := s.now
        ((w.writeByte opcodeExpireTimeMs).put (LittleEndian.bytes 8 (asUInt64 (epoch + pttl))), s)
      else (w, s)
    (saveObject key obj w, s)

/-- The loop over the keys. -/
def saveKeys : List Bytes → Writer → DbState S → Writer × DbState S
  | [], w, s => (w, s)
  | key :: rest, w, s => let (w, s) := saveKey key w s; saveKeys rest w s

/-- One turn of the loop over the databases. -/
def saveDatabase (i : ℕ) (w : Writer) (s : DbState S) : Writer × DbState S :=
  if s.db.size = 0 then (w, s)
  else
    let w := (w.writeByte opcodeSelectDb).writeLength i
    let w := ((w.writeByte opcodeResizeDb).writeLength s.db.size).writeLength s.db.expiresSize
    let (keys, s) := s.keys (str "*")
    saveKeys keys w s

/-- The loop over the databases. -/
def saveDatabases : ℕ → List (Database S) → Writer → Env → Writer × List (Database S) × Env
  | _, [], w, env => (w, [], env)
  | i, db :: rest, w, env =>
    let (w, s) := saveDatabase i w { env with db := db }
    let (w, rest, env) := saveDatabases (i + 1) rest w s.toEnv
    (w, s.db :: rest, env)

/-- `saveToFile`: the result, the file, and the databases as reading them has left them. -/
def saveToFile (opens : Bool) (databases : List (Database S)) (env : Env) :
    Bool × Bytes × List (Database S) × Env :=
  if !opens then (false, [], databases, env)
  else
    let (w, databases, env) := saveDatabases 0 databases (Writer.put {} magic) env
    let w := w.writeByte opcodeEof
    -- the checksum itself is not part of what it sums up
    (true, w.out ++ LittleEndian.bytes 8 w.checksum.toNat, databases, env)

end Save

/-! ### Reading -/

/-- The bytes not yet read, the state of the stream, and `checksum`. -/
structure Reader where
  rest : Bytes
  failed : Bool := false
  checksum : UInt64 := 0
  /-- The bytes of the variables that are declared without a value. -/
  junk : ℕ → UInt8

namespace Reader

/-- `in.read` of `n` bytes: the bytes stored. -/
def take (r : Reader) (n : ℕ) : Bytes × Reader :=
  if r.failed then ([], r)
  else if n ≤ r.rest.length then (r.rest.take n, { r with rest := r.rest.drop n })
  else (r.rest, { r with rest := [], failed := true })

/-- `in.read` over a variable of these bytes: what is not read stays. -/
def readOver (r : Reader) (old : Bytes) : Bytes × Reader :=
  let (got, r) := r.take old.length
  (got ++ old.drop got.length, r)

/-- `in.read` into a variable of `n` bytes declared without a value. -/
def readNew (r : Reader) (n : ℕ) : Bytes × Reader :=
  { r with junk := fun k => r.junk (n + k) }.readOver ((List.range n).map r.junk)

/-- `crc64_update`. -/
def update (r : Reader) (bs : Bytes) : Reader :=
  { r with checksum := crc64Update r.checksum bs }

/-- `in.peek() == EOF`. -/
def atEof (r : Reader) : Bool := r.failed || r.rest.isEmpty

/-- `readByte`. -/
def readByte (r : Reader) : UInt8 × Reader :=
  let (bs, r) := r.readNew 1
  (bs.headD 0, r.update bs)

/-- `readLength`. -/
def readLength (r : Reader) : ℕ × Reader :=
  let (bs, r) := r.readNew 8
  (LittleEndian.value bs, r.update bs)

/-- `readString`. The string is made of null bytes first, and so can be too long to be made. -/
def readString [Platform] (r : Reader) : Except Fault (Bytes × Reader) :=
  let (len, r) := r.readLength
  if Platform.maxString < len then .error (.thrown .lengthError)
  else
    let (got, r) := r.take len
    let s := got ++ List.replicate (len - got.length) 0
    .ok (s, r.update s)

/-- `readDouble`. -/
def readDouble {S : Type} [Double S] (r : Reader) : S × Reader :=
  let (bs, r) := r.readNew 8
  (Double.ofBits (UInt64.ofNat (LittleEndian.value bs)), r.update bs)

/-- A loop over `len` elements. -/
def readMany {α : Type} (body : α → Reader → Except Fault (α × Reader)) :
    ℕ → α → Reader → Except Fault (α × Reader)
  | 0, acc, r => .ok (acc, r)
  | len + 1, acc, r =>
    match body acc r with
    | .error e => .error e
    | .ok (acc, r) => readMany body len acc r

end Reader

section Load

variable {S : Type} [Platform] [Double S] [Inhabited S] [LT S] [DecidableLT S] [BEq S]

/-- The `switch` on the type of the value: the value read, if the type is known. A new sorted set
draws its heights from `rng`. -/
def loadValue (rng : ℕ → Height) (opcode : UInt8) (r : Reader) :
    Except Fault (Option (Value S) × Reader) :=
  if opcode = typeString then do
    let (val, r) ← r.readString
    .ok (some (.string val), r)
  else if opcode = typeList then do
    let (len, r) := r.readLength
    let (list, r) ← r.readMany (fun list r => do
      let (val, r) ← r.readString
      .ok (list.pushBack val, r)) len LinkedList.new
    .ok (some (.list list), r)
  else if opcode = typeHash then do
    let (len, r) := r.readLength
    let (hash, r) ← r.readMany (fun hash r => do
      let (f, r) ← r.readString
      let (v, r) ← r.readString
      .ok ((hash.set Platform.hash f v).1, r)) len HashTable.empty
    .ok (some (.hash hash), r)
  else if opcode = typeSet then do
    let (len, r) := r.readLength
    let (set, r) ← r.readMany (fun set r => do
      let (member, r) ← r.readString
      .ok ((set.add member).1, r)) len HashSet.new
    .ok (some (.set set), r)
  else if opcode = typeZset then do
    let (len, r) := r.readLength
    let (zset, r) ← r.readMany (fun zset r => do
      let (member, r) ← r.readString
      let (score, r) := r.readDouble
      .ok ((zset.add Platform.hash member score).1, r)) len (SortedSet.new rng)
    .ok (some (.zset zset), r)
  else .ok (none, r)

/-- The variables of the loop of `loadFromFile`, besides the stream. -/
structure LoadState (S : Type) where
  databases : List (Database S)
  env : Env
  /-- The generators of the sorted sets still to be built. -/
  seeds : ℕ → ℕ → Height
  currentDb : ℤ := 0
  expireMs : ℕ := 0
  hasExpire : Bool := false

/-- What happens to a key and the value read for it, in the database they belong to. -/
def LoadState.storeKey (st : LoadState S) (db : Database S) (key : Bytes) (value : Option (Value S)) :
    LoadState S :=
  let s : DbState S := { st.env with db := db }
  let s := match value with
    | some value => s.setObject key { value := value }
    | none => s
  let s := if st.hasExpire then (s.setExpiryAt key (asInt64 st.expireMs)).2 else s
  { st with databases := st.databases.set st.currentDb.toNat s.db
            env := s.toEnv, seeds := fun k => st.seeds (k + 1), hasExpire := false }

/-- A key with its value, behind the opcode that is the type of the value. -/
def loadKey (opcode : UInt8) (st : LoadState S) (r : Reader) :
    Except Fault (LoadState S × Reader) := do
  let (key, r) ← r.readString
  if asInt st.databases.length ≤ st.currentDb then .ok (st, r)
  else if st.currentDb < 0 then .error .undefined
  else
    match st.databases[st.currentDb.toNat]? with
    | none => .error .undefined
    | some db =>
      let (value, r) ← loadValue (st.seeds 0) opcode r
      .ok (st.storeKey db key value, r)

/-- What follows an opcode other than `RDB_OPCODE_EOF`. -/
def loadOpcode (opcode : UInt8) (st : LoadState S) (r : Reader) :
    Except Fault (LoadState S × Reader) :=
  if opcode = opcodeSelectDb then
    let (n, r) := r.readLength
    .ok ({ st with currentDb := asInt n }, r)
  else if opcode = opcodeResizeDb then .ok (st, r.readLength.2.readLength.2)
  else if opcode = opcodeExpireTime then
    let (bs, r) := r.readNew 4
    .ok ({ st with expireMs := LittleEndian.value bs * 1000, hasExpire := true }, r.update bs)
  else if opcode = opcodeExpireTimeMs then
    let (bs, r) := r.readOver (LittleEndian.bytes 8 st.expireMs)
    .ok ({ st with expireMs := LittleEndian.value bs, hasExpire := true }, r.update bs)
  else loadKey opcode st r

/-- The loop of `loadFromFile`. Each turn reads a byte, so there are at most as many turns as bytes. -/
def loadLoop : ℕ → LoadState S → Reader → Except Fault (LoadState S × Reader)
  | 0, st, r => .ok (st, r)
  | fuel + 1, st, r =>
    if r.atEof then .ok (st, r)
    else
      let (opcode, r) := r.readByte
      if opcode = opcodeEof then .ok (st, r)
      else
        match loadOpcode opcode st r with
        | .error e => .error e
        | .ok (st, r) => loadLoop fuel st r

omit [Double S] [Inhabited S] [LT S] [DecidableLT S] [BEq S] in
/-- The loop that empties the databases. -/
def flushAll : List (Database S) → Env → List (Database S) × Env
  | [], env => ([], env)
  | db :: rest, env =>
    let s : DbState S := DbState.flushDb { env with db := db }
    let (rest, env) := flushAll rest s.toEnv
    (s.db :: rest, env)

/-- `loadFromFile`, of a file that may be missing: the result, and the databases. -/
def loadFromFile (file : Option Bytes) (junk : ℕ → UInt8) (seeds : ℕ → ℕ → Height)
    (databases : List (Database S)) (env : Env) : Except Fault (Bool × List (Database S) × Env) :=
  match file with
  | none => .ok (false, databases, env)
  | some contents =>
    let r : Reader := { rest := contents, junk := junk }
    let (m, r) := r.readNew 9
    let r := r.update m
    if m ≠ magic then .ok (false, databases, env)
    else
      let (databases, env) := flushAll databases env
      match loadLoop r.rest.length { databases := databases, env := env, seeds := seeds } r with
      | .error e => .error e
      | .ok (st, r) =>
        let expected := LittleEndian.value (r.readNew 8).1
        .ok (expected = 0 ∨ expected = r.checksum.toNat, st.databases, st.env)

end Load

end Rdb
end RedisDb

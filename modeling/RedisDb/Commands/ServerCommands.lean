import RedisDb.Server.ServerProgram
import RedisDb.Commands.StringCommands
import RedisDb.Storage.WatchedKeys

/-!
# Server commands

The handlers of `server_commands.cpp`, with the methods of `Server` they call. A background job is
started here; what its thread does later is no part of a handler.
-/

namespace RedisDb

open RespSerializer EffectM

variable {S : Type} [Platform]

/-! ### The commands there are -/

/-- `CommandFlag`. -/
inductive CommandFlag where
  | readonly | write | admin | pubsub | fast | loading | stale
deriving DecidableEq, Repr

/-- The registered commands. -/
inductive Command where
  | ping | echo | command | dbsize | flushdb | select | quit | info
  | save | bgsave | bgrewriteaof | config | debug
  | lpush | rpush | lpop | rpop | blpop | brpop | lrange | llen
  | hset | hget | hgetall
  | sadd | srem | sismember | smembers
  | zadd | zrange | zrank | zscore | zrem
  | set | get | del | exists | mset | mget | incr | decr | incrby | decrby | append | strlen | setnx
  | type | rename | keys | expire | pexpire | expireat | pexpireat | ttl | pttl | persist
  | multi | exec | discard | watch | unwatch
  | subscribe | unsubscribe | psubscribe | punsubscribe | publish
  | replicaof | replconf | psync | wait
deriving DecidableEq, Repr

namespace Command

/-- All commands, in the order of `registerBuiltinCommands`. -/
def all : List Command :=
  [ping, echo, command, dbsize, flushdb, select, quit, info, save, bgsave, bgrewriteaof, config,
    debug, lpush, rpush, lpop, rpop, blpop, brpop, lrange, llen, hset, hget, hgetall, sadd, srem,
    sismember, smembers, zadd, zrange, zrank, zscore, zrem, set, get, del, «exists», mset, mget, incr,
    decr, incrby, decrby, append, strlen, setnx, type, rename, keys, expire, pexpire, expireat,
    pexpireat, ttl, pttl, persist, multi, exec, discard, watch, unwatch, subscribe, unsubscribe,
    psubscribe, punsubscribe, publish, replicaof, replconf, psync, wait]

/-- The name of a command, in capitals. -/
def name : Command → Bytes
  | ping => str "PING" | echo => str "ECHO" | command => str "COMMAND" | dbsize => str "DBSIZE"
  | flushdb => str "FLUSHDB" | select => str "SELECT" | quit => str "QUIT" | info => str "INFO"
  | save => str "SAVE" | bgsave => str "BGSAVE" | bgrewriteaof => str "BGREWRITEAOF"
  | config => str "CONFIG" | debug => str "DEBUG"
  | lpush => str "LPUSH" | rpush => str "RPUSH" | lpop => str "LPOP" | rpop => str "RPOP"
  | blpop => str "BLPOP" | brpop => str "BRPOP" | lrange => str "LRANGE" | llen => str "LLEN"
  | hset => str "HSET" | hget => str "HGET" | hgetall => str "HGETALL"
  | sadd => str "SADD" | srem => str "SREM" | sismember => str "SISMEMBER"
  | smembers => str "SMEMBERS"
  | zadd => str "ZADD" | zrange => str "ZRANGE" | zrank => str "ZRANK" | zscore => str "ZSCORE"
  | zrem => str "ZREM"
  | set => str "SET" | get => str "GET" | del => str "DEL" | «exists» => str "EXISTS"
  | mset => str "MSET" | mget => str "MGET" | incr => str "INCR" | decr => str "DECR"
  | incrby => str "INCRBY" | decrby => str "DECRBY" | append => str "APPEND"
  | strlen => str "STRLEN" | setnx => str "SETNX"
  | type => str "TYPE" | rename => str "RENAME" | keys => str "KEYS" | expire => str "EXPIRE"
  | pexpire => str "PEXPIRE" | expireat => str "EXPIREAT" | pexpireat => str "PEXPIREAT"
  | ttl => str "TTL" | pttl => str "PTTL" | persist => str "PERSIST"
  | multi => str "MULTI" | exec => str "EXEC" | discard => str "DISCARD" | watch => str "WATCH"
  | unwatch => str "UNWATCH"
  | subscribe => str "SUBSCRIBE" | unsubscribe => str "UNSUBSCRIBE"
  | psubscribe => str "PSUBSCRIBE" | punsubscribe => str "PUNSUBSCRIBE" | publish => str "PUBLISH"
  | replicaof => str "REPLICAOF" | replconf => str "REPLCONF" | psync => str "PSYNC"
  | wait => str "WAIT"

/-- `arity`: the number of arguments with the name, or where it is negative the least such number. -/
def arity : Command → ℤ
  | ping => -1 | echo => 2 | command => -1 | dbsize => 1 | flushdb => -1 | select => 2 | quit => 1
  | info => -1 | save => 1 | bgsave => 1 | bgrewriteaof => 1 | config => -2 | debug => -2
  | lpush => -3 | rpush => -3 | lpop => 2 | rpop => 2 | blpop => -3 | brpop => -3 | lrange => 4
  | llen => 2 | hset => -4 | hget => 3 | hgetall => 2 | sadd => -3 | srem => -3 | sismember => 3
  | smembers => 2 | zadd => -4 | zrange => -4 | zrank => 3 | zscore => 3 | zrem => -3 | set => -3
  | get => 2 | del => -2 | «exists» => -2 | mset => -3 | mget => -2 | incr => 2 | decr => 2
  | incrby => 3 | decrby => 3 | append => 3 | strlen => 2 | setnx => 3 | type => 2 | rename => 3
  | keys => 2 | expire => 3 | pexpire => 3 | expireat => 3 | pexpireat => 3 | ttl => 2 | pttl => 2
  | persist => 2 | multi => 1 | exec => 1 | discard => 1 | watch => -2 | unwatch => 1
  | subscribe => -2 | unsubscribe => -1 | psubscribe => -2 | punsubscribe => -1 | publish => 3
  | replicaof => 3 | replconf => -3 | psync => 3 | wait => 3

/-- `flags`. -/
def flags : Command → List CommandFlag
  | ping => [.readonly, .fast, .stale] | echo => [.readonly, .fast]
  | command => [.readonly, .loading, .stale] | dbsize => [.readonly, .fast] | flushdb => [.write]
  | select => [.readonly, .fast, .loading] | quit => [.readonly, .fast, .loading, .stale]
  | info => [.readonly, .stale, .loading] | save => [.admin] | bgsave => [.admin]
  | bgrewriteaof => [.admin] | config => [.admin, .stale] | debug => [.admin]
  | lpush | rpush | lpop | rpop | blpop | brpop => [.write] | lrange | llen => [.readonly]
  | hset => [.write] | hget | hgetall => [.readonly] | sadd | srem => [.write]
  | sismember | smembers => [.readonly] | zadd | zrem => [.write]
  | zrange | zrank | zscore => [.readonly] | set | del | mset | append => [.write]
  | get | «exists» | mget | strlen => [.readonly, .fast]
  | incr | decr | incrby | decrby | setnx => [.write, .fast]
  | type | keys | ttl | pttl => [.readonly]
  | rename | expire | pexpire | expireat | pexpireat | persist => [.write]
  | multi | exec | discard | watch | unwatch => [.fast]
  | subscribe | unsubscribe | psubscribe | punsubscribe | publish => [.fast, .pubsub]
  | replicaof | replconf | psync => [.admin] | wait => [.readonly]

/-- `lookupCommand`. -/
def lookup (name : Bytes) : Option Command := all.find? (·.name = toUpper name)

end Command

/-! ### Replies without a change -/

/-- `pingCommand`. -/
def pingCommand : Handler S := fun _ args => do
  if 2 ≤ args.length then addReply (bulkString (← argString args 1)) else addReply pong

/-- `echoCommand`. -/
def echoCommand : Handler S := fun _ args => do addReply (bulkString (← argString args 1))

/-- The words for the flags of a command that `commandCommand` shows. -/
def flagWords (cmd : Command) : List Bytes :=
  let words := [(CommandFlag.write, str "write"), (.readonly, str "readonly"), (.fast, str "fast"),
    (.admin, str "admin"), (.stale, str "stale"), (.loading, str "loading")].filterMap fun w =>
      if w.1 ∈ cmd.flags then some w.2 else none
  if words = [] then [str "readonly"] else words

/-- What `commandCommand` shows of a command. -/
def commandText (cmd : Command) : Bytes :=
  str "*7\r\n" ++ bulkString cmd.name ++ integer cmd.arity ++
    arrayHeader (flagWords cmd).length ++ (flagWords cmd).flatMap simpleString ++
    integer 1 ++ integer 1 ++ integer 1

/-- `commandCommand`. All commands are listed in the order of their registration, which stands for that of
the `unordered_map` that holds them. -/
def commandCommand : Handler S := fun _ args => do
  let all := arrayHeader Command.all.length ++ Command.all.flatMap commandText
  if 2 ≤ args.length then
    let subcommand := toUpper (← argString args 1)
    if subcommand = str "DOCS" then addReply emptyArray
    else if subcommand = str "COUNT" then addReply (integer Command.all.length)
    else if subcommand = str "INFO" then
      let response ← (args.drop 2).foldlM (fun response arg => do
        match Command.lookup (← .ofExcept arg.asString) with
        | some cmd => return response ++ commandText cmd
        | none => return response ++ nullBulkString) (arrayHeader (args.length - 2))
      addReply response
    else addReply all
  else addReply all

/-- `dbsizeCommand`. -/
def dbsizeCommand : DatabaseCommand S := fun _ => do return integer (← .read fun s => s.db.size)

/-- `flushdbCommand`. -/
def flushdbCommand : DatabaseCommand S := fun _ => do
  DbM.flushDb
  return ok

/-- `selectCommand`. -/
def selectCommand : Handler S := fun c args => do
  match ← argConverted stoll args 1 with
  | none => addReply (error (str "invalid DB index"))
  | some dbIndex =>
    let count ← .read fun s => asInt s.databases.length
    if dbIndex < 0 ∨ count ≤ dbIndex then addReply (error (str "DB index is out of range"))
    else
      modifyClient c (fun cl => { cl with selectedDb := dbIndex }) fun _ => by constructor <;> rfl
      addReply ok

/-- `quitCommand`. -/
def quitCommand : Handler S := fun c _ => do
  addReply ok
  modifyClient c (·.setFlag .closeAsap) fun cl => cl.sameTables_setFlag (by decide) (by decide) (by decide)

/-! ### `INFO` -/

/-- A line of `INFO`. -/
def infoLine (key value : Bytes) : Bytes := key ++ str ":" ++ value ++ CRLF

/-- The lines of `INFO` about the databases with a key. -/
def keyspaceText : ℕ → List (Database S) → Bytes
  | _, [] => []
  | i, db :: rest =>
    (if 0 < db.size then
      infoLine (str "db" ++ toText i)
        (str "keys=" ++ toText db.size ++ str ",expires=" ++ toText db.expiresSize)
    else []) ++ keyspaceText (i + 1) rest

/-- The text of `INFO`, at a reading of the steady clock. -/
def Server.infoText (now : ℤ) (s : Server S) : Bytes :=
  str "# Server\r\n" ++ infoLine (str "redis_version") (str "0.1.0 (RedisDB)") ++
    infoLine (str "tcp_port") (toText s.config.port) ++
    infoLine (str "uptime_in_seconds") (toText ((now - s.startTime) / 1000)) ++
    str "\r\n# Clients\r\n" ++
    infoLine (str "connected_clients") (toText (if s.serving then s.clients.size else 0)) ++
    str "\r\n# Memory\r\n" ++ infoLine (str "used_memory") (toText s.env.memory.usedMemory) ++
    infoLine (str "maxmemory") (toText s.config.maxMemory) ++
    infoLine (str "maxmemory_policy") s.config.maxMemoryPolicy ++
    str "\r\n# Persistence\r\n" ++
    infoLine (str "aof_enabled") (if s.config.appendOnly then str "1" else str "0") ++
    infoLine (str "rdb_changes_since_last_save") (toText (s.databases.map (·.dirty)).sum) ++
    str "\r\n# Stats\r\n" ++
    infoLine (str "total_connections_received") (toText s.totalConnectionsReceived) ++
    infoLine (str "total_commands_processed") (toText s.totalCommandsProcessed) ++
    infoLine (str "keyspace_hits") (toText (s.databases.map (·.hits)).sum) ++
    infoLine (str "keyspace_misses") (toText (s.databases.map (·.misses)).sum) ++
    str "\r\n# Replication\r\n" ++
    (if s.config.replicaOf = [] then infoLine (str "role") (str "master")
    else infoLine (str "role") (str "slave") ++ infoLine (str "master_host") s.config.replicaOf ++
      infoLine (str "master_port") (toText s.config.replicaOfPort)) ++
    str "\r\n# Keyspace\r\n" ++ keyspaceText 0 s.databases

/-- `steady_clock::now()`. -/
def Server.steadyNow (s : Server S) : ℤ × Server S :=
  (s.outside.steady 0,
    { s with outside := { s.outside with steady := fun i => s.outside.steady (i + 1) } })

/-- `infoCommand`. -/
def infoCommand : Handler S := fun _ _ => do
  let now ← draw Server.steadyNow fun _ => {}
  let text ← .read (Server.infoText now)
  addReply (bulkString text)

/-! ### Saving -/

section Saving

variable [Double S] [Inhabited S]

/-- Whether a file can be opened. -/
def Server.openFile (s : Server S) : Bool × Server S :=
  (s.outside.opens 0,
    { s with outside := { s.outside with opens := fun i => s.outside.opens (i + 1) } })

/-- A save that has succeeded: the time of it, and no changes since. -/
def Server.saved (out : Bytes) (s : Server S) : Server S :=
  { s with
    dump := some out
    lastSaveTime := s.env.clock 0 / 1000
    env := { s.env with clock := fun i => s.env.clock (i + 1) }
    databases := s.databases.map fun db => { db with dirty := 0 } }

/-- `Server::save`. -/
def save {c : ClientId} : ServerM S c Bool := do
  if (← .read fun s => s.bgsave.isSome) then return false
  else
    let opens ← draw Server.openFile fun _ => {}
    let (success, out) ← onDatabases
      (fun databases env _ =>
        let (success, out, databases, env) := Rdb.saveToFile opens databases env
        some ((success, out), databases, env)) fun s a databases env h => by
          obtain ⟨-, h⟩ := Prod.mk.inj (Option.some.inj h)
          obtain ⟨rfl, rfl⟩ := Prod.mk.inj h
          exact ⟨Rdb.watchedKeys_saveToFile _ _ _, fun hs => Rdb.accounted_saveToFile (hs.of_data rfl rfl)⟩
    if success then
      onDatabases (fun _ env s => some ((), (s.saved out).databases, env)) fun s a databases env h => by
        obtain ⟨-, h⟩ := Prod.mk.inj (Option.some.inj h)
        obtain ⟨rfl, rfl⟩ := Prod.mk.inj h
        exact ⟨by simp [Server.saved, Function.comp_def], fun hs =>
          hs.of_data (by simp [Server.saved, Function.comp_def]) rfl⟩
      modify (fun s => { s with dump := (s.saved out).dump, lastSaveTime := (s.saved out).lastSaveTime
                                env := (s.saved out).env }) fun _ => {}
    return success

/-- `saveCommand`. -/
def saveCommand : Handler S := fun _ _ => do
  if ← save then addReply ok
  else addReply (error (str "Background save already in progress"))

variable [LT S] [DecidableLT S] [BEq S]

/-- Copies of the databases. -/
def Server.copies (s : Server S) : List (Database S) × Server S :=
  (s.databases.zipIdx.map fun x => x.1.clone (s.outside.copyRngs x.2),
    { s with outside := { s.outside with
        copyRngs := fun i => s.outside.copyRngs (i + s.databases.length) } })

/-- `Server::bgsave`. -/
def bgsave {c : ClientId} : ServerM S c Bool := do
  if (← .read fun s => s.bgsave.isSome) then return false
  else
    let copies ← draw Server.copies fun _ => {}
    modify (fun s => { s with bgsave := some copies }) fun _ => {}
    return true

/-- `bgsaveCommand`. -/
def bgsaveCommand : Handler S := fun _ _ => do
  if ← bgsave then addReply (simpleString (str "Background saving started"))
  else addReply (error (str "Background save already in progress"))

/-- `Server::bgrewriteaof`. The flag stays set where a background save is in progress. -/
def bgrewriteaof {c : ClientId} : ServerM S c Bool := do
  if (← .read fun s => s.bgrewriteaofInProgress) then return false
  else
    modify (fun s => { s with bgrewriteaofInProgress := true }) fun _ => {}
    if (← .read fun s => s.bgsave.isSome) then return false
    else
      let copies ← draw Server.copies fun _ => {}
      modify (fun s => { s with rewrite := some copies }) fun _ => {}
      return true

/-- `bgrewriteaofCommand`. -/
def bgrewriteaofCommand : Handler S := fun _ _ => do
  if ← bgrewriteaof then
    addReply (simpleString (str "Background append only file rewriting started"))
  else addReply (error (str "Background append only file rewriting already in progress"))

end Saving

/-! ### `CONFIG` and `DEBUG` -/

/-- `CONFIG GET`. -/
def ServerConfig.lookup (config : ServerConfig) (param : Bytes) : Bytes :=
  if param = str "maxmemory" then
    bulkStringArray [str "maxmemory", toText config.maxMemory]
  else if param = str "maxmemory-policy" then
    bulkStringArray [str "maxmemory-policy", config.maxMemoryPolicy]
  else if param = str "appendonly" then
    bulkStringArray [str "appendonly", if config.appendOnly then str "yes" else str "no"]
  else emptyArray

/-- `config().appendOnly = value`, noted where it turns the option off. -/
def Server.setAppendOnly (value : Bool) (s : Server S) : Server S :=
  if value then { s with config := { s.config with appendOnly := true } }
  else { s with config := { s.config with appendOnly := false } }.note .appendOnlyOff

omit [Platform] in
theorem Server.aside_setAppendOnly (value : Bool) (s : Server S) :
    s.Aside (s.setAppendOnly value) := by
  cases value with
  | true => exact { trace := ⟨[], (List.append_nil _).symm, by simp, fun _ => .inl rfl⟩ }
  | false =>
    exact { trace := ⟨[.appendOnlyOff], rfl, by simp [Event.IsAside], fun _ => .inr (by simp)⟩ }

/-- `CONFIG SET`. -/
def configSet {c : ClientId} (param value : Bytes) : ServerM S c Unit := do
  if param = str "maxmemory" then
    let n ← .ofExcept (stoll value)
    modify (fun s => { s with config := { s.config with maxMemory := n } }) fun _ => {}
    addReply ok
  else if param = str "maxmemory-policy" then
    modify (fun s => { s with config := { s.config with maxMemoryPolicy := value } }) fun _ => {}
    addReply ok
  else if param = str "appendonly" then
    modify (Server.setAppendOnly (value = str "yes" ∨ value = str "1")) (Server.aside_setAppendOnly _)
    addReply ok
  else addReply (error (str "ERR Unsupported CONFIG parameter"))

/-- `configCommand`. -/
def configCommand : Handler S := fun _ args => do
  if args.length < 3 then
    addReply (error (str "ERR wrong number of arguments for 'config' command"))
  else
    let subCommand := toUpper (← argString args 1)
    let param ← argString args 2
    if subCommand = str "GET" then
      let config ← .read fun s => s.config
      addReply (config.lookup param)
    else if subCommand = str "SET" then
      if args.length < 4 then
        addReply (error (str "ERR wrong number of arguments for 'config set' command"))
      else configSet param (← argString args 3)
    else addReply (error (str "ERR unknown CONFIG subcommand"))

/-- The text of an address. -/
def Server.addressText (s : Server S) : Bytes × Server S :=
  (s.outside.addresses 0,
    { s with outside := { s.outside with addresses := fun i => s.outside.addresses (i + 1) } })

/-- `debugCommand`. -/
def debugCommand : Handler S := fun _ args => do
  if args.length < 2 then
    addReply (error (str "ERR wrong number of arguments for 'debug' command"))
  else
    let subCommand := toUpper (← argString args 1)
    if subCommand = str "OBJECT" ∧ args.length = 3 then
      let key ← argString args 2
      match ← onDatabase (DbM.getObject key) with
      | none => addReply (error (str "ERR no such key"))
      | some obj =>
        let address ← draw Server.addressText fun _ => {}
        addReply (simpleString (str "Value at:" ++ address ++
          str " refcount:1 encoding:raw serializedlength:0 lru:" ++ toText obj.lruClock.toNat ++
          str " lru_seconds_idle:0"))
    else if subCommand = str "SEGFAULT" then .undefined
    else addReply (error (str "ERR Unknown DEBUG subcommand or wrong number of arguments"))

end RedisDb

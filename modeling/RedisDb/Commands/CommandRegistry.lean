import RedisDb.Commands.BlockingCommands
import RedisDb.Commands.HashCommands
import RedisDb.Commands.KeyCommands
import RedisDb.Commands.PubsubCommands
import RedisDb.Commands.ReplicationCommands
import RedisDb.Commands.ServerCommands
import RedisDb.Commands.SetCommands
import RedisDb.Commands.TransactionCommands
import RedisDb.Commands.ZsetCommands

/-!
# The command registry and `executeCommand`

The handler of every registered command, and `Server::executeCommand`, which looks a command up,
checks it, and runs or queues it.

Two handlers call back into the dispatcher: a push executes the command of the client it wakes, and
`EXEC` calls the handlers of the commands in its queue. `depth` bounds how deep such calls go, as the
stack of the program does; nothing is said of what a call beyond it does. Every theorem about a run
holds for every `depth`.
-/

namespace RedisDb

open RespSerializer EffectM

variable {S : Type} [Platform]

/-- A handler that works on the selected database and replies. -/
def databaseCommand (f : DatabaseCommand S) : Handler S := fun _ args => do
  addReply (← onDatabase (f args))

/-- `incrementCommandsProcessed`. -/
def incrementCommandsProcessed {k : Option RespValue} {c : Option ClientId} {ε : Type} :
    EffectM S k c ε Unit :=
  modify (fun s => { s with totalCommandsProcessed := s.totalCommandsProcessed + 1 }) fun _ => {}

/-- The handler of `SET`, which counts the command itself where it stores the value. -/
def setHandler : Handler S := fun _ args => do
  let (reply, counts) ← onDatabase (setCommand args)
  if counts then incrementCommandsProcessed
  addReply reply

/-- A generator for a sorted set. -/
def Server.freshRng (s : Server S) : (ℕ → Height) × Server S :=
  (s.outside.rngs 0, { s with outside := { s.outside with rngs := fun i => s.outside.rngs (i + 1) } })

/-- What a handler may call back: the waking of a client that waits for a key, and the handler of a
command that has been queued. -/
structure Callbacks (S : Type) [Platform] where
  wake : (c : ClientId) → Bytes → ServerM S c Unit
  runQueued : Handler S

section Handlers

variable [Double S] [Inhabited S] [LT S] [DecidableLT S] [BEq S]

omit [Double S] [Inhabited S] [LT S] [DecidableLT S] [BEq S] in
/-- A call of `zaddCommand`, as the trace notes it. -/
def Server.zaddEvent (c : ClientId) (args : List RespValue) (s : Server S) : Event :=
  .zadd args <|
    match (args.getD 1 .null).asString,
      s.databases[s.databaseIndex ((s.clients.lookup c).elim 0 Client.selectedDb)]? with
    | .ok key, some db => ((s.dbState db).getObject key).1.isSome
    | _, _ => false

/-- The handler of `ZADD`. -/
def zaddHandler : Handler S := fun c args => do
  modify (fun s => s.note (s.zaddEvent c args)) fun s =>
    Server.aside_note (show (s.zaddEvent c args).IsAside s.masterHost from trivial)
  let rng ← draw Server.freshRng fun _ => {}
  addReply (← onDatabase (zaddCommand rng args))

/-- The handler of a command. -/
def Command.handler (callbacks : Callbacks S) : Command → Handler S
  | .ping => pingCommand | .echo => echoCommand | .command => commandCommand
  | .dbsize => databaseCommand dbsizeCommand | .flushdb => databaseCommand flushdbCommand
  | .select => selectCommand | .quit => quitCommand | .info => infoCommand | .save => saveCommand
  | .bgsave => bgsaveCommand | .bgrewriteaof => bgrewriteaofCommand | .config => configCommand
  | .debug => debugCommand
  | .lpush => lpushCommand callbacks.wake | .rpush => rpushCommand callbacks.wake
  | .lpop => databaseCommand lpopCommand | .rpop => databaseCommand rpopCommand
  | .blpop => blpopCommand | .brpop => brpopCommand
  | .lrange => databaseCommand lrangeCommand | .llen => databaseCommand llenCommand
  | .hset => databaseCommand hsetCommand | .hget => databaseCommand hgetCommand
  | .hgetall => databaseCommand hgetallCommand
  | .sadd => databaseCommand saddCommand | .srem => databaseCommand sremCommand
  | .sismember => databaseCommand sismemberCommand | .smembers => databaseCommand smembersCommand
  | .zadd => zaddHandler | .zrange => databaseCommand zrangeCommand
  | .zrank => databaseCommand zrankCommand | .zscore => databaseCommand zscoreCommand
  | .zrem => databaseCommand zremCommand
  | .set => setHandler | .get => databaseCommand getCommand | .del => databaseCommand delCommand
  | .«exists» => databaseCommand existsCommand | .mset => databaseCommand msetCommand
  | .mget => databaseCommand mgetCommand | .incr => databaseCommand incrCommand
  | .decr => databaseCommand decrCommand | .incrby => databaseCommand incrbyCommand
  | .decrby => databaseCommand decrbyCommand | .append => databaseCommand appendCommand
  | .strlen => databaseCommand strlenCommand | .setnx => databaseCommand setnxCommand
  | .type => databaseCommand typeCommand | .rename => databaseCommand renameCommand
  | .keys => databaseCommand keysCommand | .expire => databaseCommand expireCommand
  | .pexpire => databaseCommand pexpireCommand | .expireat => databaseCommand expireatCommand
  | .pexpireat => databaseCommand pexpireatCommand | .ttl => databaseCommand ttlCommand
  | .pttl => databaseCommand pttlCommand | .persist => databaseCommand persistCommand
  | .multi => multiCommand | .exec => execCommand callbacks.runQueued | .discard => discardCommand
  | .watch => watchCommand | .unwatch => unwatchCommand
  | .subscribe => subscribeCommand | .unsubscribe => unsubscribeCommand
  | .psubscribe => psubscribeCommand | .punsubscribe => punsubscribeCommand
  | .publish => publishCommand
  | .replicaof => replicaofCommand | .replconf => replconfCommand | .psync => psyncCommand
  | .wait => waitCommand

/-! ### Eviction -/

/-- `std::string::find(…) != npos`. -/
def isInfix (s t : Bytes) : Bool := t.tails.any s.isPrefixOf

/-- The choice of `evictKeysIfNeeded` among sampled keys, by a number for each: the last key, or the
first, of those with the best number so far. -/
def bestOf (better : ℕ → ℕ → Bool) (measure : Bytes → DbM S (Option ℕ)) :
    ℕ → Bytes → List Bytes → DbM S Bytes
  | _, bestKey, [] => return bestKey
  | best, bestKey, key :: keys => do
    match ← measure key with
    | some n =>
      if better n best then bestOf better measure n key keys
      else bestOf better measure best bestKey keys
    | none => bestOf better measure best bestKey keys

/-- The object of a key, as a number. -/
def objectMeasure (f : RedisObject S → ℕ) (key : Bytes) : DbM S (Option ℕ) := do
  return (← DbM.getObject key).map f

/-- The key that `evictKeysIfNeeded` evicts from a database, if it samples one. -/
def keyToEvict (policy : Bytes) (samples : ℤ) : DbM S (Option Bytes) := do
  match ← DbM.randomSample samples ((str "volatile").isPrefixOf policy) with
  | [] => return none
  | first :: rest =>
    if isInfix (str "random") policy then return some first
    else if policy = str "volatile-ttl" then
      let ttl : Bytes → DbM S (Option ℕ) := fun key => do
        let ttl ← DbM.pttl key
        return if 0 ≤ ttl then some ttl.toNat else none
      return some (← bestOf (fun n best => n < best) ttl (2 ^ 63 - 1) [] (first :: rest))
    else if isInfix (str "lfu") policy then
      return some (← bestOf (fun n best => n < best)
        (objectMeasure fun obj => (obj.lruClock &&& 0xFF).toNat) 256 [] (first :: rest))
    else
      let clock ← .read fun s => s.memory.lruClock
      let bestKey ← bestOf (fun n best => best ≤ n)
        (objectMeasure fun obj => (clock - obj.lruClock).toNat) 0 [] (first :: rest)
      return some (if bestKey = [] then first else bestKey)

/-- One turn of the loop of `evictKeysIfNeeded` over the databases: whether a key was evicted. -/
def evictOne (policy : Bytes) (samples : ℤ) (target : ℕ) : DbM S Bool := do
  if (← .read fun s => s.memory.usedMemory) ≤ target then return false
  else
    match ← keyToEvict policy samples with
    | none => return false
    | some [] => return false
    | some key =>
      let _ ← DbM.del key
      return true

/-- The loop of `evictKeysIfNeeded`. A round that evicts removes a key, so there are at most as many
rounds as there are keys and deadlines. -/
def evictRounds {k : Option RespValue} {c : Option ClientId} (policy : Bytes) (samples : ℤ)
    (target : ℕ) : ℕ → EffectM S k c Exn Unit
  | 0 => return ()
  | rounds + 1 => do
    if (← .read fun s => s.env.memory.usedMemory) ≤ target then return ()
    else
      let count ← .read fun s => s.databases.length
      let evicted ← (List.range count).foldlM (fun evicted i => do
        return (← onDatabaseAt i (evictOne policy samples target)) || evicted) false
      if evicted then evictRounds policy samples target rounds else return ()

/-- `evictKeysIfNeeded`. -/
def evictKeysIfNeeded {k : Option RespValue} {c : Option ClientId} : EffectM S k c Exn Unit := do
  let config ← .read fun s => s.config
  if config.maxMemory = 0 ∨ config.maxMemoryPolicy = str "noeviction" then return ()
  else
    let keys ← .read fun s => (s.databases.map fun db => db.size + db.expiresSize).sum
    evictRounds config.maxMemoryPolicy
      (if 0 < config.maxMemorySamples then config.maxMemorySamples else 5)
      (asUInt64 config.maxMemory) (keys + 1)

/-! ### `executeCommand` -/

/-- `executeCommand` does not count on memory: over the limit it evicts, and still over the limit it
refuses a write. Nothing in an eviction throws. -/
def outOfMemory {k : Option RespValue} {c : Option ClientId} (cmd : Command) :
    EffectM S k c Empty Bool := do
  let config ← .read fun s => s.config
  let isOver : Server S → Bool := fun s => asUInt64 config.maxMemory < s.env.memory.usedMemory
  if .write ∉ cmd.flags ∨ config.maxMemory ≤ 0 then return false
  else if !(← .read isOver) then return false
  else
    evictKeysIfNeeded.handle fun _ => .undefined
    .read isOver

/-- The arity check. -/
def Command.accepts (cmd : Command) (argCount : ℤ) : Bool :=
  if 0 < cmd.arity then argCount = cmd.arity else !(cmd.arity < 0 ∧ argCount < -cmd.arity)

/-- The commands that are not queued, by the names as they are written here and not otherwise. -/
def runsInMulti (cmdName : Bytes) : Bool :=
  cmdName ∈ [str "EXEC", str "DISCARD", str "MULTI", str "WATCH", str "UNWATCH"]

/-- The reply to an exception. -/
def internalError (e : Exn) : Bytes := error (str "internal error: " ++ e.what)

/-- The `try` block of `executeCommand`. -/
def runHandler {c : ClientId} (callbacks : Callbacks S) (cmd : Command) {name : RespValue}
    (hname : name.IsString) (args : List RespValue) : CommandM S c (.array (name :: args)) :=
  let body : EffectM S (some (.array (name :: args))) (some c) Exn Unit := do
    (cmd.handler callbacks c (name :: args)).lift fun _ _ => .handler
    incrementCommandsProcessed
    ⟨Server.complete c (.write ∈ cmd.flags) (name :: args), fun h => .completed hname h⟩
  body.handle fun e => addReply (internalError e)

/-- `executeCommand`, of a command whose name is a string. -/
def executeNamed {c : ClientId} (callbacks : Callbacks S) {name : RespValue} {cmdName : Bytes}
    (hname : name.asString = .ok cmdName) (args : List RespValue) :
    CommandM S c (.array (name :: args)) :=
  match Command.lookup cmdName with
  | none =>
    addReply (error (str "unknown command '" ++ cmdName ++ str "', with args beginning with: "))
  | some cmd => do
    if ← outOfMemory cmd then
      addReply (error (str "OOM command not allowed when used memory > 'maxmemory'"))
    else if !cmd.accepts (asInt (args.length + 1)) then
      addReply (error (str "wrong number of arguments for '" ++ cmdName ++ str "' command"))
    else
      let cl ← client c
      if cl.hasFlag .multi && !runsInMulti cmdName then
        modifyClient c
          (fun cl => { cl with transactionQueue := cl.transactionQueue ++ [name :: args] })
          fun _ => by constructor <;> rfl
        addReply (simpleString (str "QUEUED"))
      else runHandler callbacks cmd (.of_asString hname) args

/-- `executeCommand`: a program that throws nothing, or the exception that the name of the command
throws before anything is done. -/
def executeCommand (callbacks : Callbacks S) (c : ClientId) :
    (command : RespValue) → Except Exn (CommandM S c command)
  | .array [] => .ok (addReply (error (str "empty command")))
  | .array (name :: args) =>
    match hname : name.asString with
    | .error e => .error e
    | .ok _ => .ok (executeNamed callbacks hname args)
  | _ => .ok (addReply (error (str "invalid command format")))

theorem executeCommand_of_name {callbacks : Callbacks S} {c : ClientId} {name : RespValue} {cmdName : Bytes}
    {args : List RespValue} (hname : name.asString = .ok cmdName) :
    executeCommand callbacks c (.array (name :: args))
      = .ok (executeNamed callbacks hname args) := by
  rw [executeCommand]
  split
  · next e he => exact absurd (he.symm.trans hname) nofun
  · next n hn =>
    cases hn.symm.trans hname
    rfl

/-- The client that waits first for a key. -/
def Server.firstWaiter (key : Bytes) (s : Server S) : Option ClientId :=
  (s.blockedClients.valuesAt key).head?

/-- `handleClientsBlockedOnKey`. -/
def handleClientsBlockedOnKey (callbacks : Callbacks S) (c : ClientId) (key : Bytes) :
    ServerM S c Unit where
  run s :=
    match s.firstWaiter key with
    | none => some (.ok (), s)
    | some id =>
      match s.clients.lookup id, s.unblockClient id with
      | some cl, some t =>
        match executeCommand callbacks id cl.blockCmd with
        | .error e => some (.error e, t.note (.woken id cl.blockCmd))
        | .ok program =>
          match program.run (t.note (.woken id cl.blockCmd)) with
          | none => none
          | some (_, u) =>
            if (u.clients.lookup id).isNone then none
            else some (.ok (), u.installWriteHandler id)
      | _, _ => none
  within {s r t} h := by
    split at h
    · obtain ⟨-, rfl⟩ := Prod.mk.inj (Option.some.inj h)
      exact .refl
    · split at h
      · next cl t' hcl hunblock =>
        split at h
        · obtain ⟨-, rfl⟩ := Prod.mk.inj (Option.some.inj h)
          exact .unblock hcl hunblock
        · next program _ =>
          split at h
          · cases h
          · next r' u hrun =>
            split at h
            · cases h
            · obtain ⟨-, rfl⟩ := Prod.mk.inj (Option.some.inj h)
              exact .wake hcl hunblock (program.within hrun)
      · cases h

/-- The body of the loop of `EXEC`. -/
def runQueued (callbacks : Callbacks S) : Handler S := fun c args => do
  match Command.lookup (← argString args 0) with
  | none => addReply (error (str "unknown command"))
  | some cmd =>
    let body : ServerM S c Unit := do
      cmd.handler callbacks c args
      incrementCommandsProcessed
    body.handle fun e => addReply (internalError e)

/-- What handlers call back, on a stack of a given depth. -/
def callbacks : ℕ → Callbacks S
  | 0 => { wake := fun _ _ => .undefined, runQueued := fun _ _ => .undefined }
  | depth + 1 =>
    { wake := handleClientsBlockedOnKey (callbacks depth), runQueued := runQueued (callbacks depth) }

end Handlers

end RedisDb

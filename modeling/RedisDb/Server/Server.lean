import RedisDb.Networking.Client
import RedisDb.Protocol.RespSerializer
import RedisDb.Storage.DatabaseCalls

/-!
# `Server`

The state of the server, with the connections of its `ConnectionManager` and the write handlers of
its event loop, and the methods that keep the tables of clients: who is subscribed, who is blocked,
who watches what, who is a replica.

A table refers to a client by its address. A method that follows such an address has no outcome when
the client is not there any more.

What the server reads from outside is a stream for each source of readings (`Outside`, and the clock
and the random numbers of `Env`). `trace` and `reading` are history variables, which no method
depends on: `trace` notes the replies, and the calls that later theorems speak about, with what they
found.
-/

namespace RedisDb

/-- `ServerConfig`, as far as the running server reads it. -/
structure ServerConfig where
  port : ℤ := 6379
  maxClients : ℤ := 10000
  clientTimeout : ℤ := 0
  maxMemory : ℤ := 0
  maxMemoryPolicy : Bytes := str "noeviction"
  maxMemorySamples : ℤ := 5
  appendOnly : Bool := false
  appendFsync : Bytes := str "everysec"
  replicaOf : Bytes := []
  replicaOfPort : ℤ := 0

/-- `ReplState`, without `REPL_STATE_CONNECTING`, which no method sets. -/
inductive ReplState where
  | none | connect | receivePong | sendPsync | receivePsync | receiveRdb | connected
deriving DecidableEq, Repr

/-- What the server reads from outside. -/
structure Outside where
  /-- The readings of `steady_clock::now()`, in milliseconds. -/
  steady : ℕ → ℤ := fun _ => 0
  /-- Whether opening a file succeeds. -/
  opens : ℕ → Bool := fun _ => true
  /-- Whether a connection can be initiated. -/
  connects : ℕ → Bool := fun _ => true
  /-- The texts of addresses. -/
  addresses : ℕ → Bytes := fun _ => []
  /-- What uninitialised variables hold. -/
  junk : ℕ → ℕ → UInt8 := fun _ _ => 0
  /-- The generators of the sorted sets still to be made. -/
  rngs : ℕ → ℕ → Height := fun _ _ => ⟨1, one_inLevels⟩
  /-- The generators of the databases still to be copied. -/
  copyRngs : ℕ → Bytes → ℕ → Height := fun _ _ _ => ⟨1, one_inLevels⟩

/-- The circular buffer of the replication backlog. `off` and `histLen` are `int64_t`, and as integers they
have their values as long as fewer than `2 ^ 63` bytes have been fed. -/
structure ReplBacklog where
  /-- `replBacklogSize_`. -/
  size : ℕ := 1024 * 1024
  /-- `replBacklog_`, which has its size from the first call of `feedReplicationBacklog` on. -/
  buffer : Bytes := []
  off : ℤ := 0
  histLen : ℤ := 0
  idx : ℕ := 0

/-- One turn of the loop of `feedReplicationBacklog`. -/
def ReplBacklog.feedByte (b : ReplBacklog) (c : UInt8) : ReplBacklog where
  size := b.size
  buffer := b.buffer.set b.idx c
  idx := (b.idx + 1) % b.size
  histLen := if b.histLen < b.size then b.histLen + 1 else b.histLen
  off := if b.histLen < b.size then b.off else b.off + 1

/-- The resizing of `replBacklog_` where it is empty. -/
def ReplBacklog.allocate (b : ReplBacklog) : ReplBacklog :=
  if b.buffer = [] then { b with buffer := List.replicate b.size 0 } else b

/-- `feedReplicationBacklog`, as far as the backlog goes. -/
def ReplBacklog.feed (b : ReplBacklog) (data : Bytes) : ReplBacklog :=
  data.foldl ReplBacklog.feedByte b.allocate

/-- What the trace notes. -/
inductive Event where
  /-- `addReply`. -/
  | reply (client : ClientId) (data : Bytes)
  /-- `addReply` to a replica, and whether its output is scheduled: it has a write handler, or it is
  the client whose command is propagated or whose socket is being read. -/
  | propagated (client : ClientId) (data : Bytes) (scheduled : Bool)
  /-- The handler of a command has returned to `executeCommand`, and whether it is a write command. -/
  | completed (writes : Bool) (args : List RespValue)
  /-- `addReplica`, of a client that may be a replica already. -/
  | attached (client : ClientId) (again : Bool)
  /-- `blockClient`, with the command, and the keys on which the client was to wait before and is not any
  more. -/
  | blocked (client : ClientId) (command : RespValue) (left : List Bytes)
  /-- `handleClientsBlockedOnKey` executes the command of a client again. -/
  | woken (client : ClientId) (command : RespValue)
  /-- `removeClient`, and whether a table refers to the client after it. -/
  | removed (client : ClientId) (referred : Bool)
  /-- The reply to a client whose blocking has timed out, and whether it has a write handler. -/
  | timedOut (client : ClientId) (scheduled : Bool)
  /-- A call of `pushGeneric` on a database, and the clients that wait for the key, each with the
  database it has selected. -/
  | pushes (args : List RespValue) (db : ℕ) (waiters : List (ClientId × ℕ))
  /-- A call of `zaddCommand`, and whether there is an object at the key. -/
  | zadd (args : List RespValue) (present : Bool)
  /-- `CONFIG SET` has turned `appendOnly` off. -/
  | appendOnlyOff
  /-- `setReplicationMaster`. -/
  | masterSet
  /-- `REPLICAOF NO ONE`, and what `masterHost_` is after it. -/
  | promoted (host : Bytes)

/-- `Server`. -/
structure Server (S : Type) where
  config : ServerConfig := {}
  databases : List (Database S)
  env : Env := idleEnv
  outside : Outside := {}
  /-- Whether `connManager_` has been made. -/
  serving : Bool := true
  /-- The clients that are there, which are those of the connection manager while it serves. -/
  clients : UnorderedMap ClientId Client := ∅
  /-- The next client to be made. -/
  nextClient : ClientId := 0
  /-- The clients whose socket has a handler for `EVENT_WRITABLE`. -/
  writable : List ClientId := []
  totalConnectionsReceived : ℕ := 0
  startTime : ℤ := 0
  totalCommandsProcessed : ℕ := 0
  /-- The copies that a background save is writing: `bgsaveInProgress_`. -/
  bgsave : Option (List (Database S)) := none
  /-- `bgrewriteaofInProgress_`, and the copies that a rewrite is writing. -/
  bgrewriteaofInProgress : Bool := false
  rewrite : Option (List (Database S)) := none
  lastSaveTime : ℤ := 0
  /-- The file that `save` has written last. -/
  dump : Option Bytes := none
  aofBuffer : Bytes := []
  /-- What has been written to `aofStream_`, if it is open. -/
  aofStream : Option Bytes := none
  lastAofFsyncTime : ℤ := 0
  pubsubChannels : Index Bytes ClientId := ∅
  pubsubPatterns : List (Bytes × ClientId) := []
  blockedClients : Index Bytes ClientId := ∅
  masterHost : Bytes := []
  masterPort : ℤ := 0
  masterClient : Option ClientId := none
  replState : ReplState := .none
  replId : Bytes := []
  /-- An `int64_t`, exact below `2 ^ 63` bytes. -/
  masterReplOffset : ℤ := 0
  replicas : List ClientId := []
  backlog : ReplBacklog := {}
  /-- The client whose socket is being read. -/
  reading : Option ClientId := none
  trace : List Event := []

namespace Server

variable {S : Type}

/-- Put an event into the trace. -/
def note (e : Event) (s : Server S) : Server S := { s with trace := s.trace ++ [e] }

/-! ### Clients -/

/-- Change a client through a pointer to it. -/
def updateClient (id : ClientId) (f : Client → Client) (s : Server S) : Option (Server S) :=
  (s.clients.lookup id).map fun cl => { s with clients := s.clients.insert id (f cl) }

/-- `addReply`. -/
def addReply (id : ClientId) (data : Bytes) (s : Server S) : Option (Server S) :=
  (s.updateClient id (·.addReply data)).map (note (.reply id data))

/-- `ConnectionManager::installWriteHandler`, where there is a connection manager. -/
def installWriteHandler (id : ClientId) (s : Server S) : Server S :=
  if s.serving then { s with writable := id :: s.writable } else s

/-- `ConnectionManager::removeWriteHandler`. -/
def removeWriteHandler (id : ClientId) (s : Server S) : Server S :=
  { s with writable := s.writable.filter (· ≠ id) }

/-! ### Databases -/

/-- The index that `getDatabase` goes to. -/
def databaseIndex (index : ℤ) (s : Server S) : ℕ :=
  if index < 0 ∨ asInt s.databases.length ≤ index then 0 else index.toNat

/-- Set `CLIENT_DIRTY_EXEC` on clients. -/
def flagDirty : List ClientId → Server S → Option (Server S)
  | [], s => some s
  | id :: ids, s => (s.updateClient id (·.setFlag .dirtyExec)).bind (flagDirty ids)

/-- A database in the environment of the server. -/
def dbState (db : Database S) (s : Server S) : DbState S := { s.env with flagged := [], db := db }

/-- The server after something has been done to its databases. -/
def putDatabases (databases : List (Database S)) (env : Env) (s : Server S) : Option (Server S) :=
  { s with databases := databases, env := env }.flagDirty env.flagged

/-- The server after something has been done to its database `i`. -/
def putDatabase (i : ℕ) (ds : DbState S) (s : Server S) : Option (Server S) :=
  s.putDatabases (s.databases.set i ds.db) ds.toEnv

/-! ### Watching -/

/-- The body of the loop of `WATCH`, on database `i`. -/
def watch (id : ClientId) (i : ℕ) (key : Bytes) (s : Server S) : Option (Server S) :=
  (s.databases[i]?).bind fun db =>
    ({ s with databases := s.databases.set i ((s.dbState db).addWatchedKey key id).db }).updateClient
      id fun cl => { cl with watchedKeys := cl.watchedKeys.insert key () }

/-- A database without the entries of a client for some keys in `watchedKeys_`. -/
def forgetWatched (id : ClientId) (keys : List Bytes) (ds : DbState S) : DbState S :=
  keys.foldl (fun ds key => ds.removeWatchedKey key id) ds

/-- The loops that remove a client from `watchedKeys_` of every database, for each of the keys it
watches. -/
def unwatch (id : ClientId) (s : Server S) : Option (Server S) :=
  (s.clients.lookup id).map fun cl =>
    { s with
      databases := s.databases.map fun db => (forgetWatched id cl.watchedKeys.keys (s.dbState db)).db
      clients := s.clients.insert id { cl with watchedKeys := ∅ } }

/-! ### Publish and subscribe -/

/-- `subscribeChannel`. -/
def subscribeChannel (id : ClientId) (channel : Bytes) (s : Server S) : Option (Server S) :=
  (s.clients.lookup id).map fun cl =>
    if channel ∈ cl.pubsubChannels then s
    else
      { s with
        clients := s.clients.insert id
          { cl with pubsubChannels := cl.pubsubChannels.insert channel () }
        pubsubChannels := s.pubsubChannels.push channel id }

/-- `unsubscribeChannel`. -/
def unsubscribeChannel (id : ClientId) (channel : Bytes) (s : Server S) : Option (Server S) :=
  (s.clients.lookup id).map fun cl =>
    if channel ∈ cl.pubsubChannels then
      { s with
        clients := s.clients.insert id { cl with pubsubChannels := cl.pubsubChannels.erase channel }
        pubsubChannels := s.pubsubChannels.remove channel id }
    else s

/-- `psubscribePattern`. -/
def psubscribePattern (id : ClientId) (pattern : Bytes) (s : Server S) : Option (Server S) :=
  (s.clients.lookup id).map fun cl =>
    if pattern ∈ cl.pubsubPatterns then s
    else
      { s with
        clients := s.clients.insert id
          { cl with pubsubPatterns := cl.pubsubPatterns.insert pattern () }
        pubsubPatterns := s.pubsubPatterns ++ [(pattern, id)] }

/-- `punsubscribePattern`. -/
def punsubscribePattern (id : ClientId) (pattern : Bytes) (s : Server S) : Option (Server S) :=
  (s.clients.lookup id).map fun cl =>
    if pattern ∈ cl.pubsubPatterns then
      { s with
        clients := s.clients.insert id { cl with pubsubPatterns := cl.pubsubPatterns.erase pattern }
        pubsubPatterns := s.pubsubPatterns.filter (· ≠ (pattern, id)) }
    else s

/-- A message to one receiver of `publishMessage`. -/
def deliver (id : ClientId) (data : Bytes) (s : Server S) : Option (Server S) :=
  (s.addReply id data).map (installWriteHandler id)

/-! ### Blocking -/

/-- The deadline that `blockClient` sets. -/
def blockDeadline (timeout : ℤ) (s : Server S) : ℤ × Server S :=
  if 0 < timeout then
    (asInt64 (s.env.clock 0 + timeout),
      { s with env := { s.env with clock := fun k => s.env.clock (k + 1) } })
  else (0, s)

/-- `blockClient`. -/
def blockClient (id : ClientId) (keys : List Bytes) (timeout : ℤ) (cmd : RespValue) (target : Bytes)
    (s : Server S) : Option (Server S) :=
  (s.clients.lookup id).map fun cl =>
    let (deadline, s) := s.blockDeadline timeout
    { s with
      clients := s.clients.insert id
        { cl.setFlag .blocked with blockedKeys := keys, blockTimeout := deadline
                                   blockTarget := target, blockCmd := cmd }
      blockedClients := s.blockedClients.pushAll keys id }.note
        (.blocked id cmd (cl.blockedKeys.filter (· ∉ keys)))

/-- `unblockClient`. -/
def unblockClient (id : ClientId) (s : Server S) : Option (Server S) :=
  (s.clients.lookup id).map fun cl =>
    if cl.hasFlag .blocked then
      { s with
        clients := s.clients.insert id cl.clearBlockState
        blockedClients := s.blockedClients.removeAll cl.blockedKeys id }
    else s

/-! ### Replicas -/

/-- `addReplica`. -/
def addReplica (id : ClientId) (s : Server S) : Option (Server S) :=
  (s.updateClient id (·.setFlag .slave)).map fun t =>
    { t with replicas := t.replicas ++ [id] }.note (.attached id (id ∈ s.replicas))

/-- `removeReplica`, which takes out one entry. -/
def removeReplica (id : ClientId) (s : Server S) : Server S :=
  { s with replicas := s.replicas.erase id }

/-! ### Disconnecting -/

/-- The first half of `closeClient`, about subscriptions. -/
def closeSubscriptions (id : ClientId) (cl : Client) (s : Server S) : Server S :=
  { s with
    clients := s.clients.insert id { cl with pubsubChannels := ∅, pubsubPatterns := ∅ }
    pubsubChannels := s.pubsubChannels.removeAll cl.pubsubChannels.keys id
    pubsubPatterns := cl.pubsubPatterns.keys.foldl
      (fun patterns pattern => patterns.filter (· ≠ (pattern, id))) s.pubsubPatterns }

/-- The end of `closeClient`, about replication. -/
def closeReplication (id : ClientId) (cl : Client) (s : Server S) : Server S :=
  let s := if cl.hasFlag .slave then s.removeReplica id else s
  if s.masterClient = some id then { s with masterClient := none, replState := .connect } else s

/-- `closeClient`. -/
def closeClient (id : ClientId) (s : Server S) : Option (Server S) := do
  let cl ← s.clients.lookup id
  let s ← (s.closeSubscriptions id cl).unblockClient id
  let s ← s.unwatch id
  return s.closeReplication id cl

/-- Whether a table refers to a client. -/
def refersTo (id : ClientId) (s : Server S) : Bool :=
  s.pubsubChannels.contains id || s.pubsubPatterns.any (·.2 = id) || s.blockedClients.contains id ||
    s.replicas.contains id || s.masterClient = some id ||
    s.databases.any fun db => Index.contains db.watchedKeys id

/-- `ConnectionManager::removeClient`. -/
def removeClient (id : ClientId) (s : Server S) : Option (Server S) :=
  if (s.clients.lookup id).isNone then some s
  else
    (s.closeClient id).map fun s =>
      let s := { s with clients := s.clients.erase id }.removeWriteHandler id
      s.note (.removed id (s.refersTo id))

/-- `disconnectFromMaster`. -/
def disconnectFromMaster (s : Server S) : Option (Server S) :=
  match s.masterClient with
  | none => some { s with replState := .connect }
  | some id =>
    if (s.clients.lookup id).isNone then none
    else
      (removeClient id { s with masterClient := none }).map fun s =>
        { s with replState := .connect }

/-- The assignments of `setReplicationMaster`. -/
def setMaster (host : Bytes) (port : ℤ) (s : Server S) : Server S :=
  { s with masterHost := host, masterPort := port, replState := .connect }.note .masterSet

/-! ### The log of the write commands -/

/-- The text that `propagateToReplicas` makes of a command. -/
def replicationText (args : List Bytes) : Bytes :=
  42 :: toText args.length ++ CRLF ++
    args.flatMap fun s => 36 :: toText s.length ++ CRLF ++ s ++ CRLF

/-- `feedReplicationBacklog`. -/
def feedReplicationBacklog (data : Bytes) (s : Server S) : Server S :=
  { s with backlog := s.backlog.feed data, masterReplOffset := s.masterReplOffset + data.length }

/-- The loop of `propagateToReplicas`, for a command of the client `writer`. -/
def replyToReplicas (writer : ClientId) (data : Bytes) :
    List ClientId → Server S → Option (Server S)
  | [], s => some s
  | id :: ids, s =>
    ((s.updateClient id (·.addReply data)).map
      (note (.propagated id data (id ∈ s.writable ∨ id = writer ∨ s.reading = some id)))).bind
        (replyToReplicas writer data ids)

/-- `propagateToReplicas`, for a command of the client `writer`. -/
def propagateToReplicas (writer : ClientId) (cmd : List RespValue) (s : Server S) :
    Option (Except Exn Unit × Server S) :=
  if s.replicas = [] ∧ s.backlog.histLen = 0 ∧ s.replId = [] then some (.ok (), s)
  else
    match cmd.mapM RespValue.asString with
    | .error e => some (.error e, s)
    | .ok args =>
      (replyToReplicas writer (replicationText args) s.replicas
        (s.feedReplicationBacklog (replicationText args))).map (.ok (), ·)

/-- What `executeCommand` puts into `aofBuffer_` for a write command. -/
def appendToAof (cmd : List RespValue) (s : Server S) : Except Exn Unit × Server S :=
  if s.config.appendOnly then
    match cmd.mapM RespValue.asString with
    | .error e => (.error e, s)
    | .ok args =>
      (.ok (), if args = [] then s
        else { s with aofBuffer := s.aofBuffer ++ RespSerializer.bulkStringArray args })
  else (.ok (), s)

/-- What `executeCommand` does for a write command after its handler has returned. -/
def logWrite (writer : ClientId) (cmd : List RespValue) (s : Server S) :
    Option (Except Exn Unit × Server S) :=
  match s.appendToAof cmd with
  | (.error e, s) => some (.error e, s)
  | (.ok (), s) => s.propagateToReplicas writer cmd

/-- What `executeCommand` does after the handler of a command has returned. The trace notes every command,
and the log gets those that write. -/
def complete (writer : ClientId) (writes : Bool) (cmd : List RespValue) (s : Server S) :
    Option (Except Exn Unit × Server S) :=
  let s := s.note (.completed writes cmd)
  if writes then s.logWrite writer cmd else some (.ok (), s)

/-! #### What logging keeps

An invariant of the server is kept at the end of a command if the three steps keep it that logging is made
of: text goes into a buffer, the backlog is fed, and a replica is sent the text. -/

section Keeps

variable {I : Server S → Prop} {writer : ClientId} {writes : Bool} {cmd : List RespValue} {s t : Server S}
  {r : Except Exn Unit}

/-- By induction on the replicas. -/
theorem replyToReplicas_keeps {data : Bytes} (ids : List ClientId) : ∀ {s t : Server S},
    (∀ {u v : Server S} {id}, id ∈ ids → u.updateClient id (·.addReply data) = some v → I u →
      I (v.note (.propagated id data (id ∈ u.writable ∨ id = writer ∨ u.reading = some id)))) →
    s.replyToReplicas writer data ids = some t → I s → I t := by
  induction ids with
  | nil => exact fun _ h hs => Option.some.inj h ▸ hs
  | cons id ids ih =>
    intro s t hsend h hs
    obtain ⟨u, hu, ht⟩ := Option.bind_eq_some_iff.mp h
    obtain ⟨v, hv, rfl⟩ := Option.map_eq_some_iff.mp hu
    exact ih (fun hid => hsend (List.mem_cons_of_mem _ hid)) ht (hsend List.mem_cons_self hv hs)

/-- The buffer of the append-only file is all that changes. -/
theorem appendToAof_spec (cmd : List RespValue) (s : Server S) :
    ∃ buffer, (s.appendToAof cmd).2 = { s with aofBuffer := buffer } := by
  unfold appendToAof
  split
  · split
    · exact ⟨_, rfl⟩
    · dsimp only
      split <;> exact ⟨_, rfl⟩
  · exact ⟨_, rfl⟩

/-- The replicas are sent the text of the command. -/
theorem propagateToReplicas_keeps (hfeed : ∀ data, I s → I (s.feedReplicationBacklog data))
    (hsend : ∀ {u v : Server S} {id args}, cmd.mapM RespValue.asString = .ok args → id ∈ s.replicas →
      u.updateClient id (·.addReply (replicationText args)) = some v → I u →
      I (v.note (.propagated id (replicationText args) (id ∈ u.writable ∨ id = writer ∨ u.reading = some id))))
    (h : s.propagateToReplicas writer cmd = some (r, t)) (hs : I s) : I t := by
  unfold propagateToReplicas at h
  split at h
  · obtain ⟨-, rfl⟩ := Prod.mk.inj (Option.some.inj h)
    exact hs
  · split at h
    · obtain ⟨-, rfl⟩ := Prod.mk.inj (Option.some.inj h)
      exact hs
    · next args hargs =>
      obtain ⟨v, hv, heq⟩ := Option.map_eq_some_iff.mp h
      obtain ⟨-, rfl⟩ := Prod.mk.inj heq
      exact replyToReplicas_keeps _ (fun hid => hsend hargs hid) hv (hfeed _ hs)

/-- **What logging keeps**: the steps may use that a replica is sent the text of the command. -/
theorem logWrite_keeps (happend : ∀ buffer, I s → I { s with aofBuffer := buffer })
    (hfeed : ∀ (u : Server S) data, I u → I (u.feedReplicationBacklog data))
    (hsend : ∀ {u v : Server S} {id args}, cmd.mapM RespValue.asString = .ok args → id ∈ s.replicas →
      u.updateClient id (·.addReply (replicationText args)) = some v → I u →
      I (v.note (.propagated id (replicationText args) (id ∈ u.writable ∨ id = writer ∨ u.reading = some id))))
    (h : s.logWrite writer cmd = some (r, t)) (hs : I s) : I t := by
  obtain ⟨buffer, hbuffer⟩ := appendToAof_spec cmd s
  unfold logWrite at h
  split at h
  · next heq =>
    obtain ⟨-, rfl⟩ := Prod.mk.inj (Option.some.inj h)
    obtain rfl := hbuffer.symm.trans (congrArg Prod.snd heq)
    exact happend buffer hs
  · next heq =>
    obtain rfl := hbuffer.symm.trans (congrArg Prod.snd heq)
    exact propagateToReplicas_keeps (s := { s with aofBuffer := buffer }) (hfeed _) hsend h (happend buffer hs)

/-- **What the note and the logging keep, the end of a command keeps.** -/
theorem complete_keeps (hnote : I (s.note (.completed writes cmd)))
    (hlog : ∀ {u v r}, writes = true → u.logWrite writer cmd = some (r, v) → I u → I v)
    (h : s.complete writer writes cmd = some (r, t)) : I t := by
  cases writes with
  | true => exact hlog rfl h hnote
  | false =>
    obtain ⟨-, rfl⟩ := Prod.mk.inj (Option.some.inj h)
    exact hnote

end Keeps

end Server

end RedisDb

import RedisDb.Commands.CommandRegistry

/-!
# The event loop

What the event loop calls: `TcpServer::onAccept`, `ConnectionManager::onReadable` and `onWritable`,
and the timer `Server::serverCron`. Each is a function of the state that has no value where the
behaviour is undefined, or where an exception leaves the callback and so ends the process.

What the operating system answers to a callback is part of its label (`Turn`), so a run of the
server is a sequence of labels.
-/

namespace RedisDb

open RespSerializer

variable {S : Type}

namespace Server

/-! ### Connections -/

/-- The constructor of `Client`, and its place among the clients. -/
def makeClient (f : Client → Client) (s : Server S) : ClientId × Server S :=
  let (now, s) := s.steadyNow
  (s.nextClient, { s with
    clients := s.clients.insert s.nextClient (f { lastInteraction := now })
    nextClient := s.nextClient + 1
    totalConnectionsReceived := s.totalConnectionsReceived + 1 })

/-- `ConnectionManager::addClient`. -/
def addClient (s : Server S) : Server S :=
  if s.config.maxClients ≤ asInt s.clients.size then s else (s.makeClient id).2

/-- `connectToMaster`. The connection has both handlers from the start. -/
def connectToMaster (s : Server S) : Server S :=
  let connects := s.outside.connects 0
  let s := { s with outside := { s.outside with connects := fun i => s.outside.connects (i + 1) } }
  if !connects then s
  else
    let ping := bulkStringArray [str "PING"]
    let (id, s) := s.makeClient fun cl => (cl.setFlag .master).addReply ping
    { s with writable := id :: s.writable, masterClient := some id
             replState := .receivePong }.note (.reply id ping)

/-- `closeIdleClients`, of the clients that `toClose` lists. -/
def closeClients : List ClientId → Server S → Option (Server S)
  | [], s => some s
  | id :: ids, s => (s.removeClient id).bind (closeClients ids)

/-- `closeIdleClients`. -/
def closeIdleClients (timeoutSeconds : ℤ) (s : Server S) : Option (Server S) :=
  if timeoutSeconds ≤ 0 then some s
  else
    let (now, s) := s.steadyNow
    let toClose := s.clients.entries.filter fun e : (_ : ClientId) × Client =>
      !e.2.hasFlag .slave && !e.2.hasFlag .master &&
        timeoutSeconds ≤ (now - e.2.lastInteraction).tdiv 1000
    s.closeClients (toClose.map (·.1))

/-! ### The timer -/

/-- `flushAof`. -/
def flushAof (s : Server S) : Server S :=
  match s.aofStream with
  | some out =>
    if s.config.appendOnly ∧ s.aofBuffer ≠ [] then
      { s with aofStream := some (out ++ s.aofBuffer), aofBuffer := [] }
    else s
  | none => s

/-- The part of `serverCron` about the append-only file. -/
def cronFlush (s : Server S) : Server S :=
  if s.config.appendOnly ∧ s.config.appendFsync = str "everysec" then
    let (now, s) := s.steadyNow
    if s.lastAofFsyncTime < now / 1000 then { s.flushAof with lastAofFsyncTime := now / 1000 } else s
  else s

/-- The clients of `blockedClients_` whose time is up. -/
def timedOutClients (nowMs : ℤ) (s : Server S) : Option (List ClientId) :=
  let blocked := s.blockedClients.entries.flatMap fun e : (_ : Bytes) × List ClientId => e.2
  (blocked.mapM fun id => (s.clients.lookup id).map fun cl => (id, cl.blockTimeout)).map fun deadlines =>
    (deadlines.filter fun e => 0 < e.2 ∧ e.2 ≤ nowMs).map Prod.fst

/-- The body of the loop of `serverCron` over the clients whose time is up. -/
def timeOut (id : ClientId) (s : Server S) : Option (Server S) :=
  (s.clients.lookup id).bind fun cl =>
    if cl.hasFlag .blocked then
      ((s.updateClient id (·.addReply nullArray)).map (note (.timedOut id (id ∈ s.writable)))).bind
        (unblockClient id)
    else some s

/-- The loop of `serverCron` over the clients whose time is up. -/
def timeOutAll : List ClientId → Server S → Option (Server S)
  | [], s => some s
  | id :: ids, s => (s.timeOut id).bind (timeOutAll ids)

/-- `replicationCron`. -/
def replicationCron (s : Server S) : Server S :=
  if s.masterHost ≠ [] ∧ s.replState = .connect then s.connectToMaster else s

variable [Platform]

/-- The loop of `serverCron` over the databases. -/
def expireAll : EffectM S none none Exn Unit := do
  let count ← .read fun s => s.databases.length
  forM (List.range count) fun i => do
    let _ ← EffectM.onDatabaseAt i (DbM.activeExpireCycle 20)

/-- `serverCron`. -/
def serverCron (s : Server S) : Option (Server S) :=
  let (nowLru, s) := s.steadyNow
  let memory := { s.env.memory with lruClock := UInt32.ofNat (nowLru / 1000).toNat }
  (expireAll.run { s with env := { s.env with memory := memory } }).bind fun x =>
    (if 0 < x.2.config.clientTimeout then x.2.closeIdleClients x.2.config.clientTimeout
      else some x.2).bind fun s =>
    (s.cronFlush.timedOutClients nowLru).bind fun ids =>
    (s.cronFlush.timeOutAll ids).map replicationCron

/-! ### The link to the master -/

section Master

variable [Double S] [Inhabited S] [LT S] [DecidableLT S] [BEq S]

/-- The end of a full resynchronisation: the file is written and loaded. -/
def receiveRdb (contents : Bytes) (s : Server S) : Option (Server S) :=
  let (opens, s) := s.openFile
  if !opens then s.disconnectFromMaster
  else
    match Rdb.loadFromFile (some contents) (s.outside.junk 0) s.outside.rngs s.databases
        { s.env with flagged := [] } with
    | .error _ => none
    | .ok (loaded, databases, env) =>
      (s.putDatabases databases env).bind fun s =>
        if loaded then some { s with replState := .connected } else s.disconnectFromMaster

/-- `syncWithMaster`. -/
def syncWithMaster (id : ClientId) (reply : RespValue) (s : Server S) : Option (Server S) :=
  match reply.asString with
  | .error _ => none
  | .ok replyStr =>
    match s.replState with
    | .receivePong =>
      if replyStr = str "PONG" then
        (s.addReply id (bulkStringArray
          [str "REPLCONF", str "listening-port", toText s.config.port])).map fun s =>
          { s with replState := .sendPsync }
      else s.disconnectFromMaster
    | .sendPsync =>
      if replyStr = str "OK" then
        (s.addReply id (bulkStringArray [str "PSYNC", str "?", str "-1"])).map fun s =>
          { s with replState := .receivePsync }
      else s.disconnectFromMaster
    | .receivePsync =>
      if (str "FULLRESYNC").isPrefixOf replyStr then some { s with replState := .receiveRdb }
      else if (str "CONTINUE").isPrefixOf replyStr then some { s with replState := .connected }
      else s.disconnectFromMaster
    | .receiveRdb =>
      match reply with
      | .bulkString contents | .simpleString contents => s.receiveRdb contents
      | _ => s.disconnectFromMaster
    | _ => some s

/-! ### Sockets -/

/-- The loop of `processClientInput`. An exception that `executeCommand` throws is caught nowhere. -/
def runCommands (depth : ℕ) (id : ClientId) : List RespValue → Server S → Option (Server S)
  | [], s => some s
  | command :: commands, s =>
    (s.clients.lookup id).bind fun cl =>
      if cl.hasFlag .blocked then some s
      else
        (if cl.hasFlag .master ∧ s.replState ≠ .connected then s.syncWithMaster id command
          else
            match executeCommand (callbacks depth) id command with
            | .error _ => none
            | .ok program => (program.run s).map Prod.snd).bind fun s =>
        (s.clients.lookup id).bind fun cl =>
          if cl.hasFlag .closeAsap then some s else runCommands depth id commands s

/-- The beginning of `processClientInput`: the commands that have been read, and the server without
their input. -/
def takeInput (reserve : Reserve) (id : ClientId) (s : Server S) :
    Option (List RespValue × Server S) :=
  (s.clients.lookup id).bind fun cl =>
    match RespParser.parse reserve cl.inputBuffer with
    | .error _ => none
    | .ok result =>
      (s.updateClient id fun cl =>
        if 0 < result.bytesConsumed then
          { cl with inputBuffer := consumeInput cl.inputBuffer result.bytesConsumed }
        else cl).map (result.commands, ·)

/-- `processClientInput`. -/
def processClientInput (reserve : Reserve) (depth : ℕ) (id : ClientId) (s : Server S) :
    Option (Server S) :=
  (s.takeInput reserve id).bind fun x => x.2.runCommands depth id x.1

/-- What `recv` answers. -/
inductive ReadResult where
  | data (bytes : Bytes)
  | closed
  | wouldBlock

/-- `MAX_INPUT_BUFFER`. -/
def maxInputBuffer : ℕ := 1024 * 1024 * 1024

omit [Platform] [Double S] [Inhabited S] [LT S] [DecidableLT S] [BEq S] in
/-- `Client::readFromSocket`, of a client that has sent something. -/
def received (id : ClientId) (cl : Client) (bytes : Bytes) (s : Server S) : Server S :=
  let (now, s) := s.steadyNow
  { s with
    clients := s.clients.insert id
      { cl with inputBuffer := cl.inputBuffer ++ bytes, lastInteraction := now }
    reading := some id }

/-- `ConnectionManager::onReadable`. -/
def onReadable (reserve : Reserve) (depth : ℕ) (id : ClientId) (answer : ReadResult) (s : Server S) :
    Option (Server S) :=
  match s.clients.lookup id with
  | none => some s
  | some cl =>
    match answer with
    | .wouldBlock => some s
    | .closed => s.removeClient id
    | .data bytes =>
      (if maxInputBuffer < (cl.inputBuffer ++ bytes).length then (s.received id cl bytes).removeClient id
      else
        ((s.received id cl bytes).processClientInput reserve depth id).bind fun s =>
          (s.clients.lookup id).map fun cl =>
            if cl.hasPendingOutput then s.installWriteHandler id else s).map
        fun s => { s with reading := none }

end Master

/-- What `send` answers. -/
inductive WriteResult where
  | wrote (bytes : ℕ)
  | wouldBlock
  | failed

/-- The connection is broken. -/
def WriteResult.hasFailed : WriteResult → Bool
  | .failed => true
  | .wrote _ | .wouldBlock => false

omit [Platform] in
/-- `Client::writeToSocket`. -/
def WriteResult.apply (answer : WriteResult) (cl : Client) : Client :=
  match answer with
  | .wrote n =>
    if cl.outputBuffer.length ≤ cl.outputPos + n then { cl with outputBuffer := [], outputPos := 0 }
    else { cl with outputPos := cl.outputPos + n }
  | _ => cl

omit [Platform] in
theorem WriteResult.hasFlag_apply (answer : WriteResult) (cl : Client) (flag : ClientFlag) :
    (answer.apply cl).hasFlag flag = cl.hasFlag flag := by
  cases answer with
  | wrote n =>
    dsimp only [apply]
    split <;> rfl
  | wouldBlock => rfl
  | failed => rfl

omit [Platform] in
theorem WriteResult.input_apply (answer : WriteResult) (cl : Client) :
    (answer.apply cl).inputBuffer = cl.inputBuffer := by
  cases answer with
  | wrote n =>
    dsimp only [apply]
    split <;> rfl
  | wouldBlock => rfl
  | failed => rfl

/-- `ConnectionManager::onWritable`. -/
def onWritable (id : ClientId) (answer : WriteResult) (s : Server S) : Option (Server S) :=
  match s.clients.lookup id with
  | none => some s
  | some cl =>
    let written := if cl.hasPendingOutput then answer.apply cl else cl
    let s := { s with clients := s.clients.insert id written }
    if cl.hasPendingOutput && answer.hasFailed then s.removeClient id
    else if written.hasPendingOutput then some s
    else
      let s := s.removeWriteHandler id
      if written.hasFlag .closeAsap then s.removeClient id else some s

/-! ### Runs -/

variable [Double S] [Inhabited S] [LT S] [DecidableLT S] [BEq S]

/-- A callback, with what the operating system answers to it. -/
inductive Turn where
  | accept
  | readable (id : ClientId) (answer : ReadResult)
  | writable (id : ClientId) (answer : WriteResult)
  | cron

/-- A callback of the event loop. -/
def turn (reserve : Reserve) (depth : ℕ) : Turn → Server S → Option (Server S)
  | .accept, s => some s.addClient
  | .readable id answer, s => s.onReadable reserve depth id answer
  | .writable id answer, s => s.onWritable id answer
  | .cron, s => s.serverCron

/-- Callbacks one after another. -/
def run (reserve : Reserve) (depth : ℕ) : List Turn → Server S → Option (Server S)
  | [], s => some s
  | label :: labels, s => (s.turn reserve depth label).bind (run reserve depth labels)

/-- A server as it starts to serve: with data, and with nobody connected. -/
structure Starts (s : Server S) : Prop where
  serving : s.serving = true
  clients : s.clients = ∅
  writable : s.writable = []
  pubsubChannels : s.pubsubChannels = ∅
  pubsubPatterns : s.pubsubPatterns = []
  blockedClients : s.blockedClients = ∅
  masterClient : s.masterClient = none
  replicas : s.replicas = []
  reading : s.reading = none
  watchedKeys : ∀ db ∈ s.databases, db.watchedKeys = ∅
  trace : s.trace = []

/-- The states reached between callbacks. -/
inductive Reachable (reserve : Reserve) (depth : ℕ) : Server S → Prop
  | start {s : Server S} : s.Starts → Reachable reserve depth s
  | turn {s t : Server S} (label : Turn) : Reachable reserve depth s →
      s.turn reserve depth label = some t → Reachable reserve depth t

theorem Reachable.run {reserve : Reserve} {depth : ℕ} (labels : List Turn) : ∀ {s t : Server S},
    Reachable reserve depth s → s.run reserve depth labels = some t → Reachable reserve depth t := by
  induction labels with
  | nil => exact fun hs h => Option.some.inj h ▸ hs
  | cons label labels ih =>
    intro s t hs h
    obtain ⟨u, hu, ht⟩ := Option.bind_eq_some_iff.mp h
    exact ih (hs.turn label hu) ht

/-- The states reached between commands: between callbacks, and between the commands of one
`processClientInput`. -/
inductive Visited (reserve : Reserve) (depth : ℕ) : Server S → Prop
  | callback {s : Server S} : Reachable reserve depth s → Visited reserve depth s
  | command {s t u : Server S} {id : ClientId} {cl : Client} {bytes : Bytes}
      {commands : List RespValue} (n : ℕ) : Reachable reserve depth s →
      s.clients.lookup id = some cl → (cl.inputBuffer ++ bytes).length ≤ maxInputBuffer →
      (s.received id cl bytes).takeInput reserve id = some (commands, t) →
      t.runCommands depth id (commands.take n) = some u → Visited reserve depth u

end Server

/-! ### A server to compute with -/

namespace Sample

/-- A server with two empty databases. -/
def server : Server Score := { databases := [{}, {}] }

theorem starts_server : server.Starts where
  serving := rfl
  clients := rfl
  writable := rfl
  pubsubChannels := rfl
  pubsubPatterns := rfl
  blockedClients := rfl
  masterClient := rfl
  replicas := rfl
  reading := rfl
  watchedKeys := by simp [server]
  trace := rfl

/-- A client sends a command. -/
def sends (id : ClientId) (args : List String) : Server.Turn :=
  .readable id (.data (bulkStringArray (args.map str)))

/-- The server after some callbacks, with a stack that is deep enough for a push to wake a client
within `EXEC`. -/
def ran (labels : List Server.Turn) : Option (Server Score) :=
  server.run (fun _ => none) 2 labels

theorem reachable_ran {labels : List Server.Turn} {s : Server Score} (h : ran labels = some s) :
    Server.Reachable (fun _ => none) 2 s :=
  (Server.Reachable.start starts_server).run labels h

end Sample

end RedisDb

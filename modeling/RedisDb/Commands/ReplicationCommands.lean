import RedisDb.Server.ServerProgram

/-!
# Replication commands

The handlers of `replication_commands.cpp`, with the methods of `replication.cpp` they call.
-/

namespace RedisDb

open RespSerializer EffectM

variable {S : Type} [Platform] {c : ClientId}

/-- The alphabet of `generateReplId`. -/
def alphanum : Bytes := str "0123456789ABCDEFGHIJKLMNOPQRSTUVWXYZabcdefghijklmnopqrstuvwxyz"

/-- The replication id that the next 40 random numbers make. -/
def Server.freshReplId (s : Server S) : Bytes :=
  (List.range 40).map fun i => alphanum.getD (s.env.random i % 62) 0

omit [Platform] in
theorem Server.freshReplId_ne_nil (s : Server S) : s.freshReplId ≠ [] := by
  simp [Server.freshReplId, List.range_succ]

/-- `generateReplId`. -/
def generateReplId : ServerM S c Unit :=
  modify (fun s => { s with
    replId := s.freshReplId
    env := { s.env with random := fun i => s.env.random (i + 40) } }) fun s =>
    { replId := fun _ => s.freshReplId_ne_nil }

/-- `setReplicationMaster`. -/
def setReplicationMaster (host : Bytes) (port : ℤ) : ServerM S c Unit := do
  call (fun s => (s.setMaster host port).disconnectFromMaster) fun _ _ => .replicate
  let count ← .read fun s => s.databases.length
  forM (List.range count) fun i => onDatabaseAt i DbM.flushDb

/-- The handler of `REPLICAOF`. -/
def replicaofCommand : Handler S := fun _ args => do
  let host ← argString args 1
  let portStr ← argString args 2
  if host = str "NO" ∧ portStr = str "ONE" then
    call Server.disconnectFromMaster fun _ _ => .disconnect
    modify (fun s => s.note (.promoted s.masterHost)) fun _ => Server.aside_note rfl
    addReply (simpleString (str "OK"))
  else
    match stoi portStr with
    | .error _ => addReply (error (str "ERR invalid port"))
    | .ok port =>
      setReplicationMaster host port
      addReply (simpleString (str "OK"))

/-- The handler of `REPLCONF`. -/
def replconfCommand : Handler S := fun _ args => do
  if 3 ≤ args.length then
    if (← argString args 1) ≠ str "ACK" then addReply (simpleString (str "OK"))
  else addReply (simpleString (str "OK"))

/-- What `PSYNC` sends for a snapshot. -/
def emptyRdb : Bytes := str "REDIS0009" ++ [255]

/-- The handler of `PSYNC`. -/
def psyncCommand : Handler S := fun c args => do
  let replId ← argString args 1
  let _offset ← argString args 2
  if (← .read fun s => s.replId) = [] then generateReplId
  let ownId ← .read fun s => s.replId
  let offset ← .read fun s => s.masterReplOffset
  if replId = str "?" ∨ replId ≠ ownId then
    addReply (str "+FULLRESYNC " ++ ownId ++ str " " ++ toText offset ++ CRLF)
    addReply (bulkString emptyRdb)
    call (Server.addReplica c) fun _ _ => .attach
  else
    addReply (simpleString (str "CONTINUE"))
    call (Server.addReplica c) fun _ _ => .attach

/-- The handler of `WAIT`. -/
def waitCommand : Handler S := fun _ _ => do
  addReply (integer (asInt (← .read fun s => s.replicas.length)))

end RedisDb

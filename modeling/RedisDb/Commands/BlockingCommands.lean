import RedisDb.Commands.ListCommands
import RedisDb.Server.ServerProgram

/-!
# Pushes and blocking pops

The handlers of `list_commands.cpp` that reach beyond the database: a push wakes a client that waits
for the key, and a blocking pop that finds nothing blocks its client. Waking runs a command, so how
it is done is a parameter here.
-/

namespace RedisDb

open RespSerializer EffectM

variable {S : Type} [Platform]

/-- The clients that wait for a key, each with the database it has selected. -/
def Server.waiters (key : Bytes) (s : Server S) : List (ClientId × ℕ) :=
  (s.blockedClients.valuesAt key).map fun id =>
    (id, s.databaseIndex ((s.clients.lookup id).elim 0 Client.selectedDb))

/-- A call of `pushGeneric`, as the trace notes it. -/
def Server.pushEvent (c : ClientId) (args : List RespValue) (s : Server S) : Event :=
  .pushes args (s.databaseIndex ((s.clients.lookup c).elim 0 Client.selectedDb))
    (match (args.getD 1 .null).asString with
      | .ok key => s.waiters key
      | .error _ => [])

/-- `pushGeneric`, where `wake` wakes a client that waits for a key. -/
def pushGeneric {c : ClientId} (wake : Bytes → ServerM S c Unit) (args : List RespValue)
    (left : Bool) : ServerM S c Unit := do
  modify (fun s => s.note (s.pushEvent c args)) fun s =>
    Server.aside_note (show (s.pushEvent c args).IsAside s.masterHost from trivial)
  let (reply, pushed) ← onDatabase (pushElements args left)
  addReply reply
  match pushed with
  | some key => wake key
  | none => pure ()

/-- `lpushCommand`. -/
def lpushCommand (wake : (c : ClientId) → Bytes → ServerM S c Unit) : Handler S := fun c args =>
  pushGeneric (wake c) args true

/-- `rpushCommand`, which pushes twice. -/
def rpushCommand (wake : (c : ClientId) → Bytes → ServerM S c Unit) : Handler S := fun c args => do
  pushGeneric (wake c) args false
  pushGeneric (wake c) args false

/-- `blpopCommand` and `brpopCommand`. -/
def blockingPop (left : Bool) : Handler S := fun c args => do
  match ← onDatabase (bpopGeneric args left) with
  | .reply data => addReply data
  | .block keys timeout strings =>
    call (Server.blockClient c keys timeout (.array args) []) fun _ _ => .block strings

/-- `blpopCommand`. -/
def blpopCommand : Handler S := blockingPop true

/-- `brpopCommand`. -/
def brpopCommand : Handler S := blockingPop false

end RedisDb

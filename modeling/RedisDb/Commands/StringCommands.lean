import RedisDb.Protocol.RespSerializer
import RedisDb.Storage.DatabaseCalls

/-!
# String commands

The handlers of `string_commands.cpp`. Each works on the database its client has selected and ends
with one `addReply`, so a handler is modelled by a program over that database that returns the reply.
-/

namespace RedisDb

open RespSerializer

/-- A handler that only works on the database its client has selected: from the arguments to the
reply. -/
abbrev DatabaseCommand (S : Type) [Platform] : Type := List RespValue → DbM S Bytes

variable {S : Type} [Platform]

/-- The options of `SET`. -/
structure SetOptions where
  nx : Bool := false
  xx : Bool := false
  expiryMs : ℤ := -1

/-- The `switch` of the option loop of `setCommand` on an option with a value, which ends in a reply
where the value is refused. -/
def setExpiryOption (o : SetOptions) (scale : ℤ) (value : RespValue) : Except Bytes SetOptions :=
  match converted stoll value with
  | none => .error (error (str "value is not an integer or out of range"))
  | some n =>
    if asInt64 (n * scale) ≤ 0 then .error (error (str "invalid expire time in 'set' command"))
    else .ok { o with expiryMs := asInt64 (n * scale) }

/-- The option loop of `setCommand`. `EX` and `PX` take the next argument, if there is one. -/
def setOptions (o : SetOptions) : List RespValue → DbM S (Except Bytes SetOptions)
  | [] => return .ok o
  | [arg] => do
    let flag := toUpper (← .ofExcept arg.asString)
    if flag = str "NX" then return .ok { o with nx := true }
    else if flag = str "XX" then return .ok { o with xx := true }
    else return .ok o
  | arg :: value :: rest => do
    let flag := toUpper (← .ofExcept arg.asString)
    if flag = str "NX" then setOptions { o with nx := true } (value :: rest)
    else if flag = str "XX" then setOptions { o with xx := true } (value :: rest)
    else if flag = str "EX" then
      match setExpiryOption o 1000 value with
      | .error reply => return .error reply
      | .ok o => setOptions o rest
    else if flag = str "PX" then
      match setExpiryOption o 1 value with
      | .error reply => return .error reply
      | .ok o => setOptions o rest
    else setOptions o (value :: rest)

/-- What `setCommand` does with its options: the reply, and whether it gets as far as
`incrementCommandsProcessed`. -/
def setWith (key value : Bytes) (o : SetOptions) : DbM S (Bytes × Bool) := do
  -- the key is only looked up for an option that asks for it
  let present ← if o.nx then DbM.contains key else pure false
  if present then return (nullBulkString, false)
  else
    let present ← if o.xx then DbM.contains key else pure true
    if !present then return (nullBulkString, false)
    else
      DbM.set key value
      if 0 < o.expiryMs then
        let _ ← DbM.setExpiry key o.expiryMs
      return (ok, true)

/-- `setCommand`, with whether the command is counted by the handler itself. -/
def setCommand (args : List RespValue) : DbM S (Bytes × Bool) := do
  let key ← argString args 1
  let value ← argString args 2
  match ← setOptions {} (args.drop 3) with
  | .error reply => return (reply, false)
  | .ok o => setWith key value o

/-- `getCommand`. -/
def getCommand : DatabaseCommand S := fun args => do
  match ← DbM.get (← argString args 1) with
  | some value => return bulkString value
  | none => return nullBulkString

/-- A loop over the arguments behind the name of the command, counting those a method holds of. -/
def countArgs (method : Bytes → DbM S Bool) (args : List RespValue) : DbM S Bytes := do
  let count ← (args.drop 1).foldlM (fun count arg => do
    return if ← method (← .ofExcept arg.asString) then count + 1 else count) 0
  return integer count

/-- `delCommand`. -/
def delCommand : DatabaseCommand S := countArgs DbM.del

/-- `existsCommand`. -/
def existsCommand : DatabaseCommand S := countArgs DbM.contains

/-- The loop of `msetCommand`. -/
def setPairs : List RespValue → DbM S Unit
  | key :: value :: rest => do
    DbM.set (← .ofExcept key.asString) (← .ofExcept value.asString)
    setPairs rest
  | _ => return ()

/-- `msetCommand`. -/
def msetCommand : DatabaseCommand S := fun args => do
  if (args.length - 1) % 2 ≠ 0 then return error (str "wrong number of arguments for MSET")
  else
    setPairs (args.drop 1)
    return ok

/-- `mgetCommand`. -/
def mgetCommand : DatabaseCommand S := fun args => do
  (args.drop 1).foldlM (fun response arg => do
    match ← DbM.get (← .ofExcept arg.asString) with
    | some value => return response ++ bulkString value
    | none => return response ++ nullBulkString) (arrayHeader (args.length - 1))

/-- The reply to an increment. -/
def incrReply : Option ℤ → Bytes
  | some result => integer result
  | none => error (str "value is not an integer or out of range")

/-- `incrCommand`. -/
def incrCommand : DatabaseCommand S := fun args => do
  return incrReply (← DbM.incrby (← argString args 1) 1)

/-- `decrCommand`. -/
def decrCommand : DatabaseCommand S := fun args => do
  return incrReply (← DbM.incrby (← argString args 1) (-1))

/-- `incrbyCommand` and `decrbyCommand`, by the increment a number stands for. -/
def incrbyWith (increment : ℤ → ℤ) : DatabaseCommand S := fun args => do
  match ← argConverted stoll args 2 with
  | none => return error (str "value is not an integer or out of range")
  | some n => return incrReply (← DbM.incrby (← argString args 1) (increment n))

/-- `incrbyCommand`. -/
def incrbyCommand : DatabaseCommand S := incrbyWith id

/-- `decrbyCommand`. -/
def decrbyCommand : DatabaseCommand S := incrbyWith fun decrement => asInt64 (-decrement)

/-- `appendCommand`. -/
def appendCommand : DatabaseCommand S := fun args => do
  match ← DbM.append (← argString args 1) (← argString args 2) with
  | some length => return integer length
  | none => return error (str "internal error")

/-- `strlenCommand`. -/
def strlenCommand : DatabaseCommand S := fun args => do
  match ← DbM.get (← argString args 1) with
  | some value => return integer value.length
  | none => return integer 0

/-- `setnxCommand`. -/
def setnxCommand : DatabaseCommand S := fun args => do
  let key ← argString args 1
  if ← DbM.contains key then return integer 0
  else
    DbM.set key (← argString args 2)
    return integer 1

end RedisDb

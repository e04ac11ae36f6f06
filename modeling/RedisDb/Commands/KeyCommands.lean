import RedisDb.Commands.StringCommands

/-!
# Key commands

The handlers of `key_commands.cpp`.
-/

namespace RedisDb

open RespSerializer

variable {S : Type} [Platform]

/-- `typeCommand`. -/
def typeCommand : DatabaseCommand S := fun args => do
  return simpleString (← DbM.type (← argString args 1))

/-- `renameCommand`. -/
def renameCommand : DatabaseCommand S := fun args => do
  if ← DbM.rename (← argString args 1) (← argString args 2) then return ok
  else return error (str "no such key")

/-- `keysCommand`. -/
def keysCommand : DatabaseCommand S := fun args => do
  return bulkStringArray (← DbM.keys (← argString args 1))

/-- The four commands that give a key a deadline, by the method they call on it. -/
def deadlineCommand (method : Bytes → ℤ → DbM S Bool) : DatabaseCommand S := fun args => do
  match ← argConverted stoll args 2 with
  | none => return error (str "value is not an integer or out of range")
  | some n => return integer (if ← method (← argString args 1) n then 1 else 0)

/-- `expireCommand`. -/
def expireCommand : DatabaseCommand S :=
  deadlineCommand fun key seconds => DbM.setExpiry key (asInt64 (seconds * 1000))

/-- `pexpireCommand`. -/
def pexpireCommand : DatabaseCommand S := deadlineCommand DbM.setExpiry

/-- `expireatCommand`. -/
def expireatCommand : DatabaseCommand S :=
  deadlineCommand fun key timestamp => DbM.setExpiryAt key (asInt64 (timestamp * 1000))

/-- `pexpireatCommand`. -/
def pexpireatCommand : DatabaseCommand S := deadlineCommand DbM.setExpiryAt

/-- `ttlCommand`. -/
def ttlCommand : DatabaseCommand S := fun args => do
  let pttl ← DbM.pttl (← argString args 1)
  return integer (if pttl < 0 then pttl else pttl / 1000)

/-- `pttlCommand`. -/
def pttlCommand : DatabaseCommand S := fun args => do
  return integer (← DbM.pttl (← argString args 1))

/-- `persistCommand`. -/
def persistCommand : DatabaseCommand S := fun args => do
  return integer (if ← DbM.persist (← argString args 1) then 1 else 0)

end RedisDb

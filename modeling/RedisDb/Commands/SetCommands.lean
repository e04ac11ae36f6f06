import RedisDb.Commands.StringCommands

/-!
# Set commands

The handlers of `set_commands.cpp`.
-/

namespace RedisDb

open RespSerializer

variable {S : Type} [Platform]

/-- The loop of `saddCommand` and of `sremCommand`, by the method called on the set: the set, and how
often the method has made a difference, as an `int` counts it. -/
def memberLoop (key : Bytes) (obj : RedisObject S) (method : HashSet → Bytes → HashSet × Bool) :
    HashSet → ℤ → List RespValue → DbM S (HashSet × ℤ)
  | set, count, [] => return (set, count)
  | set, count, arg :: rest => do
    let (set, changed) := method set (← .ofExcept arg.asString)
    DbM.putObject key { obj with value := .set set }
    memberLoop key obj method set (if changed then intSucc count else count) rest

/-- `saddCommand`. -/
def saddCommand : DatabaseCommand S := fun args => do
  let key ← argString args 1
  let obj ← DbM.objectForAdd key (.set .new)
  match obj.value with
  | .set set =>
    let (_, added) ← memberLoop key obj HashSet.add set 0 (args.drop 2)
    return integer added
  | _ => return wrongType

/-- `sremCommand`. -/
def sremCommand : DatabaseCommand S := fun args => do
  let key ← argString args 1
  match ← DbM.getObjectForWrite key with
  | none => return integer 0
  | some obj =>
    match obj.value with
    | .set set =>
      let (set, removed) ← memberLoop key obj HashSet.remove set 0 (args.drop 2)
      if set.isEmpty then
        let _ ← DbM.del key
      return integer removed
    | _ => return wrongType

/-- `sismemberCommand`. -/
def sismemberCommand : DatabaseCommand S := fun args => do
  let key ← argString args 1
  let member ← argString args 2
  match ← DbM.getObject key with
  | none => return integer 0
  | some obj =>
    match obj.value with
    | .set set => return integer (if set.contains member then 1 else 0)
    | _ => return wrongType

/-- `smembersCommand`. -/
def smembersCommand : DatabaseCommand S := fun args => do
  match ← DbM.getObject (← argString args 1) with
  | none => return emptyArray
  | some obj =>
    match obj.value with
    | .set set => return bulkStringArray set.members
    | _ => return wrongType

end RedisDb

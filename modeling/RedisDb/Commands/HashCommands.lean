import RedisDb.Commands.StringCommands

/-!
# Hash commands

The handlers of `hash_commands.cpp`.
-/

namespace RedisDb

open RespSerializer

variable {S : Type} [Platform]

/-- The loop of `hsetCommand`: the number of new fields, as an `int` counts it. -/
def hsetLoop (key : Bytes) (obj : RedisObject S) :
    HashTable Bytes Bytes → ℤ → List RespValue → DbM S ℤ
  | hash, added, field :: value :: rest => do
    let field ← .ofExcept field.asString
    let value ← .ofExcept value.asString
    let (hash, isNew) := hash.set Platform.hash field value
    DbM.putObject key { obj with value := .hash hash }
    hsetLoop key obj hash (if isNew then intSucc added else added) rest
  | _, added, _ => return added

/-- `hsetCommand`. -/
def hsetCommand : DatabaseCommand S := fun args => do
  if args.length % 2 ≠ 0 then
    return error (str "wrong number of arguments for 'hset' command")
  else
    let key ← argString args 1
    let obj ← DbM.objectForAdd key (.hash .empty)
    match obj.value with
    | .hash hash => return integer (← hsetLoop key obj hash 0 (args.drop 2))
    | _ => return wrongType

/-- `hgetCommand`. -/
def hgetCommand : DatabaseCommand S := fun args => do
  let key ← argString args 1
  let field ← argString args 2
  match ← DbM.getObject key with
  | none => return nullBulkString
  | some obj =>
    match obj.value with
    | .hash hash =>
      match hash.get Platform.hash field with
      | some val => return bulkString val
      | none => return nullBulkString
    | _ => return wrongType

/-- `hgetallCommand`. -/
def hgetallCommand : DatabaseCommand S := fun args => do
  match ← DbM.getObject (← argString args 1) with
  | none => return emptyArray
  | some obj =>
    match obj.value with
    | .hash hash => return bulkStringArray (hash.toList.flatMap fun kv => [kv.1, kv.2])
    | _ => return wrongType

end RedisDb

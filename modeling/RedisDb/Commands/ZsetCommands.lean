import RedisDb.Commands.StringCommands

/-!
# Sorted set commands

The handlers of `zset_commands.cpp`. A sorted set that is made here draws the heights of its skip
list from `rng`.
-/

namespace RedisDb

open RespSerializer

variable {S : Type} [Platform] [Double S] [Inhabited S] [LT S] [DecidableLT S] [BEq S]

/-- The loop of `zaddCommand`: the number of new members, as an `int` counts it, or `none` where a score is
refused. -/
def zaddLoop (key : Bytes) (obj : RedisObject S) :
    SortedSet S → ℤ → List RespValue → DbM S (Option ℤ)
  | zset, added, score :: member :: rest => do
    match converted Double.stod score with
    | none => return none
    | some score =>
      let member ← .ofExcept member.asString
      let (zset, isNew) := zset.add Platform.hash member score
      DbM.putObject key { obj with value := .zset zset }
      zaddLoop key obj zset (if isNew = 1 then intSucc added else added) rest
  | _, added, _ => return some added

/-- `zaddCommand`. -/
def zaddCommand (rng : ℕ → Height) : DatabaseCommand S := fun args => do
  if args.length % 2 ≠ 0 then
    return error (str "wrong number of arguments for 'zadd' command")
  else
    let key ← argString args 1
    let obj ← DbM.objectForAdd key (.zset (.new rng))
    match obj.value with
    | .zset zset =>
      match ← zaddLoop key obj zset 0 (args.drop 2) with
      | some added => return integer added
      | none => return error (str "value is not a valid float")
    | _ => return wrongType

/-- A score as a reply shows it: the zeros at the end of its text are dropped, and then a dot. -/
def scoreText (score : S) : Bytes :=
  let scoreStr := ((Double.toText score).reverse.dropWhile (· = 48)).reverse
  if scoreStr.getLast? = some 46 then scoreStr.dropLast else scoreStr

/-- The option of `zrangeCommand`: whether scores are wanted, or `none` for a syntax error. -/
def withScoresOption (args : List RespValue) : DbM S (Option Bool) :=
  match args[4]? with
  | none => return some false
  | some arg => do
    if toUpper (← .ofExcept arg.asString) = str "WITHSCORES" then return some true else return none

/-- `zrangeCommand`. -/
def zrangeCommand : DatabaseCommand S := fun args => do
  match ← withScoresOption args with
  | none => return error (str "syntax error")
  | some withScores =>
    let key ← argString args 1
    match ← argConverted stol args 2, ← argConverted stol args 3 with
    | some start, some stop =>
      match ← DbM.getObject key with
      | none => return emptyArray
      | some obj =>
        match obj.value with
        | .zset zset =>
          return bulkStringArray ((zset.rangeByRank start stop).flatMap fun e =>
            if withScores then [e.1, scoreText e.2] else [e.1])
        | _ => return wrongType
    | _, _ => return error (str "value is not an integer or out of range")

/-- `zrankCommand`. -/
def zrankCommand : DatabaseCommand S := fun args => do
  let key ← argString args 1
  let member ← argString args 2
  match ← DbM.getObject key with
  | none => return nullBulkString
  | some obj =>
    match obj.value with
    | .zset zset =>
      if (zset.getScore Platform.hash member).isNone then return nullBulkString
      else return integer (zset.getRank Platform.hash member)
    | _ => return wrongType

/-- `zscoreCommand`. -/
def zscoreCommand : DatabaseCommand S := fun args => do
  let key ← argString args 1
  let member ← argString args 2
  match ← DbM.getObject key with
  | none => return nullBulkString
  | some obj =>
    match obj.value with
    | .zset zset =>
      match zset.getScore Platform.hash member with
      | some score => return bulkString (scoreText score)
      | none => return nullBulkString
    | _ => return wrongType

/-- The loop of `zremCommand`: the set, and the number of members removed, as an `int` counts it. -/
def zremLoop (key : Bytes) (obj : RedisObject S) :
    SortedSet S → ℤ → List RespValue → DbM S (SortedSet S × ℤ)
  | zset, removed, [] => return (zset, removed)
  | zset, removed, arg :: rest => do
    let (zset, n) := zset.remove Platform.hash (← .ofExcept arg.asString)
    DbM.putObject key { obj with value := .zset zset }
    zremLoop key obj zset (if n = 1 then intSucc removed else removed) rest

/-- `zremCommand`. -/
def zremCommand : DatabaseCommand S := fun args => do
  let key ← argString args 1
  match ← DbM.getObjectForWrite key with
  | none => return integer 0
  | some obj =>
    match obj.value with
    | .zset zset =>
      let (zset, removed) ← zremLoop key obj zset 0 (args.drop 2)
      if zset.isEmpty then
        let _ ← DbM.del key
      return integer removed
    | _ => return wrongType

end RedisDb

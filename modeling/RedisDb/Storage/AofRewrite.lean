import RedisDb.Protocol.RespSerializer
import RedisDb.Storage.Database

/-!
# `AofPersistence::rewriteAof`

The commands that make the databases as they are: for each key one that makes the value, and behind it one
that sets the deadline. The file itself is the bytes written; opening it can fail.
-/

namespace RedisDb
namespace Aof

open RespSerializer

variable {S : Type} [Platform] [Double S] [Inhabited S]

omit [Platform] in
/-- The `switch` on the type of the object: the command that makes it. The loop over a list counts with an
`int`. -/
def rewriteObject (key : Bytes) (obj : RedisObject S) : Bytes :=
  match obj.value with
  | .string s => bulkStringArray [str "SET", key, s]
  | .list l =>
    bulkStringArray ([str "RPUSH", key] ++ (List.range (asInt l.size).toNat).filterMap fun j => l.get j)
  | .hash t => bulkStringArray ([str "HSET", key] ++ t.toList.flatMap fun kv => [kv.1, kv.2])
  | .set s => bulkStringArray ([str "SADD", key] ++ s.members)
  | .zset z =>
    bulkStringArray ([str "ZADD", key] ++
      (z.rangeByRank 0 (-1)).flatMap fun pair => [Double.toText pair.2, pair.1])
  | .none => []

/-- One turn of the loop over the keys. -/
def rewriteKey (key : Bytes) (out : Bytes) (s : DbState S) : Bytes × DbState S :=
  let (obj, s) := s.getObject key
  match obj with
  | none => (out, s)
  | some obj =>
    let out := out ++ rewriteObject key obj
    let (pttl, s) := s.pttl key
    if 0 ≤ pttl then
      let (epoch, s) := s.now
      (out ++ bulkStringArray [str "PEXPIREAT", key, toText (asUInt64 (epoch + pttl))], s)
    else (out, s)

/-- The loop over the keys. -/
def rewriteKeys : List Bytes → Bytes → DbState S → Bytes × DbState S
  | [], out, s => (out, s)
  | key :: rest, out, s => let (out, s) := rewriteKey key out s; rewriteKeys rest out s

/-- One turn of the loop over the databases. -/
def rewriteDatabase (i : ℕ) (out : Bytes) (s : DbState S) : Bytes × DbState S :=
  if s.db.size = 0 then (out, s)
  else
    let out := out ++ bulkStringArray [str "SELECT", toText i]
    let (keys, s) := s.keys (str "*")
    rewriteKeys keys out s

/-- The loop over the databases. -/
def rewriteDatabases : ℕ → List (Database S) → Bytes → Env → Bytes × List (Database S) × Env
  | _, [], out, env => (out, [], env)
  | i, db :: rest, out, env =>
    let (out, s) := rewriteDatabase i out { env with db := db }
    let (out, rest, env) := rewriteDatabases (i + 1) rest out s.toEnv
    (out, s.db :: rest, env)

/-- `rewriteAof`: the result, the file, and the databases as reading them has left them. -/
def rewriteAof (opens : Bool) (databases : List (Database S)) (env : Env) :
    Bool × Bytes × List (Database S) × Env :=
  if !opens then (false, [], databases, env)
  else
    let (out, databases, env) := rewriteDatabases 0 databases [] env
    (true, out, databases, env)

end Aof
end RedisDb

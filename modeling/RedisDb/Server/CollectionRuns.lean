import RedisDb.Commands.Collections
import RedisDb.Commands.HandlerRules
import RedisDb.Server.CommandLog

/-!
# No empty collections

In every run of commands, every list, hash, set and sorted set under a key has an element, as long as every `ZADD`
either finds an object at its key or begins with a score that is one (`Event.Fills`). A `ZADD` that does neither
leaves an empty sorted set behind: it makes the set before it looks at the score.

The invariant of a run is `Server.Kept`. It is about the databases, whose objects all have elements, and about the
commands that clients have yet to run: the queued ones passed the arity check when they were queued, and the blocked
ones are those of clients that sent strings. Without this part a command that is taken from a queue could lack the
value that it is to store, and would leave an empty collection after it has made one.

Most of what a handler does touches neither part. `Server.Settled` says so of a step, with one lemma for each
operation of the server, and a settled step keeps the invariant whatever it does otherwise (`Kept.of_settled`). What
is left is the work on the database: for each handler a lemma `keepsAll_…` that every object it leaves has an element,
taken from the modules of the commands. `keeps_handler` puts the two together, one command after another, and the
depth of nested commands is taken care of by induction (`callbacksKeep`).
-/

namespace RedisDb

open RespSerializer EffectM

variable {S : Type}

namespace Server

/-! ### Steps that leave the objects alone -/

/-- The objects stay, with the account of their memory, and the commands that clients have queued,
unless they are dropped. -/
structure Settled (s t : Server S) : Prop where
  data : t.databases.map Database.data = s.databases.map Database.data
  account : t.env.account = s.env.account
  queues : ∀ id cl', t.clients.lookup id = some cl' → cl'.transactionQueue = [] ∨
    ∃ cl, s.clients.lookup id = some cl ∧ cl'.transactionQueue = cl.transactionQueue

namespace Settled

variable {s t u : Server S} {id : ClientId}

/-- Where neither the databases nor the clients nor the account change. -/
theorem of_eq (hdatabases : t.databases = s.databases) (hclients : t.clients = s.clients)
    (haccount : t.env.account = s.env.account) : Settled s t :=
  ⟨by rw [hdatabases], haccount, fun _ cl hcl => .inr ⟨cl, hclients ▸ hcl, rfl⟩⟩

/-- Where nothing happens. -/
theorem refl (s : Server S) : Settled s s := of_eq rfl rfl rfl

/-- One step after another. What is dropped from a queue stays dropped. -/
theorem trans (h : Settled s t) (h' : Settled t u) : Settled s u := by
  refine ⟨h'.data.trans h.data, h'.account.trans h.account, fun id cl'' hcl'' => ?_⟩
  rcases h'.queues id cl'' hcl'' with hnil | ⟨cl', hcl', heq⟩
  · exact .inl hnil
  · rw [heq]
    exact h.queues id cl' hcl'

/-- A change of one client. -/
theorem client {cl cl' : Client} (hcl : s.clients.lookup id = some cl)
    (hclients : t.clients = s.clients.insert id cl')
    (hdata : t.databases.map Database.data = s.databases.map Database.data)
    (hqueue : cl'.transactionQueue = [] ∨ cl'.transactionQueue = cl.transactionQueue)
    (haccount : t.env.account = s.env.account) : Settled s t := by
  refine ⟨hdata, haccount, fun i cl'' hcl'' => ?_⟩
  rw [hclients, UnorderedMap.lookup_insert_eq_ite] at hcl''
  split at hcl''
  · next heq =>
    obtain rfl := Option.some.inj hcl''
    exact hqueue.imp_right fun hqueue => ⟨cl, heq ▸ hcl, hqueue⟩
  · exact .inr ⟨cl'', hcl'', rfl⟩

/-- A change of a client that leaves its queue alone or drops it. -/
theorem updateClient {f : Client → Client}
    (hf : ∀ cl, (f cl).transactionQueue = [] ∨ (f cl).transactionQueue = cl.transactionQueue)
    (h : s.updateClient id f = some t) : Settled s t := by
  obtain ⟨cl, hcl, rfl⟩ := Option.map_eq_some_iff.mp h
  exact client hcl rfl rfl (hf cl) rfl

/-- A reply is no data. -/
theorem addReply {data : Bytes} (h : s.addReply id data = some t) : Settled s t := by
  obtain ⟨u, hu, rfl⟩ := Option.map_eq_some_iff.mp h
  exact (updateClient (f := (·.addReply data)) (fun _ => .inr rfl) hu).trans (of_eq rfl rfl rfl)

/-- A write handler is no data. -/
theorem installWriteHandler (id : ClientId) (s : Server S) : Settled s (s.installWriteHandler id) := by
  unfold Server.installWriteHandler
  split <;> exact of_eq rfl rfl rfl

/-- A published message is no data. -/
theorem deliver {data : Bytes} (h : s.deliver id data = some t) : Settled s t := by
  obtain ⟨u, hu, rfl⟩ := Option.map_eq_some_iff.mp h
  exact (addReply hu).trans (installWriteHandler id u)

/-- What is aside of the data. -/
theorem aside (h : s.Aside t) : Settled s t := of_eq h.databases h.clients h.account

/-- A flag drops no command. By induction on the clients. -/
theorem flagDirty (ids : List ClientId) : ∀ {s t : Server S}, s.flagDirty ids = some t →
    Settled s t := by
  induction ids with
  | nil => exact fun h => Option.some.inj h ▸ refl _
  | cons id ids ih =>
    intro s t h
    obtain ⟨u, hu, ht⟩ := Option.bind_eq_some_iff.mp h
    exact (updateClient (f := (·.setFlag .dirtyExec)) (fun _ => .inr rfl) hu).trans (ih ht)

/-- After the databases are put back only flags change. -/
theorem putDatabases {databases : List (Database S)} {env : Env}
    (h : s.putDatabases databases env = some t) :
    Settled { s with databases := databases, env := env } t :=
  flagDirty _ h

/-- A change of the databases that leaves their objects alone. -/
theorem databases {databases : List (Database S)}
    (h : databases.map Database.data = s.databases.map Database.data) :
    Settled s { s with databases := databases } :=
  ⟨h, rfl, fun _ cl hcl => .inr ⟨cl, hcl, rfl⟩⟩

/-- A watch is put into the index of the database, beside its objects. -/
theorem watch {i : ℕ} {key : Bytes} (h : s.watch id i key = some t) : Settled s t := by
  obtain ⟨db, hdb, h⟩ := Option.bind_eq_some_iff.mp h
  refine (databases ?_).trans (updateClient (f := fun cl =>
    { cl with watchedKeys := cl.watchedKeys.insert key () }) (fun _ => .inr rfl) h)
  obtain ⟨hi, rfl⟩ := List.getElem?_eq_some_iff.mp hdb
  refine List.ext_getElem (by simp) fun j _ hj => ?_
  rw [List.getElem_map, List.getElem_map, List.getElem_set]
  split
  · next heq =>
    subst heq
    rfl
  · rfl

/-- Watches are forgotten beside the objects. By induction on the keys. -/
theorem data_forgetWatched (keys : List Bytes) : ∀ ds : DbState S,
    (forgetWatched id keys ds).db.data = ds.db.data := by
  induction keys with
  | nil => exact fun _ => rfl
  | cons key keys ih =>
    intro ds
    refine (ih (ds.removeWatchedKey key id)).trans ?_
    unfold DbState.removeWatchedKey
    split
    · rfl
    · dsimp only
      split <;> rfl

/-- The watches of a client go from each database. -/
theorem unwatch (h : s.unwatch id = some t) : Settled s t := by
  obtain ⟨cl, hcl, rfl⟩ := Option.map_eq_some_iff.mp h
  refine client hcl rfl ?_ (.inr rfl) rfl
  rw [List.map_map]
  exact List.map_congr_left fun db _ => data_forgetWatched cl.watchedKeys.keys (s.dbState db)

/-- A subscription is no data. -/
theorem subscribeChannel {channel : Bytes} (h : s.subscribeChannel id channel = some t) :
    Settled s t := by
  obtain ⟨cl, hcl, rfl⟩ := Option.map_eq_some_iff.mp h
  split
  · exact refl s
  · exact client hcl rfl rfl (.inr rfl) rfl

/-- Nor is its end. -/
theorem unsubscribeChannel {channel : Bytes} (h : s.unsubscribeChannel id channel = some t) :
    Settled s t := by
  obtain ⟨cl, hcl, rfl⟩ := Option.map_eq_some_iff.mp h
  split
  · exact client hcl rfl rfl (.inr rfl) rfl
  · exact refl s

/-- The same of a pattern. -/
theorem psubscribePattern {pattern : Bytes} (h : s.psubscribePattern id pattern = some t) :
    Settled s t := by
  obtain ⟨cl, hcl, rfl⟩ := Option.map_eq_some_iff.mp h
  split
  · exact refl s
  · exact client hcl rfl rfl (.inr rfl) rfl

/-- The same of a pattern. -/
theorem punsubscribePattern {pattern : Bytes} (h : s.punsubscribePattern id pattern = some t) :
    Settled s t := by
  obtain ⟨cl, hcl, rfl⟩ := Option.map_eq_some_iff.mp h
  split
  · exact client hcl rfl rfl (.inr rfl) rfl
  · exact refl s

/-- A client that comes to wait takes nothing from a database. -/
theorem blockClient {keys : List Bytes} {timeout : ℤ} {cmd : RespValue} {target : Bytes}
    (h : s.blockClient id keys timeout cmd target = some t) : Settled s t := by
  obtain ⟨cl, hcl, rfl⟩ := Option.map_eq_some_iff.mp h
  simp only [blockDeadline]
  split <;> exact client hcl rfl rfl (.inr rfl) rfl

/-- A client that waits no longer has taken nothing yet. -/
theorem unblockClient (h : s.unblockClient id = some t) : Settled s t := by
  obtain ⟨cl, hcl, rfl⟩ := Option.map_eq_some_iff.mp h
  split
  · exact client hcl rfl rfl (.inr rfl) rfl
  · exact refl s

/-- A replica is a client like others. -/
theorem addReplica (h : s.addReplica id = some t) : Settled s t := by
  obtain ⟨u, hu, rfl⟩ := Option.map_eq_some_iff.mp h
  exact (updateClient (f := (·.setFlag .slave)) (fun _ => .inr rfl) hu).trans (of_eq rfl rfl rfl)

/-- So it is when it goes. -/
theorem closeReplication (id : ClientId) (cl : Client) (s : Server S) :
    Settled s (s.closeReplication id cl) := by
  unfold Server.closeReplication
  dsimp only
  split <;> split <;> exact of_eq rfl rfl rfl

/-- A client that is removed takes its queue along, and leaves the objects. -/
theorem removeClient (h : s.removeClient id = some t) : Settled s t := by
  have hsettled : t.databases.map Database.data = s.databases.map Database.data ∧
      t.env.account = s.env.account := by
    unfold Server.removeClient at h
    split at h
    · obtain rfl := Option.some.inj h
      exact ⟨rfl, rfl⟩
    obtain ⟨u, hu, rfl⟩ := Option.map_eq_some_iff.mp h
    obtain ⟨cl, hcl, hu⟩ := Option.bind_eq_some_iff.mp hu
    obtain ⟨v, hv, hu⟩ := Option.bind_eq_some_iff.mp hu
    obtain ⟨w, hw, hu⟩ := Option.bind_eq_some_iff.mp hu
    obtain rfl := Option.some.inj hu
    have hclosed : Settled s (s.closeSubscriptions id cl) := client hcl rfl rfl (.inr rfl) rfl
    have hgone := ((hclosed.trans (unblockClient hv)).trans (unwatch hw)).trans
      (closeReplication id cl w)
    exact ⟨hgone.data, hgone.account⟩
  exact ⟨hsettled.1, hsettled.2, fun i cl hcl => .inr ⟨cl, lookup_of_removeClient h hcl, rfl⟩⟩

/-- The end of the link leaves what was loaded over it. -/
theorem disconnectFromMaster (h : s.disconnectFromMaster = some t) : Settled s t := by
  unfold Server.disconnectFromMaster at h
  split at h
  · exact Option.some.inj h ▸ of_eq rfl rfl rfl
  · split at h
    · cases h
    · obtain ⟨u, hu, rfl⟩ := Option.map_eq_some_iff.mp h
      have hfirst : Settled s { s with masterClient := none } := of_eq rfl rfl rfl
      exact (hfirst.trans (removeClient hu)).trans (of_eq rfl rfl rfl)

/-- What is logged is no data. -/
theorem complete {writes : Bool} {cmd : List RespValue} {r : Except Exn Unit}
    (h : s.complete id writes cmd = some (r, t)) : Settled s t :=
  complete_keeps (of_eq rfl rfl rfl) (fun _ => logWrite_keeps (I := Settled s)
    (fun _ hs => hs.trans (of_eq rfl rfl rfl)) (fun _ _ hu => hu.trans (of_eq rfl rfl rfl))
    fun {_ _ _ args} _ _ hv hu =>
      (hu.trans (updateClient (f := (·.addReply (replicationText args))) (fun _ => .inr rfl) hv)).trans
        (of_eq rfl rfl rfl)) h

/-- A new client has queued nothing. -/
theorem addClient (s : Server S) : Settled s s.addClient := by
  unfold Server.addClient
  split
  · exact refl s
  · refine ⟨rfl, rfl, fun i cl hcl => ?_⟩
    have hcl : (s.clients.insert s.nextClient _).lookup i = some cl := hcl
    rw [UnorderedMap.lookup_insert_eq_ite] at hcl
    split at hcl
    · exact .inl (Option.some.inj hcl ▸ rfl)
    · exact .inr ⟨cl, hcl, rfl⟩

end Settled

variable [Platform] {s t : Server S}

/-- **The clients that wait do so with strings**, whatever is done. -/
theorem Does.stringsWait {k : Option RespValue} {c : Option ClientId} (h : Does k c s t) :
    s.StringsWait → t.StringsWait := by
  -- a step that leaves the tables as they are leaves the blocked commands as they are
  have hquiet {s t : Server S} (h : Quiet s t) (hs : s.StringsWait) : t.StringsWait := by
    intro id cl hcl
    have hrecord : s.tables.records id = some cl.record := by
      rw [← h.tables]
      exact congrArg (Option.map Client.record) hcl
    obtain ⟨cl', hcl', heq⟩ := Option.map_eq_some_iff.mp hrecord
    have hcmd : cl'.blockCmd = cl.blockCmd := congrArg Record.blockCmd heq
    exact hcmd ▸ hs id cl' hcl'
  induction h with
  | refl => exact id
  | trans _ _ ih ih' => exact ih' ∘ ih
  | handler _ ih => exact ih
  | aside h => exact (Idle.aside h).waits
  | own hcl hsame => exact hquiet (.own hcl hsame.record)
  | reply h => exact (Idle.addReply h).waits
  | deliver h => exact (Idle.deliver h).waits
  | database _ _ h => exact (Idle.putDatabases h).waits
  | scanned _ _ h => exact (Idle.putDatabases h).waits
  | watch h => exact (Idle.watch h).waits
  | unwatch h => exact (Idle.unwatch h).waits
  | subscribe h => exact (Idle.subscribeChannel h).waits
  | unsubscribe h => exact (Idle.unsubscribeChannel h).waits
  | psubscribe h => exact (Idle.psubscribePattern h).waits
  | punsubscribe h => exact (Idle.punsubscribePattern h).waits
  | block hargs h => exact (Idle.blockClient hargs h).waits
  | unblock _ h => exact (Idle.unblockClient h).waits
  | attach h => exact (Idle.addReplica h).waits
  | remove h => exact (Idle.removeClient h).waits
  | disconnect h => exact (Idle.disconnectFromMaster h).waits
  | replicate h => exact ((Idle.setMaster _ _ _).trans (.disconnectFromMaster h)).waits
  | completed _ h => exact hquiet (.complete h)
  | wake _ h _ ih =>
    exact fun hs => (Idle.installWriteHandler _ _).waits (ih ((Idle.unblockClient h).waits hs))

/-! ### The invariant -/

/-- A command that has been queued: there is such a command, and it has the arguments it needs. -/
def Queueable (args : List RespValue) : Prop :=
  ∃ name rest cmdName cmd, args = name :: rest ∧ name.asString = .ok cmdName ∧
    Command.lookup cmdName = some cmd ∧ cmd.accepts (asInt (rest.length + 1)) = true ∧
    ∀ a ∈ rest, a.IsString

end Server

variable (S) in
/-- A `ZADD` that leaves no empty sorted set: it is refused at once, or there is an object at the key,
or the first score is one. -/
def Event.Fills [Double S] : Event → Prop
  | .zadd args present => args.length % 2 = 0 → present = true ∨
      ∃ x : S, (args[2]?).bind (converted Double.stod) = some x
  | _ => True

namespace Server

variable [Platform] [Double S] [Inhabited S] {s t : Server S} {k : Option RespValue}
  {c : Option ClientId} {id : ClientId} {ε α : Type}

/-- What every command keeps. -/
structure Kept (s : Server S) : Prop where
  waits : s.StringsWait
  queues : ∀ id cl, s.clients.lookup id = some cl → ∀ args ∈ cl.transactionQueue, Queueable args
  filled : (∀ e ∈ s.trace, e.Fills S) → ∀ db ∈ s.databases, db.All Value.Filled

omit [Platform] [Double S] [Inhabited S] in
/-- What holds of all objects is a matter of the objects. -/
theorem all_of_data {P : Value S → Prop} {dbs dbs' : List (Database S)}
    (hdata : dbs'.map Database.data = dbs.map Database.data) (h : ∀ db ∈ dbs, db.All P) :
    ∀ db ∈ dbs', db.All P := by
  intro db hdb
  have hmem : db.data ∈ dbs.map Database.data := hdata ▸ List.mem_map_of_mem hdb
  obtain ⟨db', hdb', heq⟩ := List.mem_map.mp hmem
  exact (h db' hdb').of_data heq.symm

/-- A step that leaves the objects alone. -/
theorem Kept.of_settled (hs : Kept s) (h : Settled s t) (hwaits : t.StringsWait)
    (htrace : s.trace <+: t.trace) : Kept t where
  waits := hwaits
  queues id cl hcl args hargs := by
    rcases h.queues id cl hcl with hnil | ⟨cl', hcl', heq⟩
    · rw [hnil] at hargs
      cases hargs
    · exact hs.queues id cl' hcl' args (heq ▸ hargs)
  filled hfills := all_of_data h.data (hs.filled fun e he => hfills e (htrace.subset he))

/-- A step that leaves the objects alone keeps the invariant. -/
theorem Kept.settled (hs : Kept s) (hdoes : Does k c s t) (h : Settled s t) : Kept t :=
  hs.of_settled h (hdoes.stringsWait hs.waits) hdoes.grows.trace

/-! ### The operations -/

omit k c id ε α in
/-- Nothing but what is done to the data can leave an empty collection. -/
theorem robust_kept : Robust (Kept : Server S → Prop) where
  own hcl htame hs := hs.settled (k := none) (c := none) (.own hcl htame.tables htame.inputBuffer)
    (.client hcl rfl rfl htame.queue rfl)
  aside h hs := hs.settled (k := none) (c := none) (.aside h) (.aside h)
  reply {_ _ id _} h hs := hs.settled (k := none) (c := some id) (.reply h) (.addReply h)
  deliver h hs := hs.settled (k := none) (c := none) (.deliver h) (.deliver h)
  unwatch h hs := hs.settled (k := none) (c := none) (.unwatch h) (.unwatch h)
  subscribe h hs := hs.settled (k := none) (c := none) (.subscribe h) (.subscribeChannel h)
  unsubscribe h hs := hs.settled (k := none) (c := none) (.unsubscribe h) (.unsubscribeChannel h)
  psubscribe h hs := hs.settled (k := none) (c := none) (.psubscribe h) (.psubscribePattern h)
  punsubscribe h hs := hs.settled (k := none) (c := none) (.punsubscribe h) (.punsubscribePattern h)
  attach h hs := hs.settled (k := none) (c := none) (.attach h) (.addReplica h)
  disconnect h hs := hs.settled (k := none) (c := none) (.disconnect h) (.disconnectFromMaster h)
  replicate {s _ host port} h hs := by
    have hset : Settled s (s.setMaster host port) := .of_eq rfl rfl rfl
    exact hs.settled (k := none) (c := none) (.replicate h) (hset.trans (.disconnectFromMaster h))

/-- A change of the databases that leaves none of their objects an empty collection. -/
theorem Kept.putDatabases {databases : List (Database S)} {env : Env} (hs : Kept s)
    (hdoes : Does k c s t) (h : s.putDatabases databases env = some t)
    (hfilled : (∀ e ∈ s.trace, e.Fills S) → ∀ db ∈ databases, db.All Value.Filled) : Kept t where
  waits := hdoes.stringsWait hs.waits
  queues id cl hcl args hargs := by
    rcases (Settled.putDatabases h).queues id cl hcl with hnil | ⟨cl', hcl', heq⟩
    · rw [hnil] at hargs
      cases hargs
    · exact hs.queues id cl' hcl' args (heq ▸ hargs)
  filled hfills := all_of_data (Settled.putDatabases h).data
    (hfilled fun e he => hfills e (hdoes.grows.trace.subset he))

/-- A program on one database. -/
theorem kept_onDatabaseAt {i : ℕ} {p : DbM S α} (hs : Kept s)
    (hp : (∀ e ∈ s.trace, e.Fills S) → ∀ db, s.databases[i]? = some db → db.All Value.Filled →
      p.Post (s.dbState db) fun _ ds => ds.db.All Value.Filled) :
    (onDatabaseAt i p : EffectM S k c Exn α).Post s fun _ t => Kept t := by
  intro r t hrun
  have hdoes := (onDatabaseAt i p : EffectM S k c Exn α).within hrun
  refine (post_onDatabaseAt (k := k) (c := c) i p s fun _ t => Does k c s t → Kept t).mpr ?_ r t hrun hdoes
  intro db hdb r ds hds t ht hdoes
  refine hs.putDatabases hdoes ht fun hfills db' hdb' => ?_
  rcases List.mem_or_eq_of_mem_set hdb' with hmem | rfl
  · exact hs.filled hfills db' hmem
  · exact hp hfills db hdb (hs.filled hfills db (List.mem_of_getElem? hdb)) r ds hds

/-- A program that keeps every object filled, on one database. -/
theorem keeps_onDatabaseAt {i : ℕ} {p : DbM S α} (hp : p.KeepsAll Value.Filled) :
    (onDatabaseAt i p : EffectM S k c Exn α).Keeps Kept :=
  fun _ hs => kept_onDatabaseAt hs fun _ _ _ hdb => hp _ hdb

end Server

/-! ### Files -/

namespace Rdb

variable [Platform] [Double S] [Inhabited S] {P : Value S → Prop}

/-- Saving a key may delete it, since it is looked up, and changes nothing else. -/
theorem all_saveKey {key : Bytes} {s : DbState S} (w : Writer) (h : s.db.All P) :
    (saveKey key w s).2.db.All P := by
  have hget := h.getObject key
  unfold saveKey
  rcases hx : s.getObject key with ⟨obj, t⟩
  rw [hx] at hget
  cases obj with
  | none => exact hget
  | some obj =>
    have hpttl := hget.pttl key
    simp only
    split <;> exact hpttl

/-- By induction on the keys. -/
theorem all_saveKeys (keys : List Bytes) : ∀ (w : Writer) {s : DbState S}, s.db.All P →
    (saveKeys keys w s).2.db.All P := by
  induction keys with
  | nil => exact fun _ _ h => h
  | cons key keys ih => exact fun w s h => ih _ (all_saveKey w h)

/-- The keys of a database are saved one after another. -/
theorem all_saveDatabase {i : ℕ} {w : Writer} {s : DbState S} (h : s.db.All P) :
    (saveDatabase i w s).2.db.All P := by
  unfold saveDatabase
  split
  · exact h
  · exact all_saveKeys _ _ (h.keys _)

/-- By induction on the databases. -/
theorem all_saveDatabases (databases : List (Database S)) : ∀ (i : ℕ) (w : Writer) (env : Env),
    (∀ db ∈ databases, db.All P) → ∀ db ∈ (saveDatabases i databases w env).2.1, db.All P := by
  induction databases with
  | nil => exact fun _ _ _ h => h
  | cons db rest ih =>
    intro i w env h db' hdb'
    simp only [saveDatabases, List.mem_cons] at hdb'
    rcases hdb' with rfl | hdb'
    · exact all_saveDatabase (h db List.mem_cons_self)
    · exact ih _ _ _ (fun db hdb => h db (List.mem_cons_of_mem _ hdb)) db' hdb'

/-- Saving leaves no empty collection. -/
theorem all_saveToFile {opens : Bool} {databases : List (Database S)} {env : Env}
    (h : ∀ db ∈ databases, db.All P) : ∀ db ∈ (saveToFile opens databases env).2.2.1, db.All P := by
  unfold saveToFile
  split
  · exact h
  · exact all_saveDatabases databases _ _ _ h

end Rdb

/-! ### The handlers -/

namespace Server

variable [Platform] [Double S] [Inhabited S] {c : ClientId} {args : List RespValue}

/-- A handler that works on the selected database and replies. -/
theorem keeps_databaseCommand {f : DatabaseCommand S} (hf : (f args).KeepsAll Value.Filled) :
    (databaseCommand f c args).Keeps Kept :=
  robust_kept.keeps_databaseCommand fun _ => keeps_onDatabaseAt hf

/-- An operation on all databases. -/
theorem keeps_onDatabases {α : Type} {k : Option RespValue} {c : Option ClientId} {ε : Type}
    {f : List (Database S) → Env → Server S → Option (α × List (Database S) × Env)}
    {h : ∀ s : Server S, ∀ a databases env, f s.databases { s.env with flagged := [] } s
      = some (a, databases, env) →
      databases.map Database.watchedKeys = s.databases.map Database.watchedKeys ∧
        (Accounted s.databases s.env → Accounted databases env)}
    (hf : ∀ (s : Server S) a databases env, f s.databases { s.env with flagged := [] } s
      = some (a, databases, env) → (∀ db ∈ s.databases, db.All Value.Filled) →
      ∀ db ∈ databases, db.All Value.Filled) :
    (onDatabases f h : EffectM S k c ε α).Keeps Kept := by
  intro s hs r t hrun
  have hdoes := (onDatabases f h : EffectM S k c ε α).within hrun
  obtain ⟨⟨a, t'⟩, hstep, heq⟩ := Option.map_eq_some_iff.mp hrun
  obtain ⟨-, rfl⟩ := Prod.mk.inj heq
  obtain ⟨⟨a', databases, env⟩, hdatabases, hput⟩ := Option.bind_eq_some_iff.mp hstep
  obtain ⟨t'', ht, heq⟩ := Option.map_eq_some_iff.mp hput
  obtain ⟨-, rfl⟩ := Prod.mk.inj heq
  -- the databases come back filled, and what follows is only to flag clients
  exact hs.putDatabases hdoes ht fun hfills => hf s a' databases env hdatabases (hs.filled hfills)

/-- `SAVE` looks up all keys. -/
theorem keeps_save : (save : ServerM S c Bool).Keeps Kept := by
  refine .bind (.read _) fun _ => .ite (.pure _) (.bind robust_kept.keeps_draw fun opens =>
    .bind (keeps_onDatabases fun s a databases env h hall => ?_) fun x => ?_)
  · obtain ⟨-, h⟩ := Prod.mk.inj (Option.some.inj h)
    obtain ⟨rfl, -⟩ := Prod.mk.inj h
    exact Rdb.all_saveToFile hall
  · obtain ⟨success, out⟩ := x
    refine .ite (.bind (keeps_onDatabases fun s a databases env h hall => ?_) fun _ =>
      .bind robust_kept.keeps_modify fun _ => .pure _) (.pure _)
    obtain ⟨-, h⟩ := Prod.mk.inj (Option.some.inj h)
    obtain ⟨rfl, -⟩ := Prod.mk.inj h
    intro db hdb
    obtain ⟨db', hdb', rfl⟩ := List.mem_map.mp hdb
    exact (hall db' hdb').of_data rfl

variable [LT S] [DecidableLT S] [BEq S]

/-- **`ZADD`** notes whether there is an object at its key. Where there is none and the first score is
none, the run is one of those that nothing is said about. -/
theorem keeps_zaddHandler (hargs : ∀ a ∈ args.drop 1, a.IsString) (hlength : 4 ≤ args.length) :
    (zaddHandler c args : ServerM S c Unit).Keeps Kept := by
  intro s hs
  have hnoted : Kept (s.note (s.zaddEvent c args)) :=
    hs.settled (k := none) (c := none)
      (.aside (Server.aside_note (show (s.zaddEvent c args).IsAside s.masterHost from trivial))) (.of_eq rfl rfl rfl)
  simp only [zaddHandler, Program.post_bind, EffectM.modify, post_call, Option.some.injEq]
  rintro _ rfl
  -- the generator of a new set is drawn, and the command runs on the selected database
  simp only [EffectM.draw, Program.post_step, Option.some.injEq]
  rintro rng t hdraw
  obtain ⟨-, rfl⟩ := Prod.mk.inj hdraw
  have hdrawn : Kept (s.note (s.zaddEvent c args)).freshRng.2 :=
    hnoted.settled (k := none) (c := none) (.aside {}) (.of_eq rfl rfl rfl)
  simp only [onDatabase, Program.post_bind, post_client, Program.post_read]
  intro cl hcl
  have hrun := kept_onDatabaseAt (k := none) (c := some c) (p := zaddCommand rng args)
    (i := databaseIndex cl.selectedDb (s.note (s.zaddEvent c args)).freshRng.2) hdrawn
    fun hfills db hdb hall => post_zaddCommand_filled hargs hlength hall fun heven key hkey => by
      have hevent : (s.zaddEvent c args).Fills S := hfills _ (by simp [note, freshRng])
      have hcl : s.clients.lookup c = some cl := hcl
      have hdb : s.databases[s.databaseIndex cl.selectedDb]? = some db := hdb
      have hfill := hevent heven
      simp only [hkey, hcl, hdb, Option.elim_some] at hfill
      exact hfill
  refine hrun.mono fun r t ht => ?_
  cases r with
  | ok reply => exact robust_kept.keeps_addReply reply t ht
  | error e => exact ht

/-- What the callbacks of a handler keep. -/
structure CallbacksKeep (cb : Callbacks S) : Prop where
  wake : ∀ c key, (cb.wake c key).Keeps Kept
  runQueued : ∀ c args, Queueable args → (cb.runQueued c args).Keeps Kept

/-- **Every handler** keeps the invariant, where it gets the arguments it needs. Handlers that write to collections
keep them filled one by one; the others do not touch them. -/
theorem keeps_handler {cb : Callbacks S} (hcb : CallbacksKeep cb) (cmd : Command)
    (hargs : ∀ a ∈ args.drop 1, a.IsString) (hlength : -cmd.arity ≤ args.length) :
    (cmd.handler cb c args).Keeps Kept := by
  cases cmd with
  | ping => exact robust_kept.keeps_pingCommand
  | echo => exact robust_kept.keeps_echoCommand
  | command => exact robust_kept.keeps_commandCommand
  | dbsize => exact keeps_databaseCommand (.bind (.read _) fun _ => .pure _)
  | flushdb =>
    exact keeps_databaseCommand (.bind (DbM.keepsAll_call fun _ _ => Database.all_flushDb) fun _ =>
      .pure _)
  | select => exact robust_kept.keeps_selectCommand
  | quit => exact robust_kept.keeps_quitCommand args
  | info => exact robust_kept.keeps_infoCommand args
  | save => exact robust_kept.keeps_saveCommand keeps_save args
  | bgsave => exact robust_kept.keeps_bgsaveCommand args
  | bgrewriteaof => exact robust_kept.keeps_bgrewriteaofCommand args
  | config => exact robust_kept.keeps_configCommand
  | debug =>
    exact robust_kept.keeps_debugCommand fun key _ => keeps_onDatabaseAt (DbM.keepsAll_getObject key)
  | lpush =>
    exact robust_kept.keeps_pushGeneric (hcb.wake c) fun _ =>
      keeps_onDatabaseAt (keepsAll_pushElements hargs (by simpa [Command.arity] using hlength))
  -- `RPUSH` pushes twice
  | rpush =>
    have hpush : (pushGeneric (cb.wake c) args false).Keeps Kept :=
      robust_kept.keeps_pushGeneric (hcb.wake c) fun _ =>
        keeps_onDatabaseAt (keepsAll_pushElements hargs (by simpa [Command.arity] using hlength))
    exact .bind hpush fun _ => hpush
  | lpop => exact keeps_databaseCommand (keepsAll_popGeneric true args)
  | rpop => exact keeps_databaseCommand (keepsAll_popGeneric false args)
  -- a client that finds nothing waits with the command it sent, whose arguments are strings
  | blpop | brpop =>
    exact robust_kept.keeps_blockingPop (fun _ => keeps_onDatabaseAt (keepsAll_bpopGeneric _ args))
      fun _ _ _ _ h hs => hs.settled (k := none) (c := none) (.block hargs h) (.blockClient h)
  | lrange => exact keeps_databaseCommand (keepsAll_lrangeCommand args)
  | llen => exact keeps_databaseCommand (keepsAll_llenCommand args)
  | hset =>
    exact keeps_databaseCommand (keepsAll_hsetCommand hargs (by simpa [Command.arity] using hlength))
  | hget => exact keeps_databaseCommand (keepsAll_hgetCommand args)
  | hgetall => exact keeps_databaseCommand (keepsAll_hgetallCommand args)
  | sadd =>
    exact keeps_databaseCommand (keepsAll_saddCommand hargs (by simpa [Command.arity] using hlength))
  | srem => exact keeps_databaseCommand (keepsAll_sremCommand hargs)
  | sismember => exact keeps_databaseCommand (keepsAll_sismemberCommand args)
  | smembers => exact keeps_databaseCommand (keepsAll_smembersCommand args)
  | zadd => exact keeps_zaddHandler hargs (by simpa [Command.arity] using hlength)
  | zrange => exact keeps_databaseCommand (keepsAll_zrangeCommand args)
  | zrank => exact keeps_databaseCommand (keepsAll_zrankCommand args)
  | zscore => exact keeps_databaseCommand (keepsAll_zscoreCommand args)
  | zrem => exact keeps_databaseCommand (keepsAll_zremCommand hargs)
  | set =>
    exact robust_kept.keeps_setHandler fun _ => keeps_onDatabaseAt (keepsAll_setCommand filled_string args)
  | get => exact keeps_databaseCommand (keepsAll_getCommand args)
  | del => exact keeps_databaseCommand (keepsAll_countArgs DbM.keepsAll_del args)
  | «exists» => exact keeps_databaseCommand (keepsAll_countArgs DbM.keepsAll_contains args)
  | mset => exact keeps_databaseCommand (keepsAll_msetCommand filled_string args)
  | mget => exact keeps_databaseCommand (keepsAll_mgetCommand args)
  | incr => exact keeps_databaseCommand (keepsAll_incrCommand filled_string args)
  | decr => exact keeps_databaseCommand (keepsAll_decrCommand filled_string args)
  | incrby => exact keeps_databaseCommand (keepsAll_incrbyWith filled_string _ args)
  | decrby => exact keeps_databaseCommand (keepsAll_incrbyWith filled_string _ args)
  | append => exact keeps_databaseCommand (keepsAll_appendCommand filled_string args)
  | strlen => exact keeps_databaseCommand (keepsAll_strlenCommand args)
  | setnx => exact keeps_databaseCommand (keepsAll_setnxCommand filled_string args)
  | type => exact keeps_databaseCommand (keepsAll_typeCommand args)
  | rename => exact keeps_databaseCommand (keepsAll_renameCommand args)
  | keys => exact keeps_databaseCommand (keepsAll_keysCommand args)
  | expire =>
    exact keeps_databaseCommand (keepsAll_deadlineCommand (fun _ _ => DbM.keepsAll_setExpiry _ _) args)
  | pexpire => exact keeps_databaseCommand (keepsAll_deadlineCommand DbM.keepsAll_setExpiry args)
  | expireat =>
    exact keeps_databaseCommand (keepsAll_deadlineCommand (fun _ _ => DbM.keepsAll_setExpiryAt _ _) args)
  | pexpireat => exact keeps_databaseCommand (keepsAll_deadlineCommand DbM.keepsAll_setExpiryAt args)
  | ttl => exact keeps_databaseCommand (keepsAll_ttlCommand args)
  | pttl => exact keeps_databaseCommand (keepsAll_pttlCommand args)
  | persist => exact keeps_databaseCommand (keepsAll_persistCommand args)
  | multi => exact robust_kept.keeps_multiCommand args
  -- the queued commands are those that the invariant speaks of
  | exec =>
    exact robust_kept.keeps_execCommand args fun s cl hs hcl queued hqueued =>
      hcb.runQueued c queued (hs.queues c cl hcl queued hqueued)
  | discard => exact robust_kept.keeps_discardCommand args
  | watch =>
    exact robust_kept.keeps_watchCommand fun _ _ _ _ h hs =>
      hs.settled (k := none) (c := none) (.watch h) (.watch h)
  | unwatch => exact robust_kept.keeps_unwatchCommand args
  | subscribe => exact robust_kept.keeps_subscribeCommand
  | unsubscribe => exact robust_kept.keeps_unsubscribeCommand
  | psubscribe => exact robust_kept.keeps_psubscribeCommand
  | punsubscribe => exact robust_kept.keeps_punsubscribeCommand
  | publish => exact robust_kept.keeps_publishCommand
  | replicaof =>
    exact robust_kept.keeps_replicaofCommand fun _ =>
      keeps_onDatabaseAt (DbM.keepsAll_call fun _ _ => Database.all_flushDb)
  | replconf => exact robust_kept.keeps_replconfCommand
  | psync => exact robust_kept.keeps_psyncCommand
  | wait => exact robust_kept.keeps_waitCommand args

/-! ### Eviction -/

section Eviction

omit [Double S] [Inhabited S] [LT S] [DecidableLT S] [BEq S]

variable {P : Value S → Prop}

/-- By induction on the keys. -/
theorem keepsAll_bestOf {better : ℕ → ℕ → Bool} {measure : Bytes → DbM S (Option ℕ)}
    (hmeasure : ∀ key, (measure key).KeepsAll P) (keys : List Bytes) :
    ∀ best bestKey, (bestOf better measure best bestKey keys).KeepsAll P := by
  induction keys with
  | nil => exact fun _ _ => .pure _
  | cons key keys ih =>
    intro best bestKey
    refine .bind (hmeasure key) fun n => ?_
    cases n with
    | none => exact ih _ _
    | some n => exact .ite (ih _ _) (ih _ _)

/-- What is measured of an object is read. -/
theorem keepsAll_objectMeasure {f : RedisObject S → ℕ} (key : Bytes) :
    (objectMeasure f key).KeepsAll P :=
  .bind (DbM.keepsAll_getObject key) fun _ => .pure _

/-- The choice of a key looks at keys, and may delete those that have expired. -/
theorem keepsAll_keyToEvict {policy : Bytes} {samples : ℤ} :
    (keyToEvict policy samples : DbM S _).KeepsAll P := by
  refine .bind (DbM.keepsAll_call fun _ hs => hs.randomSample samples _) fun keys => ?_
  have httl (key : Bytes) : (do
      let ttl ← DbM.pttl key
      return if 0 ≤ ttl then some ttl.toNat else none : DbM S (Option ℕ)).KeepsAll P :=
    .bind (DbM.keepsAll_pttl key) fun _ => .pure _
  split
  · exact .pure _
  · exact .ite (.pure _) (.ite (.bind (keepsAll_bestOf httl _ _ _) fun _ => .pure _)
      (.ite (.bind (keepsAll_bestOf keepsAll_objectMeasure _ _ _) fun _ => .pure _)
        (.bind (.read _) fun _ => .bind (keepsAll_bestOf keepsAll_objectMeasure _ _ _) fun _ =>
          .pure _)))

/-- An eviction deletes. -/
theorem keepsAll_evictOne {policy : Bytes} {samples : ℤ} {target : ℕ} :
    (evictOne policy samples target : DbM S _).KeepsAll P := by
  refine .bind (.read _) fun _ => .ite (.pure _) (.bind keepsAll_keyToEvict fun key => ?_)
  split
  · exact .pure _
  · exact .pure _
  · exact .bind (DbM.keepsAll_del _) fun _ => .pure _

end Eviction

/-! ### `executeCommand` -/

variable {cb : Callbacks S}

omit [Platform] [Double S] [Inhabited S] [LT S] [DecidableLT S] [BEq S] in
/-- The arity check is about the number of arguments. -/
theorem length_of_accepts {cmd : Command} {n : ℕ} (h : cmd.accepts (asInt n) = true) :
    -cmd.arity ≤ n := by
  have hle := asInt_le n
  unfold Command.accepts at h
  split at h
  · omega
  · simp only [Bool.not_eq_true', decide_eq_false_iff_not, not_and, not_lt] at h
    rcases lt_or_ge cmd.arity 0 with hneg | hpos
    · exact (h hneg).trans hle
    · omega

/-- **A command with a name** is refused, queued, or run by its handler, and the arity check comes before all three. -/
theorem keeps_executeNamed (hcb : CallbacksKeep cb) {name : RespValue} {cmdName : Bytes}
    (hname : name.asString = .ok cmdName) (hargs : ∀ a ∈ args, a.IsString) :
    (executeNamed (c := c) cb hname args).Keeps Kept := by
  refine robust_kept.keeps_executeNamed hname (fun _ _ _ _ => keeps_onDatabaseAt keepsAll_evictOne)
    (fun cmd hcmd haccepts s t ht hs => ?_) fun cmd hcmd haccepts => ?_
  · -- the command goes into the queue
    obtain ⟨cl', hcl', rfl⟩ := Option.map_eq_some_iff.mp ht
    refine ⟨Does.stringsWait (k := none) (c := none) (.own hcl' (by constructor <;> rfl) rfl) hs.waits,
      fun i cl'' hcl'' queued hqueued => ?_, hs.filled⟩
    rw [UnorderedMap.lookup_insert_eq_ite] at hcl''
    split at hcl''
    · obtain rfl := Option.some.inj hcl''
      rcases List.mem_append.mp hqueued with hqueued | hqueued
      · exact hs.queues c cl' hcl' queued hqueued
      · obtain rfl := List.mem_singleton.mp hqueued
        exact ⟨name, args, cmdName, cmd, rfl, hname, hcmd, haccepts, hargs⟩
    · exact hs.queues i cl'' hcl'' queued hqueued
  · exact robust_kept.keeps_runHandler ⟨cmdName, hname⟩
      (keeps_handler hcb cmd hargs (by simpa using length_of_accepts haccepts)) fun s r t h hs =>
        hs.settled (.completed ⟨cmdName, hname⟩ h) (Settled.complete h)

/-- **A command keeps the invariant**, where its arguments are strings. -/
theorem keeps_executeCommand (hcb : CallbacksKeep cb) {command : RespValue} {program : CommandM S c command}
    (hargs : command.HasStringArgs) (h : executeCommand cb c command = .ok program) :
    program.Keeps Kept :=
  robust_kept.keeps_executeCommand h fun name args cmdName hname heq => by
    subst heq
    exact keeps_executeNamed hcb hname hargs

/-- A client that is woken runs the command it has waited with. -/
theorem keeps_handleClientsBlockedOnKey (hcb : CallbacksKeep cb) (key : Bytes) :
    (handleClientsBlockedOnKey cb c key).Keeps Kept :=
  Robust.keeps_handleClientsBlockedOnKey
    (fun _ _ _ h hs => hs.of_settled (Settled.unblockClient h) ((Idle.unblockClient h).waits hs.waits)
      (silent_unblockClient h).grows.trace)
    (fun _ _ _ hs => hs.of_settled (.of_eq rfl rfl rfl) hs.waits (List.prefix_append _ _))
    (fun s id hs => hs.of_settled (Settled.installWriteHandler id s)
      ((Idle.installWriteHandler id s).waits hs.waits) (Quiet.installWriteHandler id s).grows.trace)
    fun _ id cl _ hs hcl hprogram => keeps_executeCommand hcb (hs.waits id cl hcl) hprogram

/-- A command that has been queued has the arguments that its handler needs. -/
theorem keeps_runQueued (hcb : CallbacksKeep cb) (hargs : Queueable args) :
    (runQueued cb c args).Keeps Kept := by
  refine robust_kept.keeps_runQueued fun name rest cmdName cmd heq hname hcmd => ?_
  obtain ⟨name', rest', cmdName', cmd', heq', hname', hcmd', haccepts, hrest⟩ := hargs
  obtain ⟨rfl, rfl⟩ := List.cons.inj (heq'.symm.trans heq)
  obtain rfl := Except.ok.inj (hname'.symm.trans hname)
  obtain rfl := Option.some.inj (hcmd'.symm.trans hcmd)
  subst heq
  exact keeps_handler hcb cmd' hrest (length_of_accepts haccepts)

/-- By induction on the depth. -/
theorem callbacksKeep (depth : ℕ) : CallbacksKeep (callbacks depth : Callbacks S) := by
  induction depth with
  | zero => exact ⟨fun _ _ => .undefined, fun _ _ _ => .undefined⟩
  | succ depth ih =>
    exact ⟨fun _ key => keeps_handleClientsBlockedOnKey ih key, fun _ _ => keeps_runQueued ih⟩

/-! ### Runs -/

omit [LT S] [DecidableLT S] [BEq S] in
/-- No client has queued anything when the server starts, and none waits. -/
theorem kept_of_starts {s : Server S} (hs : s.Starts) (hfilled : ∀ db ∈ s.databases, db.All Value.Filled) :
    Kept s where
  waits id cl hcl := by
    rw [hs.clients] at hcl
    cases hcl
  queues id cl hcl := by
    rw [hs.clients] at hcl
    cases hcl
  filled _ := hfilled

/-- **A run of commands keeps the invariant.** By induction on the run. -/
theorem CommandRun.kept {depth : ℕ} {s t : Server S} (h : CommandRun depth s t) (hs : Kept s) :
    Kept t := by
  induction h with
  | refl => exact hs
  | @command t u c args program r _ hargs hprogram hrun ih =>
    have hstrings : (RespValue.array args).HasStringArgs := fun a ha =>
      hargs a (List.mem_of_mem_drop ha)
    exact keeps_executeCommand (callbacksKeep depth) hstrings hprogram t ih r u hrun
  | connect _ ih =>
    exact ih.of_settled (Settled.addClient _) ((Idle.addClient _).waits ih.waits)
      (Moves.trace_prefix .accepted)
  | disconnect _ h ih =>
    exact ih.settled (k := none) (c := none) (.remove h) (Settled.removeClient h)

/-- **No empty collections.** In every run of commands whose arguments are strings, of any clients, from databases
whose collections have elements, as those of an empty server do: if every `ZADD` finds an object at its key or has a
first score that is one, then every list, hash, set and sorted set in a database has an element. The invariant is
`Kept`: as long as the trace has no other `ZADD`, every collection that is there is filled, and the requests that are
queued or wait have strings for arguments. -/
theorem no_empty_collections {depth : ℕ} {s t : Server S} (hs : s.Starts)
    (hfilled : ∀ db ∈ s.databases, db.All Value.Filled) (hrun : CommandRun depth s t)
    (hfills : ∀ e ∈ t.trace, e.Fills S) :
    ∀ db ∈ t.databases, ∀ key obj, db.data.lookup key = some obj → obj.value.HasElement :=
  fun db hdb key obj hobj =>
    ((hrun.kept (kept_of_starts hs hfilled)).filled hfills db hdb key obj hobj).hasElement

end Server

/-! ### Two runs -/

namespace Server

open Sample

/-- The name of `ZADD`. -/
theorem asString_zadd : (RespValue.bulkString (str "ZADD")).asString = .ok (str "ZADD") := rfl

/-- `ZADD k score m`. -/
def sampleZadd (score : String) : CommandM Score 0 (.array [.bulkString (str "ZADD"),
    .bulkString (str "k"), .bulkString (str score), .bulkString (str "m")]) :=
  executeNamed (callbacks 0) asString_zadd
    [.bulkString (str "k"), .bulkString (str score), .bulkString (str "m")]

/-- One command is a run. -/
theorem commandRun_zadd {score : String} {t : Server Score} {r : Except Empty Unit}
    (h : (sampleZadd score).run server.addClient = some (r, t)) : CommandRun 0 server t :=
  .command (.connect .refl) (by simp) (executeCommand_of_name asString_zadd) h

/-- The sample starts with empty databases. -/
theorem empty_server : ∀ db ∈ server.databases, db.data = ∅ := by simp [server]

/-- The sorted set at a key of the first database. -/
def sampleZset (s : Server Score) : Option (SortedSet Score) :=
  (s.databases[0]?).bind fun db => (db.data.lookup (str "k")).bind fun obj => match obj.value with
    | .zset z => some z
    | _ => none

/-- What the sample says of the databases. -/
theorem sampleZset_spec {s : Server Score} {z : SortedSet Score} (h : sampleZset s = some z) :
    ∃ db ∈ s.databases, ∃ key obj, db.data.lookup key = some obj ∧ obj.value = .zset z := by
  obtain ⟨db, hdb, h⟩ := Option.bind_eq_some_iff.mp h
  obtain ⟨obj, hobj, h⟩ := Option.bind_eq_some_iff.mp h
  refine ⟨db, List.mem_of_getElem? hdb, _, obj, hobj, ?_⟩
  split at h
  · next hvalue => rw [hvalue, Option.some.inj h]
  · cases h

/-- A `ZADD` with a score leaves a sorted set with an element. -/
theorem no_empty_collections_zadd : ∃ (t : Server Score) (r : Except Empty Unit),
    (sampleZadd "1").run server.addClient = some (r, t) ∧ (sampleZset t).isSome ∧
    ∀ db ∈ t.databases, ∀ key obj, db.data.lookup key = some obj → obj.value.HasElement := by
  have hran : (((sampleZadd "1").run server.addClient).map fun x => (sampleZset x.2).isSome &&
      x.2.trace.all fun
        | .zadd args _ => ((args[2]?).bind fun a => (converted Double.stod a : Option Score)).isSome
        | _ => true) = some true := by decide +kernel
  obtain ⟨⟨r, t⟩, ht, hsample⟩ := Option.map_eq_some_iff.mp hran
  obtain ⟨hzset, htrace⟩ := Bool.and_eq_true_iff.mp hsample
  refine ⟨t, r, ht, hzset, ?_⟩
  have hfilled : ∀ db ∈ server.databases, db.All Value.Filled := fun db hdb key obj hobj => by
    rw [empty_server db hdb] at hobj
    cases hobj
  refine no_empty_collections starts_server hfilled (commandRun_zadd ht) fun e he => ?_
  have hfills := List.all_eq_true.mp htrace e he
  cases e <;> try trivial
  exact fun _ => .inr (Option.isSome_iff_exists.mp hfills)

/-- Nothing is found where no bucket was ever used. -/
theorem get_of_unused {V : Type} {t : HashTable Bytes V} (h : t.buckets.all Bucket.neverUsed = true)
    (key : Bytes) : t.get Platform.hash key = none := by
  have hnone : HashTable.findIndex Platform.hash key t.buckets = none := by
    unfold HashTable.findIndex
    split
    · rfl
    · split
      · rfl
      · next b hb => rw [if_pos (List.all_eq_true.mp h b (List.mem_of_getElem? hb))]
  rw [HashTable.get, hnone]

/-- `ZADD` with a score that is none leaves an empty sorted set. -/
theorem zadd_leaves_empty : ¬∀ s t : Server Score, s.Starts → (∀ db ∈ s.databases, db.data = ∅) →
    CommandRun 0 s t →
    ∀ db ∈ t.databases, ∀ key obj, db.data.lookup key = some obj → obj.value.HasElement := by
  intro hall
  have hran : (((sampleZadd "one").run server.addClient).bind fun x => (sampleZset x.2).map fun z =>
      z.dict.buckets.all Bucket.neverUsed) = some true := by decide +kernel
  obtain ⟨⟨r, t⟩, ht, hstep⟩ := Option.bind_eq_some_iff.mp hran
  obtain ⟨z, hz, hunused⟩ := Option.map_eq_some_iff.mp hstep
  obtain ⟨db, hdb, key, obj, hobj, hvalue⟩ := sampleZset_spec hz
  have helement := hall server t starts_server empty_server (commandRun_zadd ht) db hdb key obj hobj
  rw [hvalue] at helement
  obtain ⟨member, score, hscore⟩ := helement
  exact absurd ((get_of_unused hunused member).symm.trans hscore) nofun

end Server

end RedisDb

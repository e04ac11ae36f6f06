import RedisDb.Commands.ReadCommands
import RedisDb.Server.AofFile
import RedisDb.Server.Refusals
import RedisDb.Server.Watching

/-!
# What is no write command

`CMD_WRITE` decides what is logged and what is refused when memory is short. Besides `EXEC`, which runs what has been
queued, and `REPLICAOF`, which empties the databases, a command without that flag does nothing to the data
(`reads_leave_data`): either not even the clock is looked at for a key, or keys have expired at most. Nor is anything
logged: no write command has been completed, and the buffer of the append-only file, its stream and the backlog are as
they were.

Most handlers do not work on a database, and leave what is stored alone (`Server.Untouched`). That they do is a matter
of the operations that they call, each of which has a lemma, and of the rules for programs that are made of such
operations (`Untouched.robust`). Those that do work on a database keep `OnlyExpires`, which is proved beside the
commands, and `SAVE` goes through all databases as they do through one. Both kinds come out of `reads_handler`, with
one line for each command.

What comes before and after a handler is the same for all: a request may be refused, or queued, and afterwards it is
counted and noted (`reads_executeNamed`). An access to memory that is short is not among it, for only write commands
evict.
-/

namespace RedisDb

open RespSerializer EffectM

variable {S : Type}

/-- What a database stores: the objects at its keys, and the deadlines. -/
def Database.stored (db : Database S) : UnorderedMap Bytes (RedisObject S) × UnorderedMap Bytes ℤ :=
  (db.data, db.expires)

/-- A request that names no write command, nor `EXEC` or `REPLICAOF`. -/
def RespValue.OnlyReads (command : RespValue) : Prop :=
  ∀ cmd, command.named = some cmd → .write ∉ cmd.flags ∧ cmd ≠ .exec ∧ cmd ≠ .replicaof

namespace Server

/-! ### Steps that leave what is stored alone -/

/-- Nothing is logged: no write command has been completed, and the buffer of the append-only file and the
backlog are as they were. -/
structure LogsNothing (s t : Server S) : Prop where
  completed : completedCommands t.trace = completedCommands s.trace
  aofBuffer : t.aofBuffer = s.aofBuffer
  backlog : t.backlog = s.backlog

/-- One step after another. -/
theorem LogsNothing.trans {s t u : Server S} (h : s.LogsNothing t) (h' : t.LogsNothing u) : s.LogsNothing u :=
  ⟨h'.completed.trans h.completed, h'.aofBuffer.trans h.aofBuffer, h'.backlog.trans h.backlog⟩

/-- A step that logs nothing, in the sense of the log of the write commands. -/
theorem Idle.logsNothing {s t : Server S} (h : Idle s t) : s.LogsNothing t := by
  obtain ⟨es, hes, hidle, -⟩ := h.trace
  refine ⟨?_, h.aofBuffer, h.backlog⟩
  rw [hes, completedCommands_append, completedCommands_of_idle hidle, List.append_nil]

/-- What is stored is the same. Where nobody has waited nobody waits, and nothing has been logged. -/
structure Untouched (s t : Server S) : Prop where
  stored : t.databases.map Database.stored = s.databases.map Database.stored
  idle : s.blockedClients = ∅ → t.blockedClients = ∅
  logged : s.LogsNothing t

namespace Untouched

variable {s t u : Server S} {id : ClientId}

/-- Where nothing happens. -/
theorem refl (s : Server S) : s.Untouched s := ⟨rfl, fun h => h, rfl, rfl, rfl⟩

/-- One step after another. -/
theorem trans (h : s.Untouched t) (h' : t.Untouched u) : s.Untouched u :=
  ⟨h'.stored.trans h.stored, fun hs => h'.idle (h.idle hs), h.logged.trans h'.logged⟩

/-- What is stored stays, nobody comes to wait, and nothing is logged. -/
theorem of_idle (hdatabases : t.databases.map Database.stored = s.databases.map Database.stored)
    (hblocked : t.blockedClients = s.blockedClients) (hidle : Idle s t) : s.Untouched t :=
  ⟨hdatabases, fun hs => hblocked.trans hs, hidle.logsNothing⟩

/-- A reply is not stored. -/
theorem addReply {data : Bytes} (h : s.addReply id data = some t) : s.Untouched t := by
  have hidle := Idle.addReply h
  obtain ⟨u, hu, rfl⟩ := Option.map_eq_some_iff.mp h
  obtain ⟨cl, -, rfl⟩ := Option.map_eq_some_iff.mp hu
  exact of_idle rfl rfl hidle

/-- Nor is a write handler. -/
theorem installWriteHandler (id : ClientId) (s : Server S) : s.Untouched (s.installWriteHandler id) := by
  have hidle := Idle.installWriteHandler id s
  refine of_idle ?_ ?_ hidle
  all_goals
    unfold Server.installWriteHandler
    split <;> rfl

/-- Nor is a published message. -/
theorem deliver {data : Bytes} (h : s.deliver id data = some t) : s.Untouched t := by
  obtain ⟨u, hu, rfl⟩ := Option.map_eq_some_iff.mp h
  exact (addReply hu).trans (installWriteHandler id u)

/-- What is aside of the databases. -/
theorem aside (h : s.Aside t) : s.Untouched t := of_idle (by rw [h.databases]) h.blockedClients (.aside h)

/-- A client is taken off the lists of those who watch a key. By induction on the keys. -/
theorem stored_forgetWatched (keys : List Bytes) : ∀ ds : DbState S,
    (forgetWatched id keys ds).db.stored = ds.db.stored := by
  induction keys with
  | nil => exact fun _ => rfl
  | cons key keys ih =>
    intro ds
    refine (ih (ds.removeWatchedKey key id)).trans ?_
    unfold DbState.removeWatchedKey
    split
    · rfl
    · dsimp only
      split <;> rfl

/-- Watches are beside what is stored. -/
theorem unwatch (h : s.unwatch id = some t) : s.Untouched t := by
  have hidle := Idle.unwatch h
  obtain ⟨cl, hcl, rfl⟩ := Option.map_eq_some_iff.mp h
  refine of_idle ?_ rfl hidle
  rw [List.map_map]
  exact List.map_congr_left fun db _ => stored_forgetWatched _ _

/-- The same. -/
theorem watch {i : ℕ} {key : Bytes} (h : s.watch id i key = some t) : s.Untouched t := by
  have hidle := Idle.watch h
  obtain ⟨db, hdb, hu⟩ := Option.bind_eq_some_iff.mp h
  obtain ⟨cl, hcl, rfl⟩ := Option.map_eq_some_iff.mp hu
  refine of_idle ?_ rfl hidle
  obtain ⟨hi, rfl⟩ := List.getElem?_eq_some_iff.mp hdb
  refine List.ext_getElem (by simp) fun j _ hj => ?_
  rw [List.getElem_map, List.getElem_map, List.getElem_set]
  split
  · next heq =>
    subst heq
    rfl
  · rfl

/-- A subscription is not stored. -/
theorem subscribeChannel {channel : Bytes} (h : s.subscribeChannel id channel = some t) : s.Untouched t := by
  have hidle := Idle.subscribeChannel h
  obtain ⟨cl, hcl, rfl⟩ := Option.map_eq_some_iff.mp h
  refine of_idle ?_ ?_ hidle
  all_goals split <;> rfl

/-- Nor is its end. -/
theorem unsubscribeChannel {channel : Bytes} (h : s.unsubscribeChannel id channel = some t) : s.Untouched t := by
  have hidle := Idle.unsubscribeChannel h
  obtain ⟨cl, hcl, rfl⟩ := Option.map_eq_some_iff.mp h
  refine of_idle ?_ ?_ hidle
  all_goals split <;> rfl

/-- The same of a pattern. -/
theorem psubscribePattern {pattern : Bytes} (h : s.psubscribePattern id pattern = some t) : s.Untouched t := by
  have hidle := Idle.psubscribePattern h
  obtain ⟨cl, hcl, rfl⟩ := Option.map_eq_some_iff.mp h
  refine of_idle ?_ ?_ hidle
  all_goals split <;> rfl

/-- The same of a pattern. -/
theorem punsubscribePattern {pattern : Bytes} (h : s.punsubscribePattern id pattern = some t) : s.Untouched t := by
  have hidle := Idle.punsubscribePattern h
  obtain ⟨cl, hcl, rfl⟩ := Option.map_eq_some_iff.mp h
  refine of_idle ?_ ?_ hidle
  all_goals split <;> rfl

/-- A replica is a client like others. -/
theorem addReplica (h : s.addReplica id = some t) : s.Untouched t := by
  have hidle := Idle.addReplica h
  obtain ⟨u, hu, rfl⟩ := Option.map_eq_some_iff.mp h
  obtain ⟨cl, -, rfl⟩ := Option.map_eq_some_iff.mp hu
  exact of_idle rfl rfl hidle

/-- Nobody is taken off the lists of those who wait, where there are none. By induction on the keys. -/
theorem removeAll_empty (keys : List Bytes) (id : ClientId) : (∅ : Index Bytes ClientId).removeAll keys id = ∅ := by
  induction keys with
  | nil => rfl
  | cons key keys ih =>
    rw [Index.removeAll, List.foldl_cons, Index.remove_of_none (AList.lookup_empty key)]
    exact ih

/-- Where nobody waits nobody is woken. -/
theorem unblockClient (h : s.unblockClient id = some t) : s.Untouched t := by
  have hidle := Idle.unblockClient h
  obtain ⟨cl, hcl, rfl⟩ := Option.map_eq_some_iff.mp h
  refine ⟨?_, fun hs => ?_, hidle.logsNothing⟩
  · split <;> rfl
  · split
    · show s.blockedClients.removeAll cl.blockedKeys id = ∅
      rw [hs]
      exact removeAll_empty _ _
    · exact hs

/-- A replica that goes leaves the data and those who wait. -/
theorem closeReplication (id : ClientId) (cl : Client) (s : Server S) :
    (s.closeReplication id cl).databases = s.databases ∧
      (s.closeReplication id cl).blockedClients = s.blockedClients := by
  unfold Server.closeReplication
  dsimp only
  split <;> split <;> exact ⟨rfl, rfl⟩

/-- A client that is removed leaves what it has stored. -/
theorem removeClient (h : s.removeClient id = some t) : s.Untouched t := by
  have hidle := Idle.removeClient h
  unfold Server.removeClient at h
  split at h
  · obtain rfl := Option.some.inj h
    exact refl _
  · obtain ⟨u, hu, rfl⟩ := Option.map_eq_some_iff.mp h
    obtain ⟨cl, hcl, hu⟩ := Option.bind_eq_some_iff.mp hu
    obtain ⟨v, hv, hu⟩ := Option.bind_eq_some_iff.mp hu
    obtain ⟨w, hw, hu⟩ := Option.bind_eq_some_iff.mp hu
    obtain rfl := Option.some.inj hu
    -- up to there clients have been taken off lists
    have hgone := (unblockClient hv).trans (unwatch hw)
    obtain ⟨hdatabases, hblocked⟩ := closeReplication id cl w
    refine ⟨?_, fun hs => hblocked.trans (hgone.idle hs), hidle.logsNothing⟩
    exact (congrArg (List.map Database.stored) hdatabases).trans hgone.stored

/-- So does the link. -/
theorem disconnectFromMaster (h : s.disconnectFromMaster = some t) : s.Untouched t := by
  have hidle := Idle.disconnectFromMaster h
  unfold Server.disconnectFromMaster at h
  split at h
  · obtain rfl := Option.some.inj h
    exact of_idle rfl rfl hidle
  · split at h
    · cases h
    · obtain ⟨u, hu, rfl⟩ := Option.map_eq_some_iff.mp h
      have hgone := removeClient hu
      exact ⟨hgone.stored, hgone.idle, hidle.logsNothing⟩

/-- What handlers call for clients, and not for data. -/
theorem robust (s : Server S) : Robust s.Untouched where
  own {t id cl cl'} hcl htame hs := by
    have hcmd : cl.blockCmd.HasStringArgs → cl'.blockCmd.HasStringArgs := fun h => htame.tables.blockCmd ▸ h
    exact hs.trans (of_idle rfl rfl (.client hcl ⟨rfl, rfl, rfl, rfl, rfl, rfl⟩ rfl hcmd))
  aside h hs := hs.trans (aside h)
  reply h hs := hs.trans (addReply h)
  deliver h hs := hs.trans (deliver h)
  unwatch h hs := hs.trans (unwatch h)
  subscribe h hs := hs.trans (subscribeChannel h)
  unsubscribe h hs := hs.trans (unsubscribeChannel h)
  psubscribe h hs := hs.trans (psubscribePattern h)
  punsubscribe h hs := hs.trans (punsubscribePattern h)
  attach h hs := hs.trans (addReplica h)
  disconnect h hs := hs.trans (disconnectFromMaster h)
  replicate {t _ host port} h hs := by
    have hset : t.Untouched (t.setMaster host port) := of_idle rfl rfl (.setMaster host port t)
    exact (hs.trans hset).trans (disconnectFromMaster h)

end Untouched

/-! ### Saving -/

/-- Going through a list of databases, keys expire at most. -/
def DatabasesExpire (databases databases' : List (Database S)) (env env' : Env) : Prop :=
  databases'.length = databases.length ∧ ∃ n, (env'.clock = fun k => env.clock (n + k)) ∧
    ∀ (i : ℕ) (db db' : Database S), databases[i]? = some db → databases'[i]? = some db' → db.Remains db' ∧
      ∀ key ∈ db.data, key ∉ db'.data →
        ∃ deadline, db.expires.lookup key = some deadline ∧ ∃ j < n, deadline ≤ env.clock j

section Saving

variable [Platform] [Double S] [Inhabited S]

/-- Saving a key looks it up. -/
theorem onlyExpires_saveKey (key : Bytes) (w : Rdb.Writer) (s : DbState S) : s.OnlyExpires (Rdb.saveKey key w s).2 := by
  have hget : s.OnlyExpires (s.getObject key).2 := (DbState.sheds_getObject key s).1
  unfold Rdb.saveKey
  rcases hx : s.getObject key with ⟨obj, t⟩
  rw [hx] at hget
  cases obj with
  | none => exact hget
  | some obj =>
    have hpttl : s.OnlyExpires (t.pttl key).2 := hget.trans (DbState.sheds_pttl key t)
    rcases hy : t.pttl key with ⟨pttl, u⟩
    rw [hy] at hpttl
    dsimp only
    simp only [hy]
    split
    · exact hpttl.trans (.of_now rfl (DbState.readsClock_now u) rfl rfl)
    · exact hpttl

/-- By induction on the keys. -/
theorem onlyExpires_saveKeys (keys : List Bytes) : ∀ (w : Rdb.Writer) (s : DbState S),
    s.OnlyExpires (Rdb.saveKeys keys w s).2 := by
  induction keys with
  | nil => exact fun w s => .refl _ s
  | cons key keys ih => exact fun w s => (onlyExpires_saveKey key w s).trans (ih _ _)

/-- The keys of a database are saved one after another. -/
theorem onlyExpires_saveDatabase (i : ℕ) (w : Rdb.Writer) (s : DbState S) :
    s.OnlyExpires (Rdb.saveDatabase i w s).2 := by
  unfold Rdb.saveDatabase
  split
  · exact .refl _ s
  · exact (DbState.onlyExpires_keys _ s).trans (onlyExpires_saveKeys _ _ _)

/-- By induction on the databases. -/
theorem expire_saveDatabases (databases : List (Database S)) : ∀ (i : ℕ) (w : Rdb.Writer) (env : Env),
    DatabasesExpire databases (Rdb.saveDatabases i databases w env).2.1 env
      (Rdb.saveDatabases i databases w env).2.2 := by
  induction databases with
  | nil =>
    intro i w env
    exact ⟨rfl, 0, funext fun k => by rw [Nat.zero_add]; rfl, fun j db db' hdb => by cases hdb⟩
  | cons db rest ih =>
    intro i w env
    -- the first database, and how many readings of the clock it took
    have hfirst := onlyExpires_saveDatabase i w ({ env with db := db } : DbState S)
    rcases hx : Rdb.saveDatabase i w ({ env with db := db } : DbState S) with ⟨w', ds⟩
    rw [hx] at hfirst
    obtain ⟨hlength, m, hclock', hrest⟩ := ih (i + 1) w' ds.toEnv
    obtain ⟨n, hclock, hgone⟩ := hfirst.gone
    simp only [Rdb.saveDatabases, hx]
    refine ⟨congrArg (· + 1) hlength, n + m, ?_, fun j old new hold hnew => ?_⟩
    · rw [hclock', show ds.clock = _ from hclock]
      exact funext fun k => congrArg env.clock (by omega)
    · cases j with
      | zero =>
        -- a key of the first database is gone only if its deadline had passed at one of these readings
        obtain rfl := Option.some.inj hold
        obtain rfl := Option.some.inj hnew
        refine ⟨hfirst.remains, fun key hkey hout => ?_⟩
        obtain ⟨deadline, hd, k, hk, hpast⟩ := (hgone key hkey hout).resolve_left id
        exact ⟨deadline, hd, k, by omega, hpast⟩
      | succ j =>
        -- the databases behind it are read later
        obtain ⟨hremains, hlater⟩ := hrest j old new hold hnew
        refine ⟨hremains, fun key hkey hout => ?_⟩
        obtain ⟨deadline, hd, k, hk, hpast⟩ := hlater key hkey hout
        refine ⟨deadline, hd, n + k, by omega, ?_⟩
        rwa [show ds.clock = _ from hclock] at hpast

/-- All databases are. -/
theorem expire_saveToFile (opens : Bool) (databases : List (Database S)) (env : Env) :
    DatabasesExpire databases (Rdb.saveToFile opens databases env).2.2.1 env
      (Rdb.saveToFile opens databases env).2.2.2 := by
  unfold Rdb.saveToFile
  split
  · refine ⟨rfl, 0, funext fun k => by rw [Nat.zero_add], fun j db db' hdb hdb' => ?_⟩
    obtain rfl := Option.some.inj (hdb.symm.trans hdb')
    exact ⟨.refl db, fun key hkey hout => absurd hkey hout⟩
  · exact expire_saveDatabases databases 0 _ env

end Saving

/-! ### Handlers -/

/-- Keys expire at most. Where nobody has waited nobody waits, and nothing has been logged. -/
structure Looks (s t : Server S) : Prop where
  data : s.OnlyExpires t
  idle : s.blockedClients = ∅ → t.blockedClients = ∅
  logged : s.LogsNothing t

/-- A request that writes nothing looks at the data, or not even that. -/
def Reads (s t : Server S) : Prop := s.Looks t ∨ s.Untouched t

/-- Where nothing happens. -/
theorem Looks.refl (s : Server S) : s.Looks s := ⟨.refl s, fun h => h, rfl, rfl, rfl⟩

/-- One step after another. -/
theorem Looks.trans {s t u : Server S} (h : s.Looks t) (h' : t.Looks u) : s.Looks u :=
  ⟨h.data.trans h'.data, fun hs => h'.idle (h.idle hs), h.logged.trans h'.logged⟩

/-- What goes with the data as they are, and the clock where it stands. -/
theorem Looks.of_untouched {s t : Server S} (h : s.Untouched t) (hdatabases : t.databases = s.databases)
    (henv : t.env = s.env) : s.Looks t := ⟨.of_same hdatabases henv, h.idle, h.logged⟩

/-- A command that is no write command is noted, and that is all. -/
theorem Reads.noted {s t : Server S} (h : s.Reads t) (args : List RespValue) :
    s.Reads (t.note (.completed false args)) := by
  have hlogged : t.LogsNothing (t.note (.completed false args)) :=
    (Idle.note (e := .completed false args) rfl t).logsNothing
  cases h with
  | inl hlooks => exact .inl ⟨hlooks.data.trans (.of_same rfl rfl), hlooks.idle, hlooks.logged.trans hlogged⟩
  | inr huntouched => exact .inr ⟨huntouched.stored, huntouched.idle, huntouched.logged.trans hlogged⟩

section Handlers

variable [Platform] {s s₀ : Server S} {c : ClientId} {args : List RespValue} {k : Option RespValue} {ε α : Type}

/-- A reply. -/
theorem looks_addReply {id : ClientId} (data : Bytes) :
    (EffectM.addReply data : EffectM S k (some id) ε Unit).Keeps s₀.Looks := by
  refine fun s hs => (post_call s _).mpr fun t ht => hs.trans ?_
  have huntouched := Untouched.addReply ht
  obtain ⟨u, hu, rfl⟩ := Option.map_eq_some_iff.mp ht
  obtain ⟨cl, -, rfl⟩ := Option.map_eq_some_iff.mp hu
  exact .of_untouched huntouched rfl rfl

/-- What is drawn from outside, but not from the clock. -/
theorem looks_draw {o : Option ClientId} {f : Server S → α × Server S} {h : ∀ s : Server S, s.Aside (f s).2}
    (henv : ∀ s, (f s).2.env = s.env) : (draw f h : EffectM S k o ε α).Keeps s₀.Looks :=
  Program.Keeps.step fun s a t hf hs => by
    obtain rfl : (f s).2 = t := congrArg Prod.snd (Option.some.inj hf)
    exact hs.trans (.of_untouched (.aside (h s)) (h s).databases (henv s))

/-- **A program that looks at the selected database.** -/
theorem looks_onDatabase {p : DbM S α} (hp : ∀ ds : DbState S, p.Keeps ds.OnlyExpires) :
    (onDatabase p : EffectM S k (some c) Exn α).Keeps s₀.Looks := by
  refine fun s hs => (post_onDatabase p s).mono ?_
  rintro r t ⟨cl, db, ds, clients, hcl, hdb, hrun, rfl, -⟩
  have hds : (s.dbState db).OnlyExpires ds := hp _ _ (.refl _ _) _ _ hrun
  exact hs.trans ⟨.of_database hdb rfl rfl hds, fun h => h, rfl, rfl, rfl⟩

/-- A command that looks at the selected database, and replies. -/
theorem looks_databaseCommand {f : DatabaseCommand S} (hf : ∀ ds : DbState S, (f args).Keeps ds.OnlyExpires) :
    (databaseCommand f c args).Keeps s₀.Looks :=
  .bind (looks_onDatabase hf) fun reply => looks_addReply reply

/-- `DEBUG` looks an object up, with a deadline that may have passed. -/
theorem looks_debugCommand : (debugCommand c args : ServerM S c Unit).Keeps s₀.Looks := by
  refine .ite (looks_addReply _) (.bind (keeps_argString _ _) fun _ => .ite
    (.bind (keeps_argString _ _) fun key => .bind (looks_onDatabase fun _ => onlyExpires_getObject key) fun obj => ?_)
    (.ite .undefined (looks_addReply _)))
  cases obj with
  | none => exact looks_addReply _
  | some obj => exact .bind (looks_draw fun _ => rfl) fun _ => looks_addReply _

/-- What is done to all databases, where keys expire at most. -/
theorem looks_onDatabases {f : List (Database S) → Env → Server S → Option (α × List (Database S) × Env)}
    {h : ∀ s : Server S, ∀ a databases env, f s.databases { s.env with flagged := [] } s
      = some (a, databases, env) →
      databases.map Database.watchedKeys = s.databases.map Database.watchedKeys ∧
        (RedisDb.Accounted s.databases s.env → RedisDb.Accounted databases env)}
    (hf : ∀ (s : Server S) a databases env, f s.databases { s.env with flagged := [] } s
      = some (a, databases, env) → DatabasesExpire s.databases databases s.env env) :
    (onDatabases f h : EffectM S k (some c) ε α).Keeps s₀.Looks := by
  refine .step fun s a t ht hs => ?_
  obtain ⟨⟨a', databases, env⟩, hdatabases, hput⟩ := Option.bind_eq_some_iff.mp ht
  obtain ⟨t', ht', heq⟩ := Option.map_eq_some_iff.mp hput
  obtain ⟨-, rfl⟩ := Prod.mk.inj heq
  obtain ⟨clients, rfl⟩ := flagDirty_spec _ ht'
  obtain ⟨hlength, hgone⟩ := hf s a' databases env hdatabases
  exact hs.trans ⟨⟨hlength, hgone⟩, fun h => h, rfl, rfl, rfl⟩

/-- `SAVE` reads the clock for the keys, and once more when it is done. -/
theorem looks_saveCommand [Double S] [Inhabited S] (args : List RespValue) :
    (saveCommand c args : ServerM S c Unit).Keeps s₀.Looks := by
  -- `save` looks through the databases, and resets their counters of changes at the end
  have hsave : (save : ServerM S c Bool).Keeps s₀.Looks := by
    refine .bind (.read _) fun _ => .ite (.pure _) (.bind (looks_draw fun _ => rfl) fun opens =>
      .bind (looks_onDatabases fun s a databases env h => ?_) fun x => ?_)
    · obtain ⟨-, h⟩ := Prod.mk.inj (Option.some.inj h)
      obtain ⟨rfl, rfl⟩ := Prod.mk.inj h
      exact expire_saveToFile opens s.databases { s.env with flagged := [] }
    · obtain ⟨success, out⟩ := x
      refine .ite (.bind (looks_onDatabases fun s a databases env h => ?_) fun _ => .bind ?_ fun _ => .pure _) (.pure _)
      · obtain ⟨-, h⟩ := Prod.mk.inj (Option.some.inj h)
        obtain ⟨rfl, rfl⟩ := Prod.mk.inj h
        refine ⟨List.length_map .., 0, funext fun k => by rw [Nat.zero_add], fun i db db' hdb hdb' => ?_⟩
        replace hdb' : (s.databases.map fun db => { db with dirty := 0 })[i]? = some db' := hdb'
        rw [List.getElem?_map, hdb] at hdb'
        obtain rfl := Option.some.inj hdb'
        exact ⟨⟨fun _ obj h => ⟨obj, h, rfl⟩, fun _ _ => rfl, fun _ _ h => h⟩, fun key hkey hout => absurd hkey hout⟩
      · refine keeps_modify_of fun s hs => hs.trans ⟨.of_eq 1 rfl ?_, fun h => h, rfl, rfl, rfl⟩
        exact funext fun k => congrArg s.env.clock (Nat.add_comm k 1)
  exact .bind hsave fun _ => .ite (looks_addReply _) (looks_addReply _)

/-- A reply changes neither what has been looked at nor what has been left alone. -/
theorem reads_addReply (data : Bytes) :
    (EffectM.addReply data : EffectM S k (some c) ε Unit).Keeps s₀.Reads := by
  intro s hs
  cases hs with
  | inl hlooks => exact (looks_addReply data s hlooks).mono fun _ _ => .inl
  | inr huntouched => exact ((Untouched.robust s₀).keeps_addReply data s huntouched).mono fun _ _ => .inr

/-- The command is counted. -/
theorem reads_incrementCommandsProcessed :
    (incrementCommandsProcessed : EffectM S k (some c) ε Unit).Keeps s₀.Reads := by
  refine keeps_modify_of fun s hs => ?_
  cases hs with
  | inl hlooks => exact .inl ⟨hlooks.data.trans (.of_same rfl rfl), hlooks.idle, hlooks.logged.trans ⟨rfl, rfl, rfl⟩⟩
  | inr huntouched =>
    exact .inr ⟨huntouched.stored, huntouched.idle, huntouched.logged.trans ⟨rfl, rfl, rfl⟩⟩

/-- Between `MULTI` and `EXEC` a command is queued. -/
theorem untouched_queue {name : RespValue} : (do
    modifyClient c (fun cl => { cl with transactionQueue := cl.transactionQueue ++ [name :: args] })
      fun _ => by constructor <;> rfl
    EffectM.addReply (simpleString (str "QUEUED")) : CommandM S c (.array (name :: args))).Keeps s₀.Untouched := by
  refine .bind (Robust.keeps_call fun t u hu ht => ?_) fun _ => (Untouched.robust s₀).keeps_addReply _
  obtain ⟨cl, hcl, rfl⟩ := Option.map_eq_some_iff.mp hu
  exact ht.trans (.of_idle rfl rfl (.client hcl ⟨rfl, rfl, rfl, rfl, rfl, rfl⟩ rfl fun h => h))

variable [Double S] [Inhabited S] [LT S] [DecidableLT S] [BEq S]

/-- **A handler of a command that is no write command**, but for the two that run what is queued or take the data of
another server. -/
theorem reads_handler {callbacks : Callbacks S} {cmd : Command} (hread : .write ∉ cmd.flags) (hexec : cmd ≠ .exec)
    (hreplicaof : cmd ≠ .replicaof) : (cmd.handler callbacks c args).Post s fun _ t => s.Reads t := by
  -- a program either looks at a database, and may expire keys, or does not touch it
  have hlooks {p : ServerM S c Unit} (hp : p.Keeps s.Looks) : p.Post s fun _ t => s.Reads t :=
    (hp s (.refl s)).mono fun _ _ => .inl
  have huntouched {p : ServerM S c Unit} (hp : p.Keeps s.Untouched) : p.Post s fun _ t => s.Reads t :=
    (hp s (.refl s)).mono fun _ _ => .inr
  have hI : Robust s.Untouched := Untouched.robust s
  cases cmd with
  | ping => exact huntouched hI.keeps_pingCommand
  | echo => exact huntouched hI.keeps_echoCommand
  | command => exact huntouched hI.keeps_commandCommand
  | select => exact huntouched hI.keeps_selectCommand
  | quit => exact huntouched (hI.keeps_quitCommand args)
  | info => exact huntouched (hI.keeps_infoCommand args)
  | bgsave => exact huntouched (hI.keeps_bgsaveCommand args)
  | bgrewriteaof => exact huntouched (hI.keeps_bgrewriteaofCommand args)
  | config => exact huntouched hI.keeps_configCommand
  | multi => exact huntouched (hI.keeps_multiCommand args)
  | discard => exact huntouched (hI.keeps_discardCommand args)
  | watch => exact huntouched (hI.keeps_watchCommand fun _ _ _ _ h hs => hs.trans (.watch h))
  | unwatch => exact huntouched (hI.keeps_unwatchCommand args)
  | subscribe => exact huntouched hI.keeps_subscribeCommand
  | unsubscribe => exact huntouched hI.keeps_unsubscribeCommand
  | psubscribe => exact huntouched hI.keeps_psubscribeCommand
  | punsubscribe => exact huntouched hI.keeps_punsubscribeCommand
  | publish => exact huntouched hI.keeps_publishCommand
  | replconf => exact huntouched hI.keeps_replconfCommand
  | psync => exact huntouched hI.keeps_psyncCommand
  | wait => exact huntouched (hI.keeps_waitCommand args)
  -- these look at a database, and the ones before do not
  | dbsize => exact hlooks (looks_databaseCommand fun _ => onlyExpires_dbsizeCommand args)
  | save => exact hlooks (looks_saveCommand args)
  | debug => exact hlooks looks_debugCommand
  | lrange => exact hlooks (looks_databaseCommand fun _ => onlyExpires_lrangeCommand args)
  | llen => exact hlooks (looks_databaseCommand fun _ => onlyExpires_llenCommand args)
  | hget => exact hlooks (looks_databaseCommand fun _ => onlyExpires_hgetCommand args)
  | hgetall => exact hlooks (looks_databaseCommand fun _ => onlyExpires_hgetallCommand args)
  | sismember => exact hlooks (looks_databaseCommand fun _ => onlyExpires_sismemberCommand args)
  | smembers => exact hlooks (looks_databaseCommand fun _ => onlyExpires_smembersCommand args)
  | zrange => exact hlooks (looks_databaseCommand fun _ => onlyExpires_zrangeCommand args)
  | zrank => exact hlooks (looks_databaseCommand fun _ => onlyExpires_zrankCommand args)
  | zscore => exact hlooks (looks_databaseCommand fun _ => onlyExpires_zscoreCommand args)
  | get => exact hlooks (looks_databaseCommand fun _ => onlyExpires_getCommand args)
  | «exists» => exact hlooks (looks_databaseCommand fun _ => onlyExpires_existsCommand args)
  | mget => exact hlooks (looks_databaseCommand fun _ => onlyExpires_mgetCommand args)
  | strlen => exact hlooks (looks_databaseCommand fun _ => onlyExpires_strlenCommand args)
  | type => exact hlooks (looks_databaseCommand fun _ => onlyExpires_typeCommand args)
  | keys => exact hlooks (looks_databaseCommand fun _ => onlyExpires_keysCommand args)
  | ttl => exact hlooks (looks_databaseCommand fun _ => onlyExpires_ttlCommand args)
  | pttl => exact hlooks (looks_databaseCommand fun _ => onlyExpires_pttlCommand args)
  | exec => exact absurd rfl hexec
  | replicaof => exact absurd rfl hreplicaof
  -- what is left has the flag
  | _ => exact absurd (by decide) hread

/-- What comes behind the handler of a command that is no write command: it is counted, or an exception is caught. -/
theorem reads_runHandler {callbacks : Callbacks S} {cmd : Command} {name : RespValue} (hname : name.IsString)
    (hread : .write ∉ cmd.flags) (hexec : cmd ≠ .exec) (hreplicaof : cmd ≠ .replicaof) :
    (runHandler (c := c) callbacks cmd hname args).Post s fun _ t => s.Reads t := by
  refine (Program.post_handle _ _ _ _).mpr ((Program.post_bind _ _ _ _).mpr ?_)
  refine Program.Post.mono ((Program.post_lift _ _ _).mpr (reads_handler hread hexec hreplicaof)) fun r t ht => ?_
  cases r with
  | error e => exact reads_addReply _ t ht
  | ok _ =>
    refine Program.Post.mono (Program.Keeps.bind reads_incrementCommandsProcessed (fun _ => ?_) t ht) fun r u hu => ?_
    · -- it is only noted
      intro v hv r w hw
      replace hw : v.complete c (.write ∈ cmd.flags) (name :: args) = some (r, w) := hw
      rw [decide_eq_false hread] at hw
      obtain ⟨-, rfl⟩ := Prod.mk.inj (Option.some.inj hw)
      exact hv.noted _
    · cases r with
      | ok _ => exact hu
      | error e => exact reads_addReply _ u hu

/-- A request that is no write command is refused, queued, or run. -/
theorem reads_executeNamed {callbacks : Callbacks S} {name : RespValue} {cmdName : Bytes}
    (hname : name.asString = .ok cmdName)
    (hread : ∀ cmd, Command.lookup cmdName = some cmd → .write ∉ cmd.flags ∧ cmd ≠ .exec ∧ cmd ≠ .replicaof) :
    (executeNamed (c := c) callbacks hname args).Post s fun _ t => s.Reads t := by
  have hstart : s.Reads s := .inl (.refl s)
  unfold executeNamed
  split
  · exact reads_addReply _ s hstart
  · next cmd hcmd =>
    obtain ⟨hwrite, hexec, hreplicaof⟩ := hread cmd hcmd
    -- no memory is counted for it
    have hmemory : (outOfMemory cmd : EffectM S (some (.array (name :: args))) (some c) Empty Bool).run s
        = some (.ok false, s) := by
      refine (Program.run_bind_ok (t := s) rfl _).trans ?_
      rw [if_pos (Or.inl hwrite)]
      rfl
    refine (Program.post_bind _ _ _ _).mpr fun r t ht => ?_
    obtain ⟨hr, hst⟩ := Prod.mk.inj (Option.some.inj (ht.symm.trans hmemory))
    rw [hr, hst]
    dsimp only
    rw [if_neg Bool.false_ne_true]
    split
    · exact reads_addReply _ s hstart
    · rw [Program.post_bind, post_client]
      intro cl hcl
      dsimp only
      split
      · -- in a transaction the command is queued
        exact (untouched_queue s (.refl s)).mono fun _ _ => .inr
      · exact reads_runHandler _ hwrite hexec hreplicaof

/-- A request that is an array with a name. -/
theorem reads_executeCommand {depth : ℕ} {command : RespValue} {program : CommandM S c command}
    (hprogram : executeCommand (callbacks depth) c command = .ok program) (hread : command.OnlyReads) :
    program.Post s fun _ t => s.Reads t := by
  unfold executeCommand at hprogram
  split at hprogram
  · exact Except.ok.inj hprogram ▸ reads_addReply _ s (.inl (.refl s))
  · next name args =>
    split at hprogram
    · cases hprogram
    · next cmdName hname =>
      obtain rfl := Except.ok.inj hprogram
      exact reads_executeNamed hname fun cmd hcmd => hread cmd ((RespValue.named_of_name hname).trans hcmd)
  · exact Except.ok.inj hprogram ▸ reads_addReply _ s (.inl (.refl s))

/-- **What is no write command leaves the data alone.** A request whose command does not have the flag `CMD_WRITE`,
and is neither `EXEC` nor `REPLICAOF`, takes away keys whose deadlines a reading of the clock has passed, or does not
touch what is stored at all, from any state of the server; and nothing is logged for it: nothing is in the buffer of
the append-only file, in the file or in the backlog that was not there before. Such a handler only looks (`Looks`), or
has to do with other parts of the server (`Untouched`), which is seen from its program. -/
theorem reads_leave_data {depth : ℕ} {command : RespValue} (hread : command.OnlyReads)
    {program : CommandM S c command} (hprogram : executeCommand (callbacks depth) c command = .ok program)
    {t : Server S} {r : Except Empty Unit} (hrun : program.run s = some (r, t)) :
    (s.OnlyExpires t ∨ t.databases.map Database.stored = s.databases.map Database.stored) ∧
      s.LogsNothing t ∧ t.aofStream = s.aofStream := by
  have hstream : t.aofStream = s.aofStream := (Program.within _ hrun).appends.file.aofStream
  cases reads_executeCommand hprogram hread r t hrun with
  | inl hlooks => exact ⟨.inl hlooks.data, hlooks.logged, hstream⟩
  | inr huntouched => exact ⟨.inr huntouched.stored, huntouched.logged, hstream⟩

end Handlers

section Sample

open Sample

/-- A server whose clock goes on by one with every reading. -/
private def ticking : Server Score := { server with env := { server.env with clock := fun n => n } }

/-- A string that expires. -/
private def expiring : Option (Server Score) :=
  ticking.run (fun _ => none) 2 [.accept, sends 0 ["SET", "k", "v", "PX", "1"]]

/-- The words of the command. -/
private def get : RespValue := .bulkString (str "GET")
private def ofKey : List RespValue := [.bulkString (str "k")]

/-- The name of `GET`. -/
private theorem asString_get : get.asString = .ok (str "GET") := rfl

/-- `GET` of a key that has expired takes it away, and logs nothing. -/
theorem reads_leave_data_get : ∃ s t : Server Score, expiring = some s ∧
    s.databases.map (fun db => db.data.keys) ≠ t.databases.map (fun db => db.data.keys) ∧
    (s.OnlyExpires t ∨ t.databases.map Database.stored = s.databases.map Database.stored) ∧
      s.LogsNothing t ∧ t.aofStream = s.aofStream := by
  have hran : ((expiring).bind fun s =>
      ((executeNamed (c := 0) (callbacks 2) asString_get ofKey).run s).map fun x =>
        decide (s.databases.map (fun db => db.data.keys) ≠ x.2.databases.map fun db => db.data.keys))
      = some true := by decide +kernel
  obtain ⟨s, hs, hrun⟩ := Option.bind_eq_some_iff.mp hran
  obtain ⟨x, hx, hkeys⟩ := Option.map_eq_some_iff.mp hrun
  have hread : (RespValue.array (get :: ofKey)).OnlyReads := fun cmd hcmd => by
    obtain rfl : Command.get = cmd := Option.some.inj hcmd
    exact ⟨by decide, by decide, by decide⟩
  exact ⟨s, x.2, hs, of_decide_eq_true hkeys,
    reads_leave_data hread (executeCommand_of_name asString_get) hx⟩

end Sample

end Server

end RedisDb

import RedisDb.Commands.RewriteCommands
import RedisDb.Server.Durability
import RedisDb.Storage.SnapshotDeadlines

/-!
# Loading a rewritten log

`rewriteAof` writes databases as commands, and `AofPersistence::loadFromFile` runs commands on databases that have been
emptied. What comes back of each live key, at a fixed clock reading, is its content and its deadline, in the database it
was in (`rewritten_log_reloads`). It is so whenever the log is loaded: no command looks at a key again once the key has
its deadline.

There is one exception. A list is written as an `RPUSH`, and `RPUSH` pushes its values twice, so each list comes back
with its elements twice over (`Content.reloaded`).
-/

namespace RedisDb

open RespSerializer RespParser

variable {S : Type}

/-! ### The log in commands -/

/-- What a content comes back as. -/
def Content.reloaded : Content S → Content S
  | .list xs => .list (xs ++ xs)
  | content => content

namespace Payload

variable [Double S]

/-- The command that makes a value. -/
def command (key : Bytes) : Payload S → List Bytes
  | .none => []
  | .string s => [str "SET", key, s]
  | .list xs => str "RPUSH" :: key :: xs
  | .hash pairs => str "HSET" :: key :: pairs.flatMap fun p => [p.1, p.2]
  | .set members => str "SADD" :: key :: members
  | .zset pairs => str "ZADD" :: key :: scoreWords pairs

/-- The texts of the scores can be read back. -/
def Exact : Payload S → Prop
  | .zset pairs => ∀ pair ∈ pairs, Double.stod (Double.toText pair.2) = .ok pair.2
  | _ => True

end Payload

namespace KeyRecord

variable [Double S] [Inhabited S]

omit [Double S] [Inhabited S] in
/-- A loop that counts with an `int`. -/
theorem filterMap_indices {α : Type} (f : ℤ → Option α) (n : ℕ) :
    ((List.range n >>= fun a => pure (a : ℤ)) : List ℤ).filterMap f = (List.range n).filterMap fun j : ℕ => f j := by
  calc ((List.range n >>= fun a => pure (a : ℤ)) : List ℤ).filterMap f
      = ((List.range n).map fun j : ℕ => (j : ℤ)).filterMap f := by rw [List.map_eq_flatMap]; rfl
    _ = (List.range n).filterMap fun j : ℕ => f j := List.filterMap_map

/-- What comes back of a record. -/
def entry [Platform] (record : KeyRecord S) : Bytes × Content S × Option ℤ :=
  (record.key, record.obj.value.content.reloaded, record.deadline)

/-- The record can be loaded: its elements are those of its content, its scores can be read back, and its deadline is a
positive `int64_t`. -/
structure Loadable [Platform] (record : KeyRecord S) : Prop where
  means : record.obj.value.payload.Means record.obj.value.content
  exact : record.obj.value.payload.Exact
  deadline : ∀ deadline, record.deadline = some deadline → 0 < deadline ∧ deadline < 2 ^ 63

/-- The commands for a key. -/
def commands (record : KeyRecord S) : List (List Bytes) :=
  record.obj.value.payload.command record.key :: match record.deadline with
    | none => []
    | some deadline => [[str "PEXPIREAT", record.key, toText (asUInt64 deadline)]]

theorem rewriteRecord_eq (out : Bytes) {record : KeyRecord S} (hvalue : record.obj.value ≠ .none) :
    Aof.rewriteRecord out record = out ++ commandLog record.commands := by
  have hobject : Aof.rewriteObject record.key record.obj
      = bulkStringArray (record.obj.value.payload.command record.key) := by
    unfold Aof.rewriteObject
    cases hv : record.obj.value with
    | none => exact absurd hv hvalue
    | list l =>
      -- the elements of a list are asked for one by one, by their indices
      simp only [Value.payload, Payload.command, List.cons_append, List.nil_append]
      rw [filterMap_indices]
    | string | hash | set | zset => rfl
  unfold Aof.rewriteRecord commands
  rw [hobject, List.append_assoc]
  cases record.deadline with
  | none => simp [commandLog]
  | some deadline => simp [commandLog]

/-- By induction on the records. -/
theorem foldl_rewriteRecord (records : List (KeyRecord S)) : ∀ out : Bytes,
    (∀ record ∈ records, record.obj.value ≠ .none) →
    records.foldl Aof.rewriteRecord out = out ++ commandLog (records.flatMap commands) := by
  induction records with
  | nil => exact fun out _ => (List.append_nil out).symm
  | cons record records ih =>
    intro out hvalues
    rw [List.foldl_cons, rewriteRecord_eq out (hvalues record List.mem_cons_self),
      ih _ fun r hr => hvalues r (List.mem_cons_of_mem _ hr), List.flatMap_cons, commandLog_append, List.append_assoc]

end KeyRecord

section Commands

variable [Double S] [Inhabited S]

/-- The commands for databases with their records, from index `i` on. -/
def recordCommands : ℕ → List (Database S × List (KeyRecord S)) → List (List Bytes)
  | _, [] => []
  | i, (db, records) :: rest =>
    (if db.size = 0 then [] else [str "SELECT", toText i] :: records.flatMap KeyRecord.commands) ++
      recordCommands (i + 1) rest

/-- **The rewritten log** is the log of these commands. By induction on the databases. -/
theorem rewriteRecords_eq (databases : List (Database S × List (KeyRecord S))) : ∀ (i : ℕ) (out : Bytes),
    (∀ x ∈ databases, ∀ record ∈ x.2, record.obj.value ≠ .none) →
    Aof.rewriteRecords i databases out = out ++ commandLog (recordCommands i databases) := by
  induction databases with
  | nil => exact fun _ out _ => (List.append_nil out).symm
  | cons x rest ih =>
    intro i out hvalues
    obtain ⟨db, records⟩ := x
    have hrest := fun y hy => hvalues y (List.mem_cons_of_mem _ hy)
    rw [Aof.rewriteRecords, recordCommands, ih _ _ hrest, commandLog_append, ← List.append_assoc]
    congr 1
    split
    · exact (List.append_nil out).symm
    · rw [KeyRecord.foldl_rewriteRecord _ _ (hvalues _ List.mem_cons_self), List.append_assoc]
      rfl

end Commands

/-! ### Running the commands -/

namespace Server

/-- A client works on database `i`, where nobody waits for a key and the clients that watch one are there. -/
structure WorksOn (c : ClientId) (i : ℕ) (s : Server S) : Prop where
  client : ∃ cl, s.clients.lookup c = some cl ∧ s.databaseIndex cl.selectedDb = i
  blockedClients : s.blockedClients = ∅
  watchersThere : s.WatchersThere

/-- The data of the databases. -/
def datasets [Platform] [Inhabited S] (s : Server S) : Boot.Datasets S := s.databases.map Database.dataset

section Steps

open EffectM

variable [Platform] {k : Option RespValue} {c : ClientId} {i : ℕ} {db : Database S} {s t : Server S}

omit [Platform] in
/-- A client that is changed is still there. -/
theorem WatchersThere.insert (hs : s.WatchersThere) (id : ClientId) (cl : Client) :
    ({ s with clients := s.clients.insert id cl } : Server S).WatchersThere := fun d hd key watchers hwatch i hi => by
  obtain ⟨cl', hcl'⟩ := hs d hd key watchers hwatch i hi
  show ∃ cl', (s.clients.insert id cl).lookup i = some cl'
  rw [UnorderedMap.lookup_insert_eq_ite]
  split
  · exact ⟨cl, rfl⟩
  · exact ⟨cl', hcl'⟩

/-- A reply changes the output of its client. -/
theorem WorksOn.ends_addReply {ε : Type} (hs : s.WorksOn c i) (data : Bytes) :
    (EffectM.addReply data : EffectM S k (some c) ε Unit).Ends s fun _ t =>
      t.WorksOn c i ∧ t.databases = s.databases := by
  obtain ⟨cl, hcl, hindex⟩ := hs.client
  refine (EffectM.ends_addReply data hcl).mono fun _ t ht => ?_
  subst ht
  exact ⟨⟨⟨_, AList.lookup_insert _, hindex⟩, hs.blockedClients, hs.watchersThere.insert c _⟩, rfl⟩

/-- A program on the selected database changes that database. -/
theorem WorksOn.ends_onDatabase {α : Type} {p : DbM S α} {Q : α → DbState S → Prop} (hs : s.WorksOn c i)
    (hdb : s.databases[i]? = some db) (hp : p.Ends (s.dbState db) Q) :
    (onDatabase p : EffectM S k (some c) Exn α).Ends s fun a t => ∃ ds, Q a ds ∧ t.WorksOn c i ∧
      t.databases = s.databases.set i ds.db := by
  obtain ⟨cl, hcl, rfl⟩ := hs.client
  refine (EffectM.ends_onDatabase hs.watchersThere hcl hdb hp).mono fun a t h => ?_
  obtain ⟨ds, -, hq, hafter⟩ := h
  obtain ⟨flags, hflags⟩ := hafter.clients c cl hcl
  have hwatch := hafter.watchersThere
  obtain ⟨clients, rfl⟩ := hafter.eq
  refine ⟨ds, hq, ⟨⟨_, hflags, ?_⟩, hs.blockedClients, hwatch⟩, rfl⟩
  unfold databaseIndex
  rw [List.length_set]

/-- **A handler that works on the database and replies.** -/
theorem WorksOn.ends_databaseCommand {f : DatabaseCommand S} {args : List RespValue} {Q : Bytes → DbState S → Prop}
    (hs : s.WorksOn c i) (hdb : s.databases[i]? = some db) (hf : (f args).Ends (s.dbState db) Q) :
    (databaseCommand f c args).Ends s fun _ t => ∃ data ds, Q data ds ∧ t.WorksOn c i ∧
      t.databases = s.databases.set i ds.db := by
  refine (hs.ends_onDatabase hdb hf).bind fun data t h => ?_
  obtain ⟨ds, hq, ht, hset⟩ := h
  refine (ht.ends_addReply data).mono fun _ u hu => ⟨data, ds, hq, hu.1, hu.2.trans hset⟩

/-- The handler of `SET`. -/
theorem WorksOn.ends_setHandler {args : List RespValue} {Q : Bytes × Bool → DbState S → Prop}
    (hs : s.WorksOn c i) (hdb : s.databases[i]? = some db) (hf : (setCommand args).Ends (s.dbState db) Q) :
    (setHandler c args).Ends s fun _ t => ∃ r ds, Q r ds ∧ t.WorksOn c i ∧ t.databases = s.databases.set i ds.db := by
  refine (hs.ends_onDatabase hdb hf).bind fun r t h => ?_
  obtain ⟨ds, hq, ht, hset⟩ := h
  obtain ⟨reply, counts⟩ := r
  cases counts with
  | false => exact (ht.ends_addReply reply).mono fun _ u hu => ⟨_, ds, hq, hu.1, hu.2.trans hset⟩
  | true =>
    -- the handler counts the command itself, which none of the data depends on
    obtain ⟨u, hu⟩ : ∃ u : Server S, u = { t with totalCommandsProcessed := t.totalCommandsProcessed + 1 } := ⟨_, rfl⟩
    have hcounted : u.WorksOn c i ∧ u.databases = t.databases := by
      rw [hu]
      exact ⟨⟨ht.client, ht.blockedClients, ht.watchersThere⟩, rfl⟩
    refine Program.ends_bind_of_run (t := u) (by rw [hu]; rfl) ?_
    exact (hcounted.1.ends_addReply reply).mono fun _ v hv => ⟨_, ds, hq, hv.1, hv.2.trans (hcounted.2.trans hset)⟩

section Zadd

variable [Double S] [Inhabited S] [LinearOrder S]

/-- The handler of `ZADD`, whatever heights it draws. -/
theorem WorksOn.ends_zaddHandler {args : List RespValue} {Q : DbState S → Prop} (hs : s.WorksOn c i)
    (hdb : s.databases[i]? = some db) (hf : ∀ rng (ds : DbState S), ds.db = db →
      (zaddCommand rng args : DbM S Bytes).Ends ds fun _ u => Q u) :
    (zaddHandler c args).Ends s fun _ t => ∃ ds, Q ds ∧ t.WorksOn c i ∧ t.databases = s.databases.set i ds.db := by
  obtain ⟨u, hu⟩ : ∃ u : Server S, u = (s.note (s.zaddEvent c args)).freshRng.2 := ⟨_, rfl⟩
  have hdrawn : u.WorksOn c i ∧ u.databases = s.databases := by
    rw [hu]
    exact ⟨⟨hs.client, hs.blockedClients, hs.watchersThere⟩, rfl⟩
  refine Program.ends_bind_of_run rfl (Program.ends_bind_of_run (t := u) (by rw [hu]; rfl) ?_)
  refine (hdrawn.1.ends_onDatabase (hdrawn.2 ▸ hdb) (hf _ (u.dbState db) rfl)).bind fun data t h => ?_
  obtain ⟨ds, hq, ht, hset⟩ := h
  exact (ht.ends_addReply data).mono fun _ v hv => ⟨ds, hq, hv.1, hv.2.trans (hset.trans (by rw [hdrawn.2]))⟩

end Zadd

section Reload

variable [Double S] [Inhabited S] [LinearOrder S] {depth : ℕ} {key : Bytes} {args : List RespValue}
  {values xs : List Bytes}

/-- **One call of `pushGeneric`** by `RPUSH`, where nobody is to be woken. -/
theorem WorksOn.ends_pushGeneric (hs : s.WorksOn c i) (hdb : s.databases[i]? = some db)
    (hlist : db.HasList (s.env.clock 0) key xs)
    (hfresh : db.data.lookup key = none ∨ db.expires.lookup key = none) (hkey : ArgString args 1 key)
    (hwords : (args.drop 2).mapM RespValue.asString = .ok values) :
    (pushGeneric ((callbacks (depth + 1)).wake c) args false).Ends s fun _ t => ∃ db', t.WorksOn c i ∧
      t.databases = s.databases.set i db' ∧
      db'.dataset = Function.update db.dataset key (some (.list (xs ++ values), none)) ∧
      db'.expires.lookup key = none ∧ ∀ now, db'.HasList now key (xs ++ values) := by
  have hnoted : (s.note (s.pushEvent c args)).WorksOn c i := ⟨hs.client, hs.blockedClients, hs.watchersThere⟩
  refine Program.ends_bind_of_run (t := s.note (s.pushEvent c args)) rfl ?_
  refine (hnoted.ends_onDatabase hdb (ends_pushRight hlist hfresh hkey hwords)).bind fun r t h => ?_
  obtain ⟨ds, ⟨hpushed, hdata⟩, ht, hset⟩ := h
  obtain ⟨reply, pushed⟩ := r
  refine (ht.ends_addReply reply).bind fun _ u hu => ?_
  have hresult : ∃ db', u.WorksOn c i ∧ u.databases = s.databases.set i db' ∧
      db'.dataset = Function.update db.dataset key (some (.list (xs ++ values), none)) ∧
      db'.expires.lookup key = none ∧ ∀ now, db'.HasList now key (xs ++ values) :=
    ⟨ds.db, hu.1, hu.2.trans hset, hdata⟩
  rcases hpushed with rfl | rfl
  · exact Program.ends_pure hresult
  · -- a client that is waiting would be woken, but there is none
    have hfree : u.blockedClients.valuesAt key = [] := by
      rw [hu.1.blockedClients]
      rfl
    exact ⟨(), u, wake_run hfree, hresult⟩

/-- **`RPUSH`** pushes its values twice. -/
theorem WorksOn.ends_rpushCommand (hs : s.WorksOn c i) (hdb : s.databases[i]? = some db)
    (habsent : db.data.lookup key = none) (hkey : ArgString args 1 key)
    (hwords : (args.drop 2).mapM RespValue.asString = .ok values) :
    (Command.rpush.handler (callbacks (depth + 1)) c args).Ends s fun _ t => ∃ db', t.WorksOn c i ∧
      t.databases = s.databases.set i db' ∧
      db'.dataset = Function.update db.dataset key (some (.list (values ++ values), none)) := by
  have hnothing : db.HasList (s.env.clock 0) key [] := .inl ⟨Database.valueAt_of_absent habsent, rfl⟩
  refine (hs.ends_pushGeneric hdb hnothing (.inl habsent) hkey hwords).bind fun _ t h => ?_
  obtain ⟨db₁, ht, hset, hdata, hforever, hlist⟩ := h
  -- the second call finds the list that the first has left
  have hdb₁ : t.databases[i]? = some db₁ := by
    rw [hset, List.getElem?_set_self (List.getElem?_eq_some_iff.mp hdb).1]
  refine (ht.ends_pushGeneric hdb₁ (hlist _) (.inr hforever) hkey hwords).mono fun _ u h => ?_
  obtain ⟨db₂, hu, hset', hdata', -, -⟩ := h
  refine ⟨db₂, hu, ?_, ?_⟩
  · rw [hset', hset, List.set_set]
  · rw [hdata', hdata, Function.update_idem, List.nil_append]

/-! ### The commands for a key -/

/-- The commands can be replayed for a client that works on database `i`, and leave these data. -/
def Reloads (depth : ℕ) (c : ClientId) (i : ℕ) (commands : List (List Bytes)) (s : Server S) (D : Boot.Datasets S) :
    Prop :=
  ∃ t, replay depth c (commands.map commandValue) s = some t ∧ t.WorksOn c i ∧ t.datasets = D

namespace Reloads

variable {commands : List (List Bytes)} {j : ℕ} {D D' : Boot.Datasets S}

theorem nil (hs : s.WorksOn c i) : Reloads depth c i [] s s.datasets := ⟨s, rfl, hs, rfl⟩

/-- The commands that come after others. -/
theorem after {commands' : List (List Bytes)} (hrun : replay depth c (commands.map commandValue) s = some t)
    (h : Reloads depth c j commands' t D) : Reloads depth c j (commands ++ commands') s D := by
  obtain ⟨u, hrun', hu⟩ := h
  refine ⟨u, ?_, hu⟩
  rw [List.map_append, replay_append, hrun, Option.bind_some, hrun']

theorem append (commands' : List (List Bytes)) (h : Reloads depth c i commands s D)
    (h' : ∀ t : Server S, t.WorksOn c i → t.datasets = D → Reloads depth c j commands' t D') :
    Reloads depth c j (commands ++ commands') s D' := by
  obtain ⟨t, hrun, ht, hD⟩ := h
  exact .after hrun (h' t ht hD)

/-- A command whose handler ends. -/
theorem of_ends (cmd : Command) {name : Bytes} {words : List Bytes} (hcmd : Command.lookup name = some cmd)
    (h : (cmd.handler (callbacks depth) c ((name :: words).map .bulkString)).Ends s fun _ t =>
      t.WorksOn c i ∧ t.datasets = D) : Reloads depth c i [name :: words] s D := by
  obtain ⟨_, t, hrun, ht⟩ := h
  refine ⟨t, ?_, ht⟩
  have hcommand : replayCommand depth c (commandValue (name :: words)) s = some t := by
    rw [List.map_cons] at hrun
    simp only [replayCommand, commandValue, List.map_cons, RespValue.asString, hcmd, hrun]
    rfl
  show (replayCommand depth c (commandValue (name :: words)) s).bind (replay depth c []) = some t
  rw [hcommand]
  rfl

end Reloads

omit [Double S] [LinearOrder S] in
/-- The data where one database has been changed. -/
theorem datasets_set {db' : Database S} {data : Bytes → Option (Content S × Option ℤ)}
    (hset : t.databases = s.databases.set i db') (hdata : db'.dataset = data) : t.datasets = s.datasets.set i data := by
  rw [datasets, hset, List.map_set, hdata]
  rfl

omit [Double S] [LinearOrder S] in
/-- The data at an index are those of the database there. -/
theorem exists_database {data : Bytes → Option (Content S × Option ℤ)} (h : s.datasets[i]? = some data) :
    ∃ db, s.databases[i]? = some db ∧ db.dataset = data :=
  Option.map_eq_some_iff.mp ((List.getElem?_map ..).symm.trans h)

omit [Double S] [LinearOrder S] in
/-- The data where those at the index have been set. -/
theorem getElem?_of_set {data data' : Bytes → Option (Content S × Option ℤ)} (h : s.datasets[i]? = some data)
    (hset : t.datasets = s.datasets.set i data') : t.datasets[i]? = some data' := by
  rw [hset, List.getElem?_set_self (List.getElem?_eq_some_iff.mp h).1]

/-- **The command of a value makes the value**, where the key is not there yet. There is one command for each kind of
value: `SET`, `RPUSH`, `HSET`, `SADD` and `ZADD`, on a key that is absent. -/
theorem reloads_value (depth : ℕ) (hs : s.WorksOn c i) (hdb : s.databases[i]? = some db)
    (habsent : db.data.lookup key = none) {p : Payload S} {content : Content S} (hmeans : p.Means content)
    (hexact : p.Exact) : Reloads (depth + 1) c i [p.command key] s
      (s.datasets.set i (Function.update db.dataset key (some (content.reloaded, none)))) := by
  have hkey (name : Bytes) (words : List Bytes) :
      ArgString ((name :: key :: words).map .bulkString) 1 key := ⟨_, rfl, rfl⟩
  have hwords (name : Bytes) (words : List Bytes) :
      (((name :: key :: words).map .bulkString).drop 2).mapM RespValue.asString = .ok words :=
    RespValue.mapM_bulkString words
  -- one command for each kind of value; a payload of one kind does not mean a content of another
  cases p with
  | none => cases content <;> exact hmeans.elim
  | string text =>
    -- SET of the text
    cases content with
    | string text' =>
      obtain rfl : text = text' := hmeans
      refine .of_ends .set rfl ((hs.ends_setHandler hdb (ends_setNew (hkey _ _) ⟨_, rfl, rfl⟩ rfl)).mono ?_)
      rintro _ t ⟨_, ds, hdata, ht, hset⟩
      exact ⟨ht, datasets_set hset hdata⟩
    | none | list | hash | set | zset => exact hmeans.elim
  | list values =>
    -- RPUSH of all values, on a key that is absent: the list is these values
    cases content with
    | list values' =>
      obtain rfl : values = values' := hmeans
      refine .of_ends .rpush rfl ((hs.ends_rpushCommand hdb habsent (hkey _ _) (hwords _ _)).mono ?_)
      rintro _ t ⟨db', ht, hset, hdata⟩
      exact ⟨ht, datasets_set hset hdata⟩
    | none | string | hash | set | zset => exact hmeans.elim
  | hash pairs =>
    -- HSET of all pairs
    cases content with
    | hash m =>
      -- the handler counts the words with the name and the key
      have heven : ((str "HSET" :: key :: pairs.flatMap fun p => [p.1, p.2]).map
          RespValue.bulkString).length % 2 = 0 := by
        simp [List.length_flatMap]
        omega
      refine .of_ends .hset rfl ((hs.ends_databaseCommand hdb
        (ends_hsetNew habsent (hkey _ _) heven (hwords _ _) hmeans)).mono ?_)
      rintro _ t ⟨_, ds, hdata, ht, hset⟩
      exact ⟨ht, datasets_set hset hdata⟩
    | none | string | list | set | zset => exact hmeans.elim
  | set members =>
    -- SADD of all members
    cases content with
    | set m =>
      refine .of_ends .sadd rfl ((hs.ends_databaseCommand hdb
        (ends_saddNew habsent (hkey _ _) (hwords _ _) hmeans)).mono ?_)
      rintro _ t ⟨_, ds, hdata, ht, hset⟩
      exact ⟨ht, datasets_set hset hdata⟩
    | none | string | list | hash | zset => exact hmeans.elim
  | zset pairs =>
    -- ZADD of all pairs, the score written as a decimal and read back
    cases content with
    | zset m =>
      have heven : ((str "ZADD" :: key :: scoreWords pairs).map RespValue.bulkString).length % 2 = 0 := by
        simp [scoreWords, List.length_flatMap]
        omega
      have hadds : (zaddHandler c ((str "ZADD" :: key :: scoreWords pairs).map .bulkString)).Ends s fun _ t =>
          ∃ ds : DbState S, ds.db.dataset = Function.update db.dataset key (some (Content.zset m, none)) ∧
            t.WorksOn c i ∧ t.databases = s.databases.set i ds.db :=
        -- whatever heights the generator gives, the scores are the same
        hs.ends_zaddHandler hdb fun rng ds hds => by
          rw [← hds] at habsent ⊢
          exact ends_zaddNew habsent (hkey _ _) heven rfl hexact hmeans
      refine .of_ends .zadd rfl (hadds.mono ?_)
      rintro _ t ⟨ds, hdata, ht, hset⟩
      exact ⟨ht, datasets_set hset hdata⟩
    | none | string | list | hash | set => exact hmeans.elim

/-- **`PEXPIREAT`** gives the key its deadline. -/
theorem reloads_deadline (depth : ℕ) (hs : s.WorksOn c i) (hdb : s.databases[i]? = some db) {content : Content S}
    (hthere : db.dataset key = some (content, none)) {deadline : ℤ} (hrange : InRange 64 deadline) :
    Reloads depth c i [[str "PEXPIREAT", key, toText deadline]] s
      (s.datasets.set i (Function.update db.dataset key (some (content, some deadline)))) := by
  have hnumber : ArgNumber ([str "PEXPIREAT", key, toText deadline].map .bulkString) 2 deadline := by
    refine ⟨.bulkString (toText deadline), rfl, ?_⟩
    have hread := (spells_toText hrange).stoll
    simp only [converted, RespValue.asString, hread]
  refine .of_ends .pexpireat rfl ((hs.ends_databaseCommand hdb
    (ends_pexpireat ⟨_, rfl, rfl⟩ hnumber hthere)).mono ?_)
  rintro _ t ⟨_, ds, hdata, ht, hset⟩
  exact ⟨ht, datasets_set hset hdata⟩

/-- **`SELECT`** of a database that is there. -/
theorem reloads_select (depth : ℕ) {j : ℕ} (hs : s.WorksOn c j) (hi : i < s.databases.length)
    (hfew : s.databases.length < 2 ^ 31) : Reloads depth c i [[str "SELECT", toText i]] s s.datasets := by
  obtain ⟨cl, hcl, -⟩ := hs.client
  have hrange : InRange 64 i := .natCast_of_lt (by omega)
  have hnumber : ArgNumber ([str "SELECT", toText i].map .bulkString) 1 i := by
    refine ⟨.bulkString (toText i), rfl, ?_⟩
    have hread := (spells_toText hrange).stoll
    simp only [converted, RespValue.asString, hread]
  have hcount : asInt s.databases.length = s.databases.length := asInt_of_lt hfew
  -- the number is that of a database, so it is not refused
  have hinside : ¬((i : ℤ) < 0 ∨ asInt s.databases.length ≤ i) := by
    rw [hcount]
    omega
  obtain ⟨t, ht⟩ : ∃ t : Server S, t = { s with clients := s.clients.insert c { cl with selectedDb := i } } := ⟨_, rfl⟩
  have hselected : t.WorksOn c i := by
    rw [ht]
    refine ⟨⟨_, AList.lookup_insert _, ?_⟩, hs.blockedClients, hs.watchersThere.insert c _⟩
    unfold databaseIndex
    rw [if_neg hinside, Int.toNat_natCast]
  refine .of_ends .select rfl (Program.ends_bind_of_run (argConverted_run hnumber s)
    (Program.ends_bind_of_run rfl ?_))
  dsimp only
  rw [if_neg hinside]
  refine Program.ends_bind_of_run (t := t) (a := ()) ?_ ((hselected.ends_addReply ok).mono fun _ u hu => ⟨hu.1, ?_⟩)
  · rw [EffectM.modifyClient, run_call, updateClient, hcl, ht]
    rfl
  · rw [datasets, hu.2, ht]
    rfl

/-- **The commands of a record** bring back its content and its deadline. The command of the value comes first, then
the one of the deadline, if there is one. -/
theorem reloads_record {record : KeyRecord S} {data : Bytes → Option (Content S × Option ℤ)} (hs : s.WorksOn c i)
    (hdata : s.datasets[i]? = some data) (habsent : data record.key = none) (hrecord : record.Loadable) :
    Reloads (depth + 1) c i record.commands s
      (s.datasets.set i (Function.update data record.key (some record.entry.2))) := by
  obtain ⟨db, hdb, rfl⟩ := exists_database hdata
  have hnone : db.data.lookup record.key = none := Option.map_eq_none_iff.mp habsent
  have hvalue := reloads_value depth hs hdb hnone hrecord.means hrecord.exact
  unfold KeyRecord.commands KeyRecord.entry
  cases hd : record.deadline with
  | none => exact hvalue
  | some deadline =>
    obtain ⟨hpos, hlt⟩ := hrecord.deadline deadline hd
    have hcast : ((asUInt64 deadline : ℕ) : ℤ) = deadline := by
      rw [asUInt64]
      omega
    refine hvalue.append [[str "PEXPIREAT", record.key, toText (asUInt64 deadline)]] fun t ht hD => ?_
    -- the database with the value, which gets the deadline
    obtain ⟨db', hdb', heq⟩ := exists_database (getElem?_of_set hdata hD)
    have hcontent : db'.dataset record.key = some (record.obj.value.content.reloaded, none) := by
      rw [heq, Function.update_self]
    have hrange : InRange 64 deadline := ⟨by omega, hlt⟩
    have hset := reloads_deadline (depth + 1) ht hdb' hcontent hrange
    rw [heq, hD, List.set_set, Function.update_idem] at hset
    rw [hcast]
    exact hset

/-- By induction on the records: each is of a key that is not there yet. -/
theorem reloads_records (records : List (KeyRecord S)) : ∀ {s : Server S}
    {data : Bytes → Option (Content S × Option ℤ)}, s.WorksOn c i → s.datasets[i]? = some data →
    (records.map KeyRecord.key).Nodup → (∀ record ∈ records, data record.key = none) →
    (∀ record ∈ records, record.Loadable) → Reloads (depth + 1) c i (records.flatMap KeyRecord.commands) s
      (s.datasets.set i (assigned data (records.map KeyRecord.entry))) := by
  induction records with
  | nil =>
    intro s data hs hdata _ _ _
    have hsame : s.datasets.set i data = s.datasets := set_of_getElem?_eq_some hdata
    show Reloads (depth + 1) c i [] s (s.datasets.set i data)
    rw [hsame]
    exact .nil hs
  | cons record records ih =>
    intro s data hs hdata hnodup habsent hloadable
    rw [List.map_cons, List.nodup_cons] at hnodup
    refine (reloads_record hs hdata (habsent _ List.mem_cons_self) (hloadable _ List.mem_cons_self)).append
      (records.flatMap KeyRecord.commands) fun t ht hD => ?_
    have hrest := ih ht (getElem?_of_set hdata hD) hnodup.2 (fun r hr => ?_) fun r hr =>
      hloadable r (List.mem_cons_of_mem _ hr)
    · rw [hD, List.set_set] at hrest
      exact hrest
    · -- the keys are different, so the record before has not touched this one
      have hne : r.key ≠ record.key := fun heq => hnodup.1 (heq ▸ List.mem_map_of_mem hr)
      rw [Function.update_of_ne hne]
      exact habsent r (List.mem_cons_of_mem _ hr)

/-- **The commands of the databases** bring back their records, each in its database. By induction on the databases. -/
theorem reloads_databases (depth : ℕ) (databases : List (Database S × List (KeyRecord S))) : ∀ {s : Server S} {j : ℕ}
    {before : Boot.Datasets S}, s.WorksOn c j →
    s.datasets = before ++ List.replicate databases.length (fun _ => none) → s.databases.length < 2 ^ 31 →
    (∀ x ∈ databases, (x.1.size = 0 → x.2 = []) ∧ (x.2.map KeyRecord.key).Nodup ∧ ∀ record ∈ x.2, record.Loadable) →
    ∃ j', Reloads (depth + 1) c j' (recordCommands before.length databases) s
      (before ++ databases.map fun x => assigned (fun _ => none) (x.2.map KeyRecord.entry)) := by
  induction databases with
  | nil =>
    intro s j before hs hD _ _
    exact ⟨j, s, rfl, hs, hD⟩
  | cons x rest ih =>
    intro s j before hs hD hfew hall
    obtain ⟨db, records⟩ := x
    obtain ⟨hempty, hnodup, hloadable⟩ := hall _ List.mem_cons_self
    -- the databases that follow, once this one has what comes back of it
    have hnext {t : Server S} {k : ℕ} (ht : t.WorksOn c k) (hD' : t.datasets = s.datasets.set before.length
        (assigned (fun _ => none) (records.map KeyRecord.entry))) : ∃ j', Reloads (depth + 1) c j'
          (recordCommands (before.length + 1) rest) t (before ++ ((db, records) :: rest).map fun x =>
            assigned (fun _ => none) (x.2.map KeyRecord.entry)) := by
      have hlength : t.databases.length = s.databases.length := by
        have h := congrArg List.length hD'
        rwa [List.length_set, datasets, datasets, List.length_map, List.length_map] at h
      have hsplit : t.datasets = (before ++ [assigned (fun _ => none) (records.map KeyRecord.entry)]) ++
          List.replicate rest.length fun _ => none := by
        rw [hD', hD, List.length_cons, List.replicate_succ, List.set_append_right _ _ le_rfl, Nat.sub_self,
          List.set_cons_zero, List.append_assoc]
        rfl
      -- the induction hypothesis for the databases behind this one, with one more loaded before them
      obtain ⟨j', hrest⟩ := ih ht hsplit (hlength ▸ hfew) fun y hy => hall y (List.mem_cons_of_mem _ hy)
      rw [List.length_append, List.length_singleton, List.append_assoc] at hrest
      exact ⟨j', hrest⟩
    -- this database is still empty: only those before it have been loaded
    have hhere : s.datasets[before.length]? = some fun _ => none := by
      rw [hD, List.getElem?_append_right le_rfl, Nat.sub_self]
      rfl
    rw [recordCommands]
    by_cases hsize : db.size = 0
    · -- nothing is written for a database without keys
      obtain rfl := hempty hsize
      rw [if_pos hsize, List.nil_append]
      exact hnext hs (set_of_getElem?_eq_some hhere).symm
    · have hinside : before.length < s.databases.length := by
        have hlt := (List.getElem?_eq_some_iff.mp hhere).1
        rwa [datasets, List.length_map] at hlt
      -- SELECT of the index, then the commands of the records
      have hdatabase : Reloads (depth + 1) c before.length
          ([[str "SELECT", toText before.length]] ++ records.flatMap KeyRecord.commands) s
          (s.datasets.set before.length (assigned (fun _ => none) (records.map KeyRecord.entry))) := by
        refine (reloads_select (depth + 1) hs hinside hfew).append _ fun t ht hsame => ?_
        rw [← hsame] at hhere ⊢
        exact reloads_records records ht hhere hnodup (fun _ _ => rfl) hloadable
      obtain ⟨t, hrun, ht, hdata⟩ := hdatabase
      obtain ⟨j', hrest⟩ := hnext ht hdata
      rw [if_neg hsize]
      exact ⟨j', .after hrun hrest⟩

end Reload

end Steps

end Server

/-! ### The records of a database -/

/-- The record is that of a key of the database. -/
def KeyRecord.Of (db : Database S) (record : KeyRecord S) : Prop :=
  ∃ obj, db.data.lookup record.key = some obj ∧ record.obj.value = obj.value ∧
    record.deadline = db.expires.lookup record.key

/-- The records are those of the keys of the database that have not expired. -/
structure Database.Recorded (now : ℤ) (db : Database S) (records : List (KeyRecord S)) : Prop where
  keys : records.map KeyRecord.key = Rdb.liveKeys now db
  each : ∀ record ∈ records, record.Of db
  empty : db.size = 0 → records = []

section Reading

open Rdb (SameView liveKeys mem_liveKeys)

variable {now : ℤ} {db : Database S} {s : DbState S}

theorem KeyRecord.Of.of_view {db' : Database S} {record : KeyRecord S} (h : record.Of db') (hview : SameView db' db) :
    record.Of db := by
  obtain ⟨obj', hobj', hvalue, hdeadline⟩ := h
  have hkey := hview.values record.key
  rw [hobj'] at hkey
  obtain ⟨obj, hobj, heq⟩ := Option.map_eq_some_iff.mp hkey.symm
  exact ⟨obj, hobj, hvalue.trans heq.symm, hdeadline.trans (by rw [hview.expires])⟩

variable [Platform]

/-- A visit to a key that has not expired. -/
theorem DbState.Fixed.readKey (hfixed : s.Fixed now) {key : Bytes} (hlive : ¬s.db.Expired now key)
    {obj : RedisObject S} (hobj : s.db.data.lookup key = some obj)
    (hdistance : ∀ deadline, s.db.expires.lookup key = some deadline → deadline - now < 2 ^ 63) :
    ∃ record t, s.readKey key = (some record, t) ∧ record.key = key ∧ record.Of s.db ∧ t.Fixed now ∧
      SameView t.db s.db := by
  -- reading the key makes a copy of its object and sets the clock of the one that stays
  obtain ⟨obj', hobj'⟩ : ∃ obj' : RedisObject S, obj' = { value := obj.value, lruClock := s.memory.lruClock } :=
    ⟨_, rfl⟩
  obtain ⟨t, ht⟩ : ∃ t : DbState S, t = { s with db := { s.db with
    hits := s.db.hits + 1, data := s.db.data.insert key obj' } } := ⟨_, rfl⟩
  have hget : s.getObject key = (some obj', t) := by
    rw [hfixed.getObject hlive hobj, ht, hobj']
  have hfixed' : t.Fixed now := by
    rw [ht]
    exact hfixed
  have hlookup : t.db.data.lookup key = some obj' := by
    rw [ht]
    exact AList.lookup_insert _
  have hexpires : t.db.expires = s.db.expires := by rw [ht]
  -- what the databases show has not changed
  have hview : SameView t.db s.db := by
    refine ⟨fun k => ?_, hexpires⟩
    rw [ht]
    simp only [UnorderedMap.lookup_insert_eq_ite]
    split
    · next hk => rw [hk, hobj, hobj']; rfl
    · rfl
  -- the record holds the deadline as it was: the two subtractions of the clock cancel
  refine ⟨{ key := key, obj := obj', deadline := s.db.expires.lookup key }, t, ?_, rfl,
    ⟨obj, hobj, by rw [hobj'], rfl⟩, hfixed', hview⟩
  simp only [DbState.readKey, hget, hfixed'.pttl hlookup, hexpires]
  cases hk : s.db.expires.lookup key with
  | none => rfl
  | some deadline =>
    -- the key is live, so the deadline is ahead by a distance that the type can hold
    have hpos : now < deadline := by
      by_contra hle
      exact hlive ⟨deadline, hk, not_lt.mp hle⟩
    have hd : asInt64 (deadline - now) = deadline - now :=
      asInt64_of_inRange ⟨by have := hpos; omega, hdistance deadline hk⟩
    simp only [hd, if_neg (show ¬deadline - now ≤ 0 by omega), if_pos (show 0 ≤ deadline - now by omega),
      hfixed'.now_eq, show now + (deadline - now) = deadline by omega]

/-- Visits to keys that have not expired. By induction on the keys: a visit leaves the view of the others. -/
theorem DbState.Fixed.readKeys (keys : List Bytes) : ∀ {s : DbState S}, s.Fixed now →
    (∀ key ∈ keys, ¬s.db.Expired now key ∧ (∃ obj, s.db.data.lookup key = some obj) ∧
      ∀ deadline, s.db.expires.lookup key = some deadline → deadline - now < 2 ^ 63) →
    (s.readKeys keys).1.map KeyRecord.key = keys ∧ (∀ record ∈ (s.readKeys keys).1, record.Of s.db) ∧
      (s.readKeys keys).2.Fixed now := by
  induction keys with
  | nil => exact fun hfixed _ => ⟨rfl, fun _ h => absurd h List.not_mem_nil, hfixed⟩
  | cons key rest ih =>
    intro s hfixed hkeys
    obtain ⟨hlive, ⟨obj, hobj⟩, hdistance⟩ := hkeys key List.mem_cons_self
    obtain ⟨record, t, hread, hkey, hof, hfixed', hview⟩ := hfixed.readKey hlive hobj hdistance
    -- what is asked of the other keys is asked of the view, which the visit has not changed
    obtain ⟨hrest, hofs, hend⟩ := ih hfixed' fun k hk => by
      obtain ⟨hlive, ⟨obj, hobj⟩, hdistance⟩ := hkeys k (List.mem_cons_of_mem _ hk)
      refine ⟨?_, ?_, ?_⟩
      · rwa [Database.Expired, hview.expires]
      · have hvalues := hview.values k
        rw [hobj] at hvalues
        obtain ⟨obj', hobj', -⟩ := Option.map_eq_some_iff.mp hvalues
        exact ⟨obj', hobj'⟩
      · rwa [hview.expires]
    -- the first record and those of the rest
    have hsplit : s.readKeys (key :: rest) = (record :: (t.readKeys rest).1, (t.readKeys rest).2) := by
      rw [DbState.readKeys, hread]
      rfl
    rw [hsplit]
    refine ⟨?_, fun r hr => ?_, hend⟩
    · rw [List.map_cons, hkey, hrest]
    · rcases List.mem_cons.mp hr with rfl | hr
      · exact hof
      · exact (hofs r hr).of_view hview

/-- **The visits to a database**, at a fixed clock reading, record what has not expired. -/
theorem DbState.Fixed.readDatabase (hfixed : s.Fixed now)
    (hdistance : ∀ key ∈ liveKeys now s.db, ∀ deadline, s.db.expires.lookup key = some deadline →
      deadline - now < 2 ^ 63) : s.db.Recorded now s.readDatabase.1 ∧ s.readDatabase.2.Fixed now := by
  unfold DbState.readDatabase
  by_cases hsize : s.db.size = 0
  · rw [if_pos hsize]
    have hnone : liveKeys now s.db = [] := List.eq_nil_iff_forall_not_mem.mpr fun key hkey => by
      obtain ⟨⟨obj, hobj⟩, -⟩ := mem_liveKeys.mp hkey
      exact UnorderedMap.size_ne_zero hobj hsize
    exact ⟨⟨hnone.symm, fun _ h => absurd h List.not_mem_nil, fun _ => rfl⟩, hfixed⟩
  · rw [if_neg hsize, hfixed.keys]
    obtain ⟨hkeys, hof, hend⟩ := DbState.Fixed.readKeys (liveKeys now s.db) hfixed fun key hkey => by
      obtain ⟨hobj, hlive⟩ := mem_liveKeys.mp hkey
      exact ⟨hlive, hobj, hdistance key hkey⟩
    exact ⟨⟨hkeys, hof, fun h => absurd h hsize⟩, hend⟩

/-- By induction on the databases. -/
theorem readDatabases_recorded (databases : List (Database S)) : ∀ {env : Env}, env.clock = (fun _ => now) →
    (∀ db ∈ databases, ∀ key ∈ liveKeys now db, ∀ deadline, db.expires.lookup key = some deadline →
      deadline - now < 2 ^ 63) →
    List.Forall₂ (Database.Recorded now) databases (readDatabases databases env).1 := by
  induction databases with
  | nil => exact fun _ _ => .nil
  | cons db rest ih =>
    intro env hclock hdistance
    have hfixed : ({ env with db := db } : DbState S).Fixed now := hclock
    obtain ⟨hrecorded, hend⟩ := hfixed.readDatabase (hdistance db List.mem_cons_self)
    exact .cons hrecorded (ih hend fun d hd => hdistance d (List.mem_cons_of_mem _ hd))

variable [Inhabited S]

/-- **What comes back of the records** is what had not expired. A key has at most one record, so the order of the
records does not matter. -/
theorem Database.Recorded.assigned_eq {records : List (KeyRecord S)} (h : db.Recorded now records) :
    assigned (fun _ => none) (records.map KeyRecord.entry)
      = fun key => (db.live now key).map fun entry => (entry.1.reloaded, entry.2) := by
  -- the entry of a record is the one the key shows
  have hlive {record : KeyRecord S} (hrecord : record ∈ records) : db.live now record.key
      = some (record.obj.value.content, record.deadline) := by
    obtain ⟨obj, hobj, hvalue, hdeadline⟩ := h.each record hrecord
    have hkey : record.key ∈ liveKeys now db := h.keys ▸ List.mem_map_of_mem hrecord
    rw [Database.live, if_neg (mem_liveKeys.mp hkey).2, Database.dataset, hobj, hvalue, hdeadline, Option.map_some]
  refine RedisDb.assigned_eq ?_ fun key entry => ⟨fun hmem => ?_, fun hentry => ?_⟩
  · -- the keys of the records are those that are live, each once
    rw [List.map_map]
    have hnodup : (liveKeys now db).Nodup := db.data.nodupKeys.filter _
    exact h.keys ▸ hnodup
  · obtain ⟨record, hrecord, heq⟩ := List.mem_map.mp hmem
    obtain ⟨rfl, rfl⟩ := Prod.mk.inj heq
    rw [hlive hrecord]
    rfl
  · -- what is shown has not expired, so there is a record of it
    obtain ⟨⟨content, deadline⟩, hshown, rfl⟩ := Option.map_eq_some_iff.mp hentry
    have hkey : key ∈ liveKeys now db := by
      by_cases hexpired : db.Expired now key
      · rw [Database.live, if_pos hexpired] at hshown
        cases hshown
      · rw [Database.live, if_neg hexpired] at hshown
        obtain ⟨obj, hobj, -⟩ := Option.map_eq_some_iff.mp hshown
        exact mem_liveKeys.mpr ⟨⟨obj, hobj⟩, hexpired⟩
    rw [← h.keys] at hkey
    obtain ⟨record, hrecord, rfl⟩ := List.mem_map.mp hkey
    obtain ⟨rfl, rfl⟩ := Prod.mk.inj (Option.some.inj ((hlive hrecord).symm.trans hshown))
    exact List.mem_map.mpr ⟨record, hrecord, rfl⟩

end Reading

/-! ### The round trip -/

theorem le_maxLength {n : ℕ} (hn : n ≤ 19) : n ≤ maxLength := by
  have hsize : 19 ≤ maxLength := by
    rw [maxLength]
    norm_num
  exact hn.trans hsize

/-- The digits of an `int64_t`. -/
theorem length_toText_le {n : ℕ} (hn : n < 2 ^ 63) : (toText n).length ≤ maxLength := by
  have hdigits : (Nat.digits 10 n).length ≤ 19 :=
    (Nat.digits_length_le_iff (by decide) n).mpr (lt_trans hn (by norm_num))
  rw [toText, Decimal.intText_natCast, Decimal.natText]
  split
  · exact le_maxLength (by decide)
  · rw [List.length_map, List.length_reverse]
    exact le_maxLength hdigits

section RoundTrip

open Rdb (liveKeys mem_liveKeys)

variable [Double S] [Inhabited S]

/-- **What a rewritten log keeps.** Of each key that has not expired, all elements are written, the texts of the scores
can be read back, the parser can read the command back, and the deadline is ahead of the clock by an `int64_t`. -/
structure Database.Rewritable (reserve : Reserve) (now : ℤ) (db : Database S) : Prop where
  counted : ∀ key obj, db.data.lookup key = some obj → ¬db.Expired now key → obj.value.Counted
  exact : ∀ key obj, db.data.lookup key = some obj → ¬db.Expired now key → obj.value.payload.Exact
  fits : ∀ key obj, db.data.lookup key = some obj → ¬db.Expired now key →
    CommandFits reserve (obj.value.payload.command key)
  distance : ∀ key ∈ liveKeys now db, ∀ deadline, db.expires.lookup key = some deadline → deadline - now < 2 ^ 63

variable [Platform] [LinearOrder S] {reserve : Reserve} {now : ℤ} {db : Database S} {records : List (KeyRecord S)}

omit [Inhabited S] [Platform] [LinearOrder S] in
/-- The key of a command that makes a value stands in the command. -/
theorem Payload.mem_command {p : Payload S} {content : Content S} (hmeans : p.Means content) (key : Bytes) :
    key ∈ p.command key := by
  cases p with
  | none => cases content <;> exact hmeans.elim
  | string | list | hash | set | zset => exact List.mem_cons_of_mem _ List.mem_cons_self

namespace Database.Recorded

variable (h : db.Recorded now records) (hwf : db.WF) (hrewritable : db.Rewritable reserve now) (hnow : 0 ≤ now)

include h hwf hrewritable hnow

/-- The records of a well-formed database can be loaded. -/
theorem loadable {record : KeyRecord S} (hrecord : record ∈ records) : record.Loadable := by
  obtain ⟨obj, hobj, hvalue, hdeadline⟩ := h.each record hrecord
  have hlive := (mem_liveKeys.mp (h.keys ▸ List.mem_map_of_mem hrecord)).2
  refine ⟨?_, hvalue ▸ hrewritable.exact _ obj hobj hlive, fun deadline hd => ?_⟩
  · rw [hvalue]
    exact ((hwf.values _ obj hobj).shows (hrewritable.counted _ obj hobj hlive)).means
  · rw [hdeadline] at hd
    -- a deadline that has passed would have made the key expire
    have hahead : now < deadline := by
      by_contra hpast
      exact hlive ⟨deadline, hd, not_lt.mp hpast⟩
    exact ⟨lt_of_le_of_lt hnow hahead, (hwf.deadlines _ deadline hd).2⟩

/-- The commands of the records can be read back. -/
theorem commandFits (hres : ∀ n ≤ 3, reserve n = none) {record : KeyRecord S} (hrecord : record ∈ records) :
    ∀ command ∈ record.commands, CommandFits reserve command := by
  have hloadable := h.loadable hwf hrewritable hnow hrecord
  obtain ⟨obj, hobj, hvalue, -⟩ := h.each record hrecord
  have hlive := (mem_liveKeys.mp (h.keys ▸ List.mem_map_of_mem hrecord)).2
  have hfits : CommandFits reserve (record.obj.value.payload.command record.key) := hvalue ▸ hrewritable.fits _ obj hobj hlive
  intro command hcommand
  -- the command that writes the value fits by assumption; a PEXPIREAT may follow it
  rcases List.mem_cons.mp hcommand with rfl | hcommand
  · exact hfits
  · cases hd : record.deadline with
    | none =>
      rw [hd] at hcommand
      cases hcommand
    | some deadline =>
      rw [hd] at hcommand
      obtain rfl := List.mem_singleton.mp hcommand
      obtain ⟨hpos, hlt⟩ := hloadable.deadline deadline hd
      -- a deadline that is read back is positive, so it has few digits
      have hsmall : asUInt64 deadline < 2 ^ 63 := by
        rw [asUInt64]
        omega
      have hkey := hfits.lengths _ (Payload.mem_command hloadable.means record.key)
      -- its three words are short
      refine ⟨le_maxLength (by simp), fun word hword => ?_, hres 3 le_rfl⟩
      rcases List.mem_cons.mp hword with rfl | hword
      · exact le_maxLength (by decide)
      rcases List.mem_cons.mp hword with rfl | hword
      · exact hkey
      · obtain rfl := List.mem_singleton.mp hword
        exact length_toText_le hsmall

end Database.Recorded

/-- The commands of a rewritten log can be read back. By induction on the databases. -/
theorem recordCommands_fit (hnow : 0 ≤ now) (hres : ∀ n ≤ 3, reserve n = none) {databases : List (Database S)} {records : List (List (KeyRecord S))}
    (h : List.Forall₂ (Database.Recorded now) databases records) : ∀ {i : ℕ}, i + databases.length < 2 ^ 31 →
    (∀ db ∈ databases, db.WF) → (∀ db ∈ databases, db.Rewritable reserve now) →
    ∀ command ∈ recordCommands i (databases.zip records), CommandFits reserve command := by
  induction h with
  | nil => exact fun _ _ _ _ hcommand => absurd hcommand List.not_mem_nil
  | @cons db records rest _ hrecorded _ ih =>
    intro i hfew hwf hrewritable command hcommand
    rw [List.length_cons] at hfew
    rw [List.zip_cons_cons, recordCommands, List.mem_append] at hcommand
    rcases hcommand with hcommand | hcommand
    · split at hcommand
      · exact absurd hcommand List.not_mem_nil
      rcases List.mem_cons.mp hcommand with rfl | hcommand
      · -- the `SELECT`, whose number has at most ten digits
        refine ⟨le_maxLength (by simp), fun word hword => ?_, hres 2 (by decide)⟩
        rcases List.mem_cons.mp hword with rfl | hword
        · exact le_maxLength (by decide)
        · obtain rfl := List.mem_singleton.mp hword
          exact length_toText_le (by omega)
      · obtain ⟨record, hrecord, hcommand⟩ := List.mem_flatMap.mp hcommand
        exact hrecorded.commandFits (hwf db List.mem_cons_self) (hrewritable db List.mem_cons_self) hnow hres hrecord
          command hcommand
    · exact ih (by omega) (fun d hd => hwf d (List.mem_cons_of_mem _ hd))
        (fun d hd => hrewritable d (List.mem_cons_of_mem _ hd)) command hcommand

namespace Boot

variable {boot : Boot} {reserve : Reserve}

omit [Double S] [Inhabited S] [LinearOrder S] in
/-- The client that the log is loaded for works on a database without data. -/
theorem worksOn_loading : ∃ i, (boot.loading : Server S).WorksOn 0 i := by
  have hwatched : ∀ db ∈ (boot.logging : Server S).databases, db.watchedKeys = ∅ := fun db hdb => by
    rw [List.eq_of_mem_replicate hdb]
  obtain ⟨-, hblank⟩ := flushAll_blank (boot.logging : Server S).databases boot.env hwatched
  refine ⟨_, ⟨_, AList.lookup_insert _, rfl⟩, rfl, fun db hdb key watchers hwatch => ?_⟩
  rw [(hblank db hdb).2.2] at hwatch
  cases (AList.lookup_empty key).symm.trans hwatch

omit [Double S] [LinearOrder S] in
/-- The log is loaded into databases without data. -/
theorem datasets_loading : (boot.loading : Server S).datasets = List.replicate boot.databases.toNat fun _ => none :=
  datasets_flushDatabases

/-- **The round trip of a rewritten log.** The log of reachable databases, rewritten at a fixed clock reading and
loaded by a server with as many, brings each key back that had not expired, in its database, with its deadline and its
content; of a list it brings back the elements twice over. The log is the text of the commands of the records, and it
parses back to them. Replaying those of one record puts its key back and leaves the others, and so by induction those
of all. -/
theorem rewritten_log_reloads (depth : ℕ) {databases : List (Database S)} {env : Env}
    (hreachable : ∀ db ∈ databases, db.Reachable) (hrewritable : ∀ db ∈ databases, db.Rewritable reserve now)
    (hclock : env.clock = fun _ => now) (hnow : 0 ≤ now) (hfew : databases.length < 2 ^ 31)
    (hcount : boot.databases = databases.length) (hfinds : boot.Finds (Aof.rewriteAof true databases env).2.1)
    (hres : ∀ n ≤ 3, reserve n = none) :
    boot.EndsWith reserve (depth + 1) (databases.map fun db key =>
      (db.live now key).map fun entry => (entry.1.reloaded, entry.2)) := by
  have hwf : ∀ db ∈ databases, db.WF := fun db hdb => (hreachable db hdb).wf
  have hrecorded := readDatabases_recorded databases hclock fun db hdb => (hrewritable db hdb).distance
  obtain ⟨records, hrecords⟩ : ∃ records, records = (readDatabases databases env).1 := ⟨_, rfl⟩
  rw [← hrecords] at hrecorded
  have hmem {x : Database S × List (KeyRecord S)} (hx : x ∈ databases.zip records) :
      x.1 ∈ databases ∧ x.1.Recorded now x.2 :=
    ⟨(List.of_mem_zip hx).1, List.forall₂_zip hrecorded hx⟩
  have hloadable {x : Database S × List (KeyRecord S)} (hx : x ∈ databases.zip records) {record : KeyRecord S}
      (hrecord : record ∈ x.2) : record.Loadable :=
    (hmem hx).2.loadable (hwf _ (hmem hx).1) (hrewritable _ (hmem hx).1) hnow hrecord
  -- the file is the log of the commands of the records
  have hfile : (Aof.rewriteAof true databases env).2.1 = commandLog (recordCommands 0 (databases.zip records)) := by
    rw [Aof.rewriteAof_records, ← hrecords, rewriteRecords_eq _ _ _ fun x hx record hrecord hnone => ?_]
    · rfl
    · have hmeans := (hloadable hx hrecord).means
      rw [hnone] at hmeans
      exact hmeans.elim
  rw [hfile] at hfinds
  -- and it parses back to these commands
  have hparse := parse_commandLog (recordCommands_fit hnow hres hrecorded (by rwa [Nat.zero_add]) hwf hrewritable)
  -- the databases are empty when it is loaded
  obtain ⟨i, hworks⟩ : ∃ i, (boot.loading : Server S).WorksOn 0 i := worksOn_loading
  have hzip : (databases.zip records).length = databases.length := by
    rw [List.length_zip, ← hrecorded.length_eq, Nat.min_self]
  have hempty : (boot.loading : Server S).datasets
      = [] ++ List.replicate (databases.zip records).length fun _ => none := by
    rw [datasets_loading, hcount, Int.toNat_natCast, hzip, List.nil_append]
  have hlength : (boot.loading : Server S).databases.length < 2 ^ 31 := by
    have h := congrArg List.length hempty
    rw [Server.datasets, List.length_map, List.nil_append, List.length_replicate, hzip] at h
    exact h ▸ hfew
  -- the commands are executed: what each database holds is what its records assign
  obtain ⟨_, t, hrun, -, hdata⟩ := Server.reloads_databases depth (databases.zip records) hworks hempty hlength
    fun x hx => ⟨(hmem hx).2.empty, (hmem hx).2.keys ▸ x.1.data.nodupKeys.filter _, fun record => hloadable hx⟩
  -- what the records assign is what the keys showed when the file was written
  have hwant : t.databases.map Database.dataset = databases.map fun db key =>
      (db.live now key).map fun entry => (entry.1.reloaded, entry.2) := by
    refine hdata.trans ?_
    rw [List.nil_append]
    calc ((databases.zip records).map fun x => assigned (fun _ => none) (x.2.map KeyRecord.entry))
        = (databases.zip records).map fun x => fun key =>
            (x.1.live now key).map fun entry => (entry.1.reloaded, entry.2) :=
          List.map_congr_left fun x hx => (hmem hx).2.assigned_eq
      _ = ((databases.zip records).map Prod.fst).map fun db => fun key =>
            (db.live now key).map fun entry => (entry.1.reloaded, entry.2) := by
          rw [List.map_map]
          rfl
      _ = _ := by rw [List.map_fst_zip hrecorded.length_eq.le]
  exact hwant ▸ endsWith_of_replay hfinds hparse hrun

end Boot

end RoundTrip

section Sample

open Sample

/-- A list of two elements. -/
def pairObject : RedisObject Score where
  value := .list ((LinkedList.new.pushBack (str "a")).pushBack (str "b"))

/-- A database with the list. -/
def pairDb : Database Score := (DbState.setObject (str "l") pairObject { idleEnv with db := {} }).db

/-- A server that starts from the rewritten log of two databases. -/
def rewrittenBoot : Boot where
  databases := 2
  disk := Boot.diskOf (str "appendonly.aof") (Aof.rewriteAof true [volatileDb, pairDb] idleEnv).2.1

/-- A database with one key. -/
theorem rewritable_of_single {reserve : Reserve} {db : Database Score} (key : Bytes) (obj : RedisObject Score)
    (hdata : db.data = (∅ : UnorderedMap Bytes (RedisObject Score)).insert key obj) (hcounted : obj.value.Counted)
    (hexact : obj.value.payload.Exact) (hfits : CommandFits reserve (obj.value.payload.command key))
    (hdistance : ∀ k deadline, db.expires.lookup k = some deadline → deadline < 2 ^ 63) : db.Rewritable reserve 0 := by
  -- there is one key
  have hsingle : ∀ k o, db.data.lookup k = some o → k = key ∧ o = obj := fun k o ho => by
    rw [hdata, UnorderedMap.lookup_insert_eq_ite] at ho
    split at ho
    · next hk => exact ⟨hk, (Option.some.inj ho).symm⟩
    · cases ho
  refine ⟨fun k o ho _ => ?_, fun k o ho _ => ?_, fun k o ho _ => ?_, fun k _ deadline hd => ?_⟩
  · obtain ⟨-, rfl⟩ := hsingle k o ho
    exact hcounted
  · obtain ⟨-, rfl⟩ := hsingle k o ho
    exact hexact
  · obtain ⟨rfl, rfl⟩ := hsingle k o ho
    exact hfits
  · rw [sub_zero]
    exact hdistance k deadline hd

/-- The key with its deadline comes back as it was, and the list with its elements twice over. -/
theorem rewritten_log_reloads_list :
    rewrittenBoot.EndsWith smallReserve 1 ([volatileDb, pairDb].map fun db key =>
      (db.live 0 key).map fun entry => (entry.1.reloaded, entry.2)) ∧
    (volatileDb.live 0 (str "k")).map (fun entry => (entry.1.reloaded, entry.2))
      = some (.string (str "v"), some 60000) ∧
    (pairDb.live 0 (str "l")).map (fun entry => (entry.1.reloaded, entry.2))
      = some (.list [str "a", str "b", str "a", str "b"], none) := by
  -- a string with a deadline in one database, a list in the other
  have hreachable : ∀ db ∈ [volatileDb, pairDb], db.Reachable := by
    intro db hdb
    rcases List.mem_cons.mp hdb with rfl | hdb
    · exact .setExpiryAt (.set .new (str "k") (str "v")) (str "k") (by decide)
    · obtain rfl := List.mem_singleton.mp hdb
      have hlist : pairObject.value.Reachable := .pushBack (.pushBack .newList _) _
      exact Database.Reachable.setObject (s := { idleEnv with db := ({} : Database Score) }) .new (str "l") hlist
  have hrewritable : ∀ db ∈ [volatileDb, pairDb], db.Rewritable smallReserve 0 := by
    intro db hdb
    rcases List.mem_cons.mp hdb with rfl | hdb
    · refine rewritable_of_single (str "k") { value := .string (str "v"), lruClock := 0 } rfl trivial trivial
        (by decide +kernel) fun k deadline hd => ?_
      rw [volatileDb_deadline hd]
      decide
    · obtain rfl := List.mem_singleton.mp hdb
      refine rewritable_of_single (str "l") { pairObject with lruClock := 0 } rfl ?_ trivial (by decide +kernel)
        fun k deadline hd => ?_
      · show asInt 2 = 2
        decide
      · cases hd
  have hfinds : rewrittenBoot.Finds (Aof.rewriteAof true [volatileDb, pairDb] idleEnv).2.1 :=
    ⟨by show (0 : ℤ) ≤ 2; decide, rfl, { contents := _ }, rfl, rfl, rfl, rfl⟩
  have hfew : [volatileDb, pairDb].length < 2 ^ 31 := by decide
  exact ⟨Boot.rewritten_log_reloads 0 hreachable hrewritable rfl le_rfl hfew rfl hfinds fun _ hn => if_pos (hn.trans (by decide)), rfl, rfl⟩

end Sample

end RedisDb

import RedisDb.Server.EventLoop

/-!
# The tables of clients

`Server.tables` is what a server knows about who its clients are: the tables that refer to a client
by its address, and of every client the record it keeps of the tables it is in. `Tables.Refers` says
that a table refers to a client, and `Record.Owns` that the client's own record says so.

Most of what the server does leaves all of this alone, and adds only such events to the trace as have
nothing to do with it (`Server.Quiet`).
-/

namespace RedisDb

variable {S : Type}

/-- What a client's own record says about the tables it is in. -/
structure Record where
  watchedKeys : UnorderedSet Bytes
  pubsubChannels : UnorderedSet Bytes
  pubsubPatterns : UnorderedSet Bytes
  blockedKeys : List Bytes
  blockCmd : RespValue
  slave : Bool
  blocked : Bool

/-- The record that a client keeps. -/
def Client.record (cl : Client) : Record where
  watchedKeys := cl.watchedKeys
  pubsubChannels := cl.pubsubChannels
  pubsubPatterns := cl.pubsubPatterns
  blockedKeys := cl.blockedKeys
  blockCmd := cl.blockCmd
  slave := cl.hasFlag .slave
  blocked := cl.hasFlag .blocked

/-- A change beside the tables keeps the record. -/
theorem Client.SameTables.record {cl cl' : Client} (h : cl.SameTables cl') :
    cl'.record = cl.record := by
  simp only [Client.record, h.watchedKeys, h.pubsubChannels, h.pubsubPatterns, h.blockedKeys,
    h.blockCmd, h.slave, h.blocked]

/-- To send something is to keep the record. -/
theorem Server.WriteResult.record_apply (answer : WriteResult) (cl : Client) :
    (answer.apply cl).record = cl.record := by
  cases answer with
  | wrote n =>
    dsimp only [apply]
    split <;> rfl
  | wouldBlock => rfl
  | failed => rfl

/-- The tables of clients. -/
structure Tables where
  /-- The records of the clients that are there. -/
  records : ClientId → Option Record
  nextClient : ClientId
  pubsubChannels : Index Bytes ClientId
  pubsubPatterns : List (Bytes × ClientId)
  blockedClients : Index Bytes ClientId
  masterClient : Option ClientId
  replicas : List ClientId
  /-- `watchedKeys_` of every database. -/
  watchedKeys : List (Index Bytes ClientId)

/-- The tables of clients of a server. -/
def Server.tables (s : Server S) : Tables where
  records id := (s.clients.lookup id).map Client.record
  nextClient := s.nextClient
  pubsubChannels := s.pubsubChannels
  pubsubPatterns := s.pubsubPatterns
  blockedClients := s.blockedClients
  masterClient := s.masterClient
  replicas := s.replicas
  watchedKeys := s.databases.map Database.watchedKeys

/-- A reference to a client: the table, and the entry of it. -/
inductive Ref where
  | channel (channel : Bytes)
  | pattern (pattern : Bytes)
  | blocked (key : Bytes)
  | watched (key : Bytes)
  | replica
  | master

/-- A client watches a key in some database. -/
def Watched (watchedKeys : List (Index Bytes ClientId)) (id : ClientId) (key : Bytes) : Prop :=
  ∃ watchers ∈ watchedKeys, id ∈ watchers.valuesAt key

/-- A table refers to a client. -/
def Tables.Refers (T : Tables) (id : ClientId) : Ref → Prop
  | .channel channel => id ∈ T.pubsubChannels.valuesAt channel
  | .pattern pattern => (pattern, id) ∈ T.pubsubPatterns
  | .blocked key => id ∈ T.blockedClients.valuesAt key
  | .watched key => Watched T.watchedKeys id key
  | .replica => id ∈ T.replicas
  | .master => T.masterClient = some id

/-- The record of a client says that a table refers to it. The connection to the master keeps no
record of being that. -/
def Record.Owns (r : Record) : Ref → Prop
  | .channel channel => channel ∈ r.pubsubChannels
  | .pattern pattern => pattern ∈ r.pubsubPatterns
  | .blocked key => r.blocked ∧ key ∈ r.blockedKeys
  | .watched key => key ∈ r.watchedKeys
  | .replica => r.slave
  | .master => True

/-- The search through all tables finds the references. -/
theorem Server.refersTo_iff {id : ClientId} {s : Server S} :
    s.refersTo id = true ↔ ∃ ref, s.tables.Refers id ref := by
  simp only [refersTo, Bool.or_eq_true, Index.contains_iff, List.any_eq_true, List.contains_iff_mem,
    decide_eq_true_eq]
  constructor
  · -- one kind of reference for each table, in the order of the source
    rintro (((((⟨ch, h⟩ | ⟨⟨p, id'⟩, h, rfl⟩) | ⟨k, h⟩) | h) | h) | ⟨db, hdb, k, h⟩)
    · exact ⟨.channel ch, h⟩
    · exact ⟨.pattern p, h⟩
    · exact ⟨.blocked k, h⟩
    · exact ⟨.replica, h⟩
    · exact ⟨.master, h⟩
    · exact ⟨.watched k, _, List.mem_map_of_mem hdb, h⟩
  · rintro ⟨_ | _ | _ | k | _ | _, h⟩
    · exact .inl (.inl (.inl (.inl (.inl ⟨_, h⟩))))
    · exact .inl (.inl (.inl (.inl (.inr ⟨_, h, rfl⟩))))
    · exact .inl (.inl (.inl (.inr ⟨_, h⟩)))
    · obtain ⟨watchers, hmem, h⟩ := h
      obtain ⟨db, hdb, rfl⟩ := List.mem_map.mp hmem
      exact .inr ⟨db, hdb, k, h⟩
    · exact .inl (.inl (.inr h))
    · exact .inl (.inr h)

namespace Server

/-! ### A client in its table -/

/-- The tables after a client has changed. -/
theorem tables_insert {s : Server S} {id : ClientId} {cl' : Client} {r : Record}
    (h : cl'.record = r) :
    { s with clients := s.clients.insert id cl' }.tables
      = { s.tables with records := Function.update s.tables.records id (some r) } := by
  simp only [tables, Tables.mk.injEq, and_true]
  funext i
  rw [UnorderedMap.lookup_insert_eq_ite, Function.update_apply]
  split
  · rw [Option.map_some, h]
  · rfl

/-- A change of a client that keeps its record. -/
theorem tables_insert_same {s : Server S} {id : ClientId} {cl cl' : Client}
    (hcl : s.clients.lookup id = some cl) (h : cl'.record = cl.record) :
    { s with clients := s.clients.insert id cl' }.tables = s.tables := by
  have hsame : Function.update s.tables.records id (some cl.record) = s.tables.records := by
    refine Function.update_eq_self_iff.mpr ?_
    simp only [tables, hcl, Option.map_some]
  rw [tables_insert h, hsame]

/-! ### Steps that leave the tables alone -/

end Server

/-- Events that have nothing to do with the tables, nor with who waits. -/
def Event.IsQuiet : Event → Prop
  | .attached .. | .blocked .. | .woken .. | .removed .. | .timedOut .. => False
  | .reply .. | .propagated .. | .completed .. | .pushes .. | .zadd .. | .appendOnlyOff | .masterSet | .promoted .. => True

/-- What is noted aside is quiet. -/
theorem Event.IsAside.isQuiet {e : Event} {host : Bytes} (h : e.IsAside host) : e.IsQuiet := by
  cases e <;> first | exact trivial | exact h.elim

namespace Server

/-- The two states of the server agree on the tables, and only quiet events have been added to the
trace. -/
structure Quiet (s t : Server S) : Prop where
  tables : t.tables = s.tables
  serving : t.serving = s.serving
  reading : t.reading = s.reading
  trace : ∃ es, t.trace = s.trace ++ es ∧ ∀ e ∈ es, e.IsQuiet

namespace Quiet

variable {s t u : Server S}

/-- Where nothing happens. -/
theorem refl (s : Server S) : Quiet s s := ⟨rfl, rfl, rfl, [], (List.append_nil _).symm, by simp⟩

/-- One step after another. -/
theorem trans (h : Quiet s t) (h' : Quiet t u) : Quiet s u := by
  obtain ⟨es, hes, hquiet⟩ := h.trace
  obtain ⟨es', hes', hquiet'⟩ := h'.trace
  refine ⟨h'.tables.trans h.tables, h'.serving.trans h.serving, h'.reading.trans h.reading,
    es ++ es', ?_, ?_⟩
  · rw [hes', hes, List.append_assoc]
  · intro e he
    rcases List.mem_append.mp he with he | he
    · exact hquiet e he
    · exact hquiet' e he

/-- A quiet event. -/
theorem note {e : Event} (he : e.IsQuiet) (s : Server S) : Quiet s (s.note e) :=
  ⟨rfl, rfl, rfl, [e], rfl, by simpa using he⟩

/-- A change of a client that keeps its record. -/
theorem own {id : ClientId} {cl cl' : Client} (hcl : s.clients.lookup id = some cl)
    (h : cl'.record = cl.record) : Quiet s { s with clients := s.clients.insert id cl' } :=
  ⟨tables_insert_same hcl h, rfl, rfl, [], (List.append_nil _).symm, by simp⟩

/-- A change that keeps the record of any client. -/
theorem updateClient {id : ClientId} {f : Client → Client} (hf : ∀ cl, (f cl).record = cl.record)
    (h : s.updateClient id f = some t) : Quiet s t := by
  obtain ⟨cl, hcl, rfl⟩ := Option.map_eq_some_iff.mp h
  exact own hcl (hf cl)

/-- A reply. -/
theorem addReply {id : ClientId} {data : Bytes} (h : s.addReply id data = some t) : Quiet s t := by
  obtain ⟨u, hu, rfl⟩ := Option.map_eq_some_iff.mp h
  have hsame (cl : Client) : (cl.addReply data).record = cl.record := rfl
  have hquiet : (Event.reply id data).IsQuiet := trivial
  exact (updateClient hsame hu).trans (note hquiet u)

/-- A write handler. -/
theorem installWriteHandler (id : ClientId) (s : Server S) : Quiet s (s.installWriteHandler id) := by
  unfold Server.installWriteHandler
  split
  · exact ⟨rfl, rfl, rfl, [], (List.append_nil _).symm, by simp⟩
  · exact refl s

/-- A published message. -/
theorem deliver {id : ClientId} {data : Bytes} (h : s.deliver id data = some t) : Quiet s t := by
  obtain ⟨u, hu, rfl⟩ := Option.map_eq_some_iff.mp h
  exact (addReply hu).trans (installWriteHandler id u)

/-- What is aside of the clients. -/
theorem aside (h : s.Aside t) : Quiet s t := by
  obtain ⟨es, hes, haside, -⟩ := h.trace
  refine ⟨?_, h.serving, h.reading, es, hes, fun e he => (haside e he).isQuiet⟩
  simp only [Server.tables, h.clients, h.nextClient, h.pubsubChannels, h.pubsubPatterns,
    h.blockedClients, h.masterClient, h.replicas, h.databases]

/-- The address of a master. -/
theorem setMaster (host : Bytes) (port : ℤ) (s : Server S) : Quiet s (s.setMaster host port) :=
  ⟨rfl, rfl, rfl, [.masterSet], rfl, by simp [Event.IsQuiet]⟩

/-- A flag that the record leaves out. By induction on the clients. -/
theorem flagDirty (ids : List ClientId) : ∀ {s t : Server S}, s.flagDirty ids = some t →
    Quiet s t := by
  induction ids with
  | nil => exact fun h => Option.some.inj h ▸ refl _
  | cons id ids ih =>
    intro s t h
    obtain ⟨u, hu, ht⟩ := Option.bind_eq_some_iff.mp h
    have hsame (cl : Client) : (cl.setFlag .dirtyExec).record = cl.record :=
      (cl.sameTables_setFlag (by decide) (by decide) (by decide)).record
    exact (updateClient hsame hu).trans (ih ht)

/-- Databases with the same watchers. -/
theorem putDatabases {databases : List (Database S)} {env : Env}
    (hsame : databases.map Database.watchedKeys = s.databases.map Database.watchedKeys)
    (h : s.putDatabases databases env = some t) : Quiet s t := by
  have hput : Quiet s { s with databases := databases, env := env } :=
    ⟨by simp only [Server.tables, hsame], rfl, rfl, [], (List.append_nil _).symm, by simp⟩
  exact hput.trans (flagDirty _ h)

/-- **An access to a database** leaves its watchers. -/
theorem putDatabase [Platform] {i : ℕ} {db : Database S} {ds : DbState S}
    (hdb : s.databases[i]? = some db) (hcalls : (s.dbState db).Calls ds)
    (h : s.putDatabase i ds = some t) : Quiet s t := by
  refine putDatabases ?_ h
  obtain ⟨hi, rfl⟩ := List.getElem?_eq_some_iff.mp hdb
  refine List.ext_getElem (by simp) fun j _ hj => ?_
  rw [List.getElem_map, List.getElem_map, List.getElem_set]
  split
  · next heq =>
    subst heq
    exact hcalls.watchedKeys
  · rfl

/-- What is logged is not in a table. -/
theorem logWrite {id : ClientId} {args : List RespValue} {r : Except Exn Unit}
    (h : s.logWrite id args = some (r, t)) : Quiet s t := by
  have hsame (data : Bytes) (cl : Client) : (cl.addReply data).record = cl.record := rfl
  have hquiet (i : ClientId) (data : Bytes) (b : Bool) : (Event.propagated i data b).IsQuiet := trivial
  refine logWrite_keeps (I := Quiet s) (fun buffer hu => hu.trans ?_) (fun u data hu => hu.trans ?_)
    (fun _ _ hv hu => (hu.trans (updateClient (hsame _) hv)).trans (note (hquiet _ _ _) _)) h (refl s)
  · exact ⟨rfl, rfl, rfl, [], (List.append_nil _).symm, by simp⟩
  · exact ⟨rfl, rfl, rfl, [], (List.append_nil _).symm, by simp⟩

/-- What comes after a handler. -/
theorem complete {id : ClientId} {writes : Bool} {args : List RespValue} {r : Except Exn Unit}
    (h : s.complete id writes args = some (r, t)) : Quiet s t :=
  complete_keeps (note (e := .completed writes args) trivial s) (fun _ hlog hs => hs.trans (logWrite hlog)) h

end Quiet

/-! ### The steps that change them -/

variable {s t : Server S} {id : ClientId}

/-- What `blockClient` does: the client waits with the command for the keys, and the table of blocked clients says so.
-/
theorem blockClient_spec {keys : List Bytes} {timeout : ℤ} {cmd : RespValue} {target : Bytes}
    (h : s.blockClient id keys timeout cmd target = some t) :
    ∃ cl deadline env, s.clients.lookup id = some cl ∧
      t = { s with
        env := env
        clients := s.clients.insert id { cl.setFlag .blocked with
          blockedKeys := keys, blockTimeout := deadline, blockTarget := target, blockCmd := cmd }
        blockedClients := s.blockedClients.pushAll keys id }.note
          (.blocked id cmd (cl.blockedKeys.filter (· ∉ keys))) := by
  obtain ⟨cl, hcl, rfl⟩ := Option.map_eq_some_iff.mp h
  refine ⟨cl, (s.blockDeadline timeout).1, (s.blockDeadline timeout).2.env, hcl, ?_⟩
  by_cases htimeout : 0 < timeout
  · simp only [blockDeadline, if_pos htimeout]
  · simp only [blockDeadline, if_neg htimeout]

/-- What a timeout does, if the time is up: the client is answered, this is noted, and it waits no longer. -/
theorem timeOut_spec (h : s.timeOut id = some t) :
    t = s ∨ ∃ u scheduled, Quiet s u ∧ (u.note (.timedOut id scheduled)).unblockClient id = some t := by
  obtain ⟨cl, hcl, h⟩ := Option.bind_eq_some_iff.mp h
  split at h
  · obtain ⟨u, hu, h⟩ := Option.bind_eq_some_iff.mp h
    obtain ⟨v, hv, rfl⟩ := Option.map_eq_some_iff.mp hu
    have hsame (cl : Client) : (cl.addReply RespSerializer.nullArray).record = cl.record := rfl
    exact .inr ⟨v, _, .updateClient hsame hv, h⟩
  · exact .inl (Option.some.inj h).symm

end Server

end RedisDb

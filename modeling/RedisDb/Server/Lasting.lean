import RedisDb.Commands.Lasting
import RedisDb.Server.Executions
import RedisDb.Server.ReadOnly

/-!
# Data that last

A server whose keys have no deadlines keeps its data until a command writes to them (`Server.Stays`). Requests that
only read leave them as they are (`Reads.stays`), and so does every callback that hands no request on (`Stays.turn`):
clients come and go, output is sent, the log is flushed, and the timer finds no key to expire.

`Stays` is stated of all states, and only promises something of those without deadlines, so that it is transitive:
what it promises includes that there are still none. Two more things are carried along, that nobody comes to wait and
that no command is completed, for the same steps keep these too and whoever uses this asks for all three.
-/

namespace RedisDb

open EffectM

variable {S : Type}

namespace Server

/-- Data without deadlines are as before. Where nobody has waited nobody waits, and no command has been completed. -/
structure Stays (s t : Server S) : Prop where
  data : (∀ db ∈ s.databases, db.Lasting) → List.Forall₂ Database.AsBefore s.databases t.databases
  idle : s.blockedClients = ∅ → t.blockedClients = ∅
  logged : completedCommands t.trace = completedCommands s.trace

/-- Databases that are as before have no deadlines, where they had none. By induction on the databases. -/
theorem lasting_of_asBefore {databases databases' : List (Database S)}
    (h : List.Forall₂ Database.AsBefore databases databases') (hs : ∀ db ∈ databases, db.Lasting) :
    ∀ db ∈ databases', db.Lasting := by
  induction h with
  | nil => exact fun db hdb => by cases hdb
  | cons hhead _ ih =>
    intro db hdb
    rcases List.mem_cons.mp hdb with rfl | hdb
    · exact hhead.lasting (hs _ List.mem_cons_self)
    · exact ih (fun db hdb => hs db (List.mem_cons_of_mem _ hdb)) db hdb

/-- By induction on the databases. -/
theorem asBefore_trans {databases databases' databases'' : List (Database S)}
    (h : List.Forall₂ Database.AsBefore databases databases') :
    List.Forall₂ Database.AsBefore databases' databases'' → List.Forall₂ Database.AsBefore databases databases'' := by
  induction h generalizing databases'' with
  | nil => exact fun h' => h'
  | cons hhead _ ih =>
    intro h'
    cases h' with
    | cons hhead' hrest' => exact .cons (hhead.trans hhead') (ih hrest')

/-- Databases are as before where nothing happens. -/
theorem asBefore_refl (databases : List (Database S)) : List.Forall₂ Database.AsBefore databases databases :=
  List.forall₂_same.mpr fun db _ => .refl db

variable {s t u : Server S} {id : ClientId}

namespace Stays

/-- Where nothing happens. -/
theorem refl (s : Server S) : s.Stays s :=
  ⟨fun _ => asBefore_refl _, fun h => h, rfl⟩

/-- One step after another. -/
theorem trans (h : s.Stays t) (h' : t.Stays u) : s.Stays u where
  data hs := by
    have ht := h.data hs
    exact asBefore_trans ht (h'.data (lasting_of_asBefore ht hs))
  idle hs := h'.idle (h.idle hs)
  logged := h'.logged.trans h.logged

/-- Where the data stay and nothing is noted. -/
theorem of_eq (hdatabases : t.databases = s.databases) (hblocked : t.blockedClients = s.blockedClients)
    (htrace : t.trace = s.trace) : s.Stays t where
  data _ := hdatabases ▸ asBefore_refl _
  idle h := hblocked.trans h
  logged := by rw [htrace]

/-- From a server with the same data. -/
theorem after (h : u.Stays t) (hdatabases : u.databases = s.databases) (hblocked : u.blockedClients = s.blockedClients)
    (htrace : u.trace = s.trace) : s.Stays t := (of_eq hdatabases hblocked htrace).trans h

/-- An event that is no command is noted. -/
theorem note {e : Event} (he : e.IsIdle) (s : Server S) : s.Stays (s.note e) where
  data _ := asBefore_refl _
  idle h := h
  logged := (Idle.note he s).logsNothing.completed

end Stays

/-- By induction on the databases. -/
theorem asBefore_of_stored : ∀ {databases databases' : List (Database S)},
    databases'.map Database.stored = databases.map Database.stored →
    List.Forall₂ Database.AsBefore databases databases' := by
  intro databases
  induction databases with
  | nil =>
    intro databases' h
    obtain rfl := List.map_eq_nil_iff.mp h
    exact .nil
  | cons db databases ih =>
    intro databases' h
    obtain ⟨db', rest, rfl, hdb, hrest⟩ := List.map_eq_cons_iff.mp h
    obtain ⟨hdata, hexpires⟩ := Prod.mk.inj hdb
    exact .cons (.of_stored hdata hexpires) (ih hrest)

/-- What leaves the data alone. -/
theorem Untouched.stays (h : s.Untouched t) : s.Stays t :=
  ⟨fun _ => asBefore_of_stored h.stored, h.idle, h.logged.completed⟩

/-- Where no key has a deadline, none has expired. -/
theorem Looks.stays (h : s.Looks t) : s.Stays t where
  data hs := by
    obtain ⟨n, -, hgone⟩ := h.data.gone
    refine List.forall₂_iff_get.mpr ⟨h.data.length.symm, fun i hi hi' => ?_⟩
    obtain ⟨hremains, hexpired⟩ := hgone i _ _ (List.getElem?_eq_getElem hi) (List.getElem?_eq_getElem hi')
    refine hremains.asBefore (hs _ (List.getElem_mem hi)) fun key hkey hout => ?_
    obtain ⟨deadline, hd, -⟩ := hexpired key hkey hout
    exact ⟨deadline, hd⟩
  idle := h.idle
  logged := h.logged.completed

/-- **Requests that only read.** -/
theorem Reads.stays (h : s.Reads t) : s.Stays t := h.elim Looks.stays Untouched.stays

/-! ### Callbacks that hand nothing on -/

namespace Stays

/-- A client goes. -/
theorem removeClient (h : s.removeClient id = some t) : s.Stays t := (Untouched.removeClient h).stays

/-- A write handler is installed. -/
theorem installWriteHandler (id : ClientId) (s : Server S) : s.Stays (s.installWriteHandler id) :=
  (Untouched.installWriteHandler id s).stays

/-- A client comes. -/
theorem addClient (s : Server S) : s.Stays s.addClient := by
  unfold Server.addClient
  split
  · exact refl s
  · exact of_eq rfl rfl rfl

/-- A link is made. -/
theorem connectToMaster (s : Server S) : s.Stays s.connectToMaster := by
  unfold Server.connectToMaster
  dsimp only
  split
  · exact of_eq rfl rfl rfl
  · have hping (id : ClientId) : (Event.reply id (RespSerializer.bulkStringArray [str "PING"])).IsIdle := trivial
    exact (note (hping s.nextClient) _).after rfl rfl rfl

/-- By induction on the clients. -/
theorem closeClients (ids : List ClientId) : ∀ {s t : Server S}, s.closeClients ids = some t → s.Stays t := by
  induction ids with
  | nil => exact fun h => Option.some.inj h ▸ refl _
  | cons id ids ih =>
    intro s t h
    obtain ⟨u, hu, ht⟩ := Option.bind_eq_some_iff.mp h
    exact (removeClient hu).trans (ih ht)

/-- A client waits no longer. -/
theorem timeOut (h : s.timeOut id = some t) : s.Stays t := by
  obtain ⟨cl, hcl, h⟩ := Option.bind_eq_some_iff.mp h
  split at h
  · obtain ⟨u, hu, h⟩ := Option.bind_eq_some_iff.mp h
    obtain ⟨v, hv, rfl⟩ := Option.map_eq_some_iff.mp hu
    obtain ⟨cl', -, rfl⟩ := Option.map_eq_some_iff.mp hv
    have hidle : (Event.timedOut id (id ∈ s.writable)).IsIdle := trivial
    exact ((note hidle _).trans (Untouched.unblockClient h).stays).after rfl rfl rfl
  · exact Option.some.inj h ▸ refl s

/-- By induction on the clients. -/
theorem timeOutAll (ids : List ClientId) : ∀ {s t : Server S}, s.timeOutAll ids = some t → s.Stays t := by
  induction ids with
  | nil => exact fun h => Option.some.inj h ▸ refl _
  | cons id ids ih =>
    intro s t h
    obtain ⟨u, hu, ht⟩ := Option.bind_eq_some_iff.mp h
    exact (timeOut hu).trans (ih ht)

/-- The log is flushed. -/
theorem cronFlush (s : Server S) : s.Stays s.cronFlush := by
  have hflush (s : Server S) : s.Stays s.flushAof := by
    unfold flushAof
    split
    · split
      · exact of_eq rfl rfl rfl
      · exact refl s
    · exact refl s
  unfold Server.cronFlush
  split
  · dsimp only
    have hclock : s.Stays s.steadyNow.2 := of_eq rfl rfl rfl
    split
    · exact (hclock.trans (hflush s.steadyNow.2)).trans (of_eq rfl rfl rfl)
    · exact hclock
  · exact refl s

/-- **No key expires** in a database without deadlines. -/
theorem expireAll [Platform] (s : Server S) :
    (Server.expireAll : EffectM S none none Exn Unit).Keeps s.Stays := by
  refine .bind (.read _) fun _ => .forM _ fun i _ => .bind (fun t ht => ?_) fun _ => .pure _
  refine (post_onDatabaseAt i _ t _).mpr fun db hdb r ds hrun u hu => ht.trans ?_
  obtain ⟨-, rfl⟩ := Prod.mk.inj (Option.some.inj hrun)
  obtain ⟨clients, rfl⟩ := flagDirty_spec _ hu
  refine ⟨fun hlasting => ?_, fun h => h, rfl⟩
  -- there are no entries to go through
  have hempty : db.expires.entries = [] := by
    refine List.eq_nil_iff_forall_not_mem.mpr fun e he => ?_
    have hlookup := UnorderedMap.mem_entries_iff.mp he
    cases (hlasting db (List.mem_of_getElem? hdb) e.1).symm.trans hlookup
  have hsame : ((t.dbState db).activeExpireCycle 20).2.db = db := by
    show (DbState.expireLoop 20 (db.expires.entries.map fun e => (e.1, e.2)) (t.dbState db)).2.db = db
    rw [hempty]
    rfl
  obtain ⟨hi, hget⟩ := List.getElem?_eq_some_iff.mp hdb
  show List.Forall₂ _ t.databases (t.databases.set i ((t.dbState db).activeExpireCycle 20).2.db)
  rw [hsame, ← hget, List.set_getElem_self]
  exact asBefore_refl _

/-- **The timer.** -/
theorem serverCron [Platform] (h : s.serverCron = some t) : s.Stays t := by
  obtain ⟨⟨r, u⟩, hu, h⟩ := Option.bind_eq_some_iff.mp h
  obtain ⟨v, hv, h⟩ := Option.bind_eq_some_iff.mp h
  obtain ⟨ids, -, h⟩ := Option.bind_eq_some_iff.mp h
  obtain ⟨w, hw, rfl⟩ := Option.map_eq_some_iff.mp h
  -- the parts of the tick one after the other, as in the source
  have hexpired : s.Stays u := (expireAll _ _ (refl _) r u hu).after rfl rfl rfl
  have hclosed : u.Stays v := by
    split at hv
    · unfold closeIdleClients at hv
      split at hv
      · exact Option.some.inj hv ▸ refl u
      · exact (closeClients _ (s := u.steadyNow.2) hv).after rfl rfl rfl
    · exact Option.some.inj hv ▸ refl u
  have hlink : w.Stays w.replicationCron := by
    unfold replicationCron
    split
    · exact connectToMaster w
    · exact refl w
  exact (hexpired.trans hclosed).trans (((cronFlush v).trans (timeOutAll ids hw)).trans hlink)

/-- **A socket can be written to.** -/
theorem onWritable {answer : WriteResult} (h : s.onWritable id answer = some t) : s.Stays t := by
  unfold Server.onWritable at h
  split at h
  · exact Option.some.inj h ▸ refl s
  · next cl hcl =>
    dsimp only at h
    generalize (if cl.hasPendingOutput then answer.apply cl else cl) = written at h
    split at h
    · exact (removeClient h).after rfl rfl rfl
    · split at h
      · exact Option.some.inj h ▸ of_eq rfl rfl rfl
      · split at h
        · exact (removeClient h).after rfl rfl rfl
        · exact Option.some.inj h ▸ of_eq rfl rfl rfl

/-- The commands that are there are taken out of the input. -/
theorem takeInput {reserve : Reserve} {commands : List RespValue}
    (h : s.takeInput reserve id = some (commands, t)) : s.Stays t := by
  obtain ⟨cl, -, h⟩ := Option.bind_eq_some_iff.mp h
  split at h
  · cases h
  · obtain ⟨u, hu, heq⟩ := Option.map_eq_some_iff.mp h
    obtain ⟨-, rfl⟩ := Prod.mk.inj heq
    obtain ⟨cl', -, rfl⟩ := Option.map_eq_some_iff.mp hu
    exact of_eq rfl rfl rfl

/-- The end of a socket's turn. -/
theorem answered (cl : Client) (s : Server S) :
    s.Stays { (if cl.hasPendingOutput then s.installWriteHandler id else s) with reading := none } := by
  split
  · exact (installWriteHandler id s).trans (of_eq rfl rfl rfl)
  · exact of_eq rfl rfl rfl

variable [Platform] [Double S] [Inhabited S] [LT S] [DecidableLT S] [BEq S] {reserve : Reserve} {depth : ℕ}

/-- **A callback that hands nothing on leaves the data.** -/
theorem turn {label : Turn} (hnothing : label.HandsOnNothing s) (h : s.turn reserve depth label = some t) :
    s.Stays t := by
  cases label with
  | accept => exact Option.some.inj h ▸ addClient s
  | writable id answer => exact onWritable h
  | cron => exact serverCron h
  | readable id answer =>
    replace h : s.onReadable reserve depth id answer = some t := h
    unfold onReadable at h
    split at h
    · exact Option.some.inj h ▸ refl s
    · next cl hcl =>
      split at h
      · exact Option.some.inj h ▸ refl s
      · exact removeClient h
      · next bytes =>
        -- a read that hands on nothing closes the client
        have hlong : maxInputBuffer < (cl.inputBuffer ++ bytes).length :=
          hnothing id cl bytes (by rw [Turn.reads, if_pos rfl, hcl]; rfl)
        rw [if_pos hlong] at h
        obtain ⟨u, hu, rfl⟩ := Option.map_eq_some_iff.mp h
        have hgone : s.Stays u := (removeClient hu).after rfl rfl rfl
        exact hgone.trans (of_eq rfl rfl rfl)

end Stays

end Server

end RedisDb

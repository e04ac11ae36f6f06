import RedisDb.Server.ServerProgram
import RedisDb.Storage.WatchedKeys

/-!
# Programs on a database, run by the server

After a program has worked on a database the server flags the clients that watch a key it has changed, and a client
that is not there any more is a dangling pointer. Where the clients that watch a key are there (`WatchersThere`), a
program that ends on the database ends on the server.
-/

namespace RedisDb

variable {S : Type}

namespace Server

/-- The clients that watch a key are there. -/
def WatchersThere (s : Server S) : Prop :=
  ∀ db ∈ s.databases, ∀ key clients, db.watchedKeys.lookup key = some clients →
    ∀ id ∈ clients, ∃ cl, s.clients.lookup id = some cl

/-- Clients that are there can be flagged, and otherwise they stay as they are. By induction on the clients. -/
theorem flagDirty_of_there (ids : List ClientId) : ∀ {s : Server S},
    (∀ id ∈ ids, ∃ cl, s.clients.lookup id = some cl) → ∃ clients,
      s.flagDirty ids = some { s with clients := clients } ∧
        ∀ id cl, s.clients.lookup id = some cl → ∃ flags, clients.lookup id = some { cl with flags := flags } := by
  induction ids with
  | nil => exact fun _ => ⟨_, rfl, fun _ cl h => ⟨cl.flags, h⟩⟩
  | cons id ids ih =>
    intro s h
    obtain ⟨cl, hcl⟩ := h id List.mem_cons_self
    -- the server after the first watcher got its flag
    obtain ⟨u, hu⟩ : ∃ u : Server S, u = { s with clients := s.clients.insert id (cl.setFlag .dirtyExec) } :=
      ⟨_, rfl⟩
    have hkept (i : ClientId) (cl' : Client) (hi : s.clients.lookup i = some cl') :
        ∃ flags, u.clients.lookup i = some { cl' with flags := flags } := by
      rw [hu, UnorderedMap.lookup_insert_eq_ite]
      split
      · next heq =>
        subst heq
        obtain rfl := Option.some.inj (hcl.symm.trans hi)
        exact ⟨_, rfl⟩
      · exact ⟨cl'.flags, hi⟩
    -- the other watchers are there still
    obtain ⟨clients, hflag, hthere⟩ := ih (s := u) fun i hi => by
      obtain ⟨cl', hcl'⟩ := h i (List.mem_cons_of_mem _ hi)
      obtain ⟨flags, hflags⟩ := hkept i cl' hcl'
      exact ⟨_, hflags⟩
    refine ⟨clients, ?_, fun i cl' hi => ?_⟩
    · have hupdate : s.updateClient id (·.setFlag .dirtyExec) = some u := by
        rw [updateClient, hcl, hu]
        rfl
      rw [flagDirty, hupdate, Option.bind_some, hflag, hu]
    · obtain ⟨flags, hflags⟩ := hkept i cl' hi
      obtain ⟨flags', hflags'⟩ := hthere i _ hflags
      exact ⟨flags', hflags'⟩

/-- Clients that have been flagged are there as they were, but for their flags. By induction on the clients. -/
theorem flagDirty_kept (ids : List ClientId) : ∀ {s t : Server S}, s.flagDirty ids = some t → ∃ clients,
    t = { s with clients := clients } ∧
      ∀ id cl, s.clients.lookup id = some cl → ∃ flags, clients.lookup id = some { cl with flags := flags } := by
  induction ids with
  | nil =>
    intro s t h
    exact ⟨s.clients, (Option.some.inj h).symm, fun _ cl hcl => ⟨cl.flags, hcl⟩⟩
  | cons id ids ih =>
    intro s t h
    obtain ⟨u, hu, ht⟩ := Option.bind_eq_some_iff.mp h
    obtain ⟨cl, hcl, rfl⟩ := Option.map_eq_some_iff.mp hu
    obtain ⟨clients, rfl, hkept⟩ := ih ht
    refine ⟨clients, rfl, fun i cl' hi => ?_⟩
    -- a client that is flagged keeps everything but its flags
    by_cases heq : i = id
    · subst heq
      obtain rfl := Option.some.inj (hcl.symm.trans hi)
      exact hkept i (cl.setFlag .dirtyExec) (AList.lookup_insert _)
    · exact hkept i cl' ((AList.lookup_insert_ne heq).trans hi)

/-- The server after something has been done to database `i`: some clients are flagged, and otherwise only that database
and the environment are others. -/
structure AfterDatabase (i : ℕ) (ds : DbState S) (s t : Server S) : Prop where
  put : s.putDatabase i ds = some t
  eq : ∃ clients, t = { s with databases := s.databases.set i ds.db, env := ds.toEnv, clients := clients }
  clients : ∀ id cl, s.clients.lookup id = some cl → ∃ flags, t.clients.lookup id = some { cl with flags := flags }
  watchersThere : t.WatchersThere

/-- The server after a command of client `c` has worked on database `i`, and has replied. -/
structure Replied (c : ClientId) (data : Bytes) (i : ℕ) (db : Database S) (s t : Server S) : Prop where
  databases : t.databases = s.databases.set i db
  client : ∀ cl, s.clients.lookup c = some cl → ∃ cl', t.clients.lookup c = some cl' ∧
    cl'.selectedDb = cl.selectedDb ∧ cl'.outputBuffer = cl.outputBuffer ++ data
  blockedClients : t.blockedClients = s.blockedClients
  watchersThere : t.WatchersThere

end Server

namespace EffectM

open Server

variable [Platform] {k : Option RespValue} {c : Option ClientId} {α : Type} {s : Server S} {p : DbM S α}
  {Q : α → DbState S → Prop} {db : Database S}

/-- **A program that ends on a database ends on the server.** The clients to be flagged watch a key of it, and so they
are there. -/
theorem ends_onDatabaseAt {i : ℕ} (hs : s.WatchersThere) (hdb : s.databases[i]? = some db)
    (hp : p.Ends (s.dbState db) Q) : (onDatabaseAt i p : EffectM S k c Exn α).Ends s fun a t => ∃ ds,
      p.run (s.dbState db) = some (.ok a, ds) ∧ Q a ds ∧ AfterDatabase i ds s t := by
  obtain ⟨a, ds, hrun, hq⟩ := hp
  have hmem : db ∈ s.databases := List.mem_of_getElem? hdb
  have hkept := (p.within hrun).watchersKept
  -- the clients to flag watch a key, and such clients are there
  obtain ⟨clients, hflag, hthere⟩ := flagDirty_of_there ds.flagged
    (s := { s with databases := s.databases.set i ds.db, env := ds.toEnv }) fun id hid => by
      rcases hkept.flagged id hid with hnone | ⟨key, watchers, hwatch, hwatcher⟩
      · exact (List.not_mem_nil hnone).elim
      · exact hs db hmem key watchers hwatch id hwatcher
  obtain ⟨t, ht⟩ : ∃ t : Server S, t = { s with
    databases := s.databases.set i ds.db, env := ds.toEnv, clients := clients } := ⟨_, rfl⟩
  have hput : s.putDatabase i ds = some t := ht ▸ hflag
  refine ⟨a, t, ?_, ds, hrun, hq, hput, ⟨clients, ht⟩, ?_, fun d hd key watchers hwatch id hid => ?_⟩
  · simp only [onDatabaseAt, hdb, hrun, hput, Option.map_some]
  · rw [ht]
    exact hthere
  · obtain ⟨cl, hcl⟩ : ∃ cl, s.clients.lookup id = some cl := by
      rw [ht] at hd
      rcases List.mem_or_eq_of_mem_set hd with hold | rfl
      · exact hs d hold key watchers hwatch id hid
      · exact hs db hmem key watchers (hkept.watchedKeys ▸ hwatch) id hid
    obtain ⟨flags, hflags⟩ := hthere id cl hcl
    rw [ht]
    exact ⟨_, hflags⟩

/-- **What a program does on a database** is done to that database and the environment; clients are flagged. -/
theorem post_onDatabase {id : ClientId} (p : DbM S α) (s : Server S) :
    (onDatabase p : EffectM S k (some id) Exn α).Post s fun r t => ∃ cl db ds clients,
      s.clients.lookup id = some cl ∧ s.databases[s.databaseIndex cl.selectedDb]? = some db ∧
      p.run (s.dbState db) = some (r, ds) ∧
      t = { s with
        databases := s.databases.set (s.databaseIndex cl.selectedDb) ds.db, env := ds.toEnv, clients := clients } ∧
      ∀ i cl', s.clients.lookup i = some cl' → ∃ flags, clients.lookup i = some { cl' with flags := flags } := by
  unfold onDatabase
  rw [Program.post_bind, post_client]
  intro cl hcl
  simp only [Program.post_bind, Program.post_read]
  refine (post_onDatabaseAt _ p s _).mpr fun db hdb r ds hrun t ht => ?_
  obtain ⟨clients, hclients, hkept⟩ := flagDirty_kept _ ht
  exact ⟨cl, db, ds, clients, hcl, hdb, hrun, hclients, hkept⟩

theorem ends_onDatabase {id : ClientId} {cl : Client} (hs : s.WatchersThere) (hcl : s.clients.lookup id = some cl)
    (hdb : s.databases[s.databaseIndex cl.selectedDb]? = some db) (hp : p.Ends (s.dbState db) Q) :
    (onDatabase p : EffectM S k (some id) Exn α).Ends s fun a t => ∃ ds,
      p.run (s.dbState db) = some (.ok a, ds) ∧ Q a ds ∧ AfterDatabase (s.databaseIndex cl.selectedDb) ds s t := by
  have hclient : (client id : EffectM S k (some id) Exn Client).run s = some (.ok cl, s) := by
    show ((s.clients.lookup id).map (·, s)).map _ = _
    rw [hcl]
    rfl
  refine Program.ends_bind_of_run hclient ?_
  exact Program.ends_bind_of_run rfl (ends_onDatabaseAt hs hdb hp)

theorem ends_addReply {id : ClientId} {cl : Client} {ε : Type} (data : Bytes) (hcl : s.clients.lookup id = some cl) :
    (addReply data : EffectM S k (some id) ε Unit).Ends s fun _ t =>
      t = { s with clients := s.clients.insert id (cl.addReply data) }.note (.reply id data) := by
  refine ⟨(), _, ?_, rfl⟩
  show ((s.addReply id data).map ((), ·)).map _ = _
  rw [Server.addReply, updateClient, hcl]
  rfl

/-- The reply to what has been done to a database. -/
theorem ends_addReply_after {id : ClientId} {cl : Client} {ε : Type} {i : ℕ} {ds : DbState S} {t : Server S}
    (data : Bytes) (hcl : s.clients.lookup id = some cl) (h : AfterDatabase i ds s t) :
    (addReply data : EffectM S k (some id) ε Unit).Ends t fun _ u => Replied id data i ds.db s u := by
  -- the client is still there, with other flags perhaps
  obtain ⟨flags, hflags⟩ := h.clients id cl hcl
  obtain ⟨clients, heq⟩ := h.eq
  refine (ends_addReply data hflags).mono fun _ u hu => ?_
  subst hu
  refine ⟨?_, fun cl' hcl' => ?_, ?_, fun d hd key watchers hwatch i hi => ?_⟩
  · show t.databases = _
    rw [heq]
  · obtain rfl := Option.some.inj (hcl.symm.trans hcl')
    exact ⟨_, AList.lookup_insert _, rfl, rfl⟩
  · show t.blockedClients = _
    rw [heq]
  · obtain ⟨cl', hcl'⟩ := h.watchersThere d hd key watchers hwatch i hi
    show ∃ cl', (t.clients.insert id _).lookup i = some cl'
    rw [UnorderedMap.lookup_insert_eq_ite]
    split
    · exact ⟨_, rfl⟩
    · exact ⟨cl', hcl'⟩

end EffectM

end RedisDb

import RedisDb.Server.Runs

/-!
# Who refers to whom

The server refers to its clients from six tables, and every client keeps a record of the tables it is in, by which
`closeClient` takes it out of them. `Server.Consistent` says that tables and records agree: a reference is to a client
that is there and whose record says so. It is an invariant of every run (`Visited.consistent`) in which two things do
not happen: a replica is not made a replica once more, and a client that waits for keys does not block again and leave
one of them out.

`Tables.Agree` is the part about one state. Every step that touches a table changes the record of one client with it,
and takes references to others away at most, so there is one lemma for such steps (`Agree.update`), and what has to be
seen of each step is the entry that it makes or removes. `closeClient` goes through the record of its client and
undoes the entries that the record names: since the tables and the record agree these are all there are
(`agree_closeClient`). The proof follows its loops, and after each of them says which kinds of references the client
can still own.

The invariant takes a set `kinds` of references, for a defect of one table does not spoil the others.

* `blockedClients_iff`: the table of blocked clients is exactly what the clients' lists of keys say.
* `no_dangling_reference`: no table refers to a client that has been removed.

The two things that must not happen do happen in runs of the code: `blockedClients_drift` and `dangling_replica` are
the runs.
-/

namespace RedisDb

variable {S : Type}

/-! ### Tables and records agree -/

/-- The references of some kinds are backed by the records of the clients, and the table of blocked
clients has all that the records say. -/
structure Tables.Agree (kinds : Ref → Prop) (T : Tables) : Prop where
  /-- A reference is to a client that is there, and its own record says so. -/
  backed : ∀ {id ref}, kinds ref → T.Refers id ref → ∃ r, T.records id = some r ∧ r.Owns ref
  /-- A client that is still to come is not there. -/
  fresh : ∀ {id r}, T.records id = some r → id < T.nextClient
  nodup : kinds .replica → T.replicas.Nodup
  covers : ∀ {id r key}, T.records id = some r → r.Owns (.blocked key) → T.Refers id (.blocked key)
  proper : T.blockedClients.Proper

namespace Tables.Agree

variable {kinds : Ref → Prop} {T T' : Tables} {id : ClientId} {r r' : Record}

/-- **One client at a time**: a step that changes the record of one client, and the references to no
other client than by taking some away. -/
theorem update (h : T.Agree kinds) (hr : T.records id = some r)
    (hrecords : T'.records = Function.update T.records id (some r'))
    (hnext : T'.nextClient = T.nextClient)
    (hother : ∀ i ref, i ≠ id → T'.Refers i ref → T.Refers i ref)
    (hown : ∀ ref, kinds ref → (T.Refers id ref → r.Owns ref) → T'.Refers id ref → r'.Owns ref)
    (hnodup : kinds .replica → T'.replicas.Nodup)
    (hcovers : ∀ i key, i ≠ id → T.Refers i (.blocked key) → T'.Refers i (.blocked key))
    (hcover : ∀ key, (r.Owns (.blocked key) → T.Refers id (.blocked key)) →
      r'.Owns (.blocked key) → T'.Refers id (.blocked key))
    (hproper : T'.blockedClients.Proper) : T'.Agree kinds where
  backed {i ref} hkind href := by
    rw [hrecords, Function.update_apply]
    -- a reference to this client is backed by its new record, every other one by the record it had
    by_cases hi : i = id
    · subst hi
      refine ⟨r', if_pos rfl, hown ref hkind (fun href => ?_) href⟩
      obtain ⟨r₁, hr₁, howns⟩ := h.backed hkind href
      rwa [Option.some.inj (hr₁.symm.trans hr)] at howns
    · rw [if_neg hi]
      exact h.backed hkind (hother i ref hi href)
  fresh {i r₁} hi := by
    rw [hnext]
    rw [hrecords, Function.update_apply] at hi
    split at hi
    · next heq => exact heq ▸ h.fresh hr
    · exact h.fresh hi
  nodup := hnodup
  covers {i r₁ key} hi howns := by
    rw [hrecords, Function.update_apply] at hi
    split at hi
    · next heq =>
      subst heq
      obtain rfl := Option.some.inj hi
      exact hcover key (h.covers hr) howns
    · next hne => exact hcovers i key hne (h.covers hi howns)
  proper := hproper

/-- Taking references away that no record of blocking needs. -/
theorem mono (h : T.Agree kinds) (hrecords : T'.records = T.records)
    (hnext : T'.nextClient = T.nextClient) (hrefers : ∀ i ref, T'.Refers i ref → T.Refers i ref)
    (hnodup : kinds .replica → T'.replicas.Nodup) (hblocked : T'.blockedClients = T.blockedClients) :
    T'.Agree kinds where
  backed hkind href := by rw [hrecords]; exact h.backed hkind (hrefers _ _ href)
  fresh hi := by rw [hrecords] at hi; rw [hnext]; exact h.fresh hi
  nodup := hnodup
  covers {i r₁ key} hi howns := by
    rw [hrecords] at hi
    show i ∈ T'.blockedClients.valuesAt key
    rw [hblocked]
    exact h.covers hi howns
  proper := hblocked ▸ h.proper

/-- The same tables. -/
theorem of_eq (h : T.Agree kinds) (heq : T' = T) : T'.Agree kinds := heq ▸ h

/-- The connection to the master, which is there. -/
theorem linkMaster (h : T.Agree kinds) (hr : T.records id = some r)
    (hT : T' = { T with masterClient := some id }) : T'.Agree kinds := by
  subst hT
  refine ⟨fun {i ref} hkind href => ?_, h.fresh, h.nodup, h.covers, h.proper⟩
  cases ref with
  | master =>
    obtain rfl := Option.some.inj href
    exact ⟨r, hr, trivial⟩
  | _ => exact h.backed hkind href

end Tables.Agree

namespace Server

variable {kinds : Ref → Prop} {s t : Server S} {id : ClientId}

/-! ### Subscribing -/

/-- The record of a client that is there. -/
theorem records_of_lookup {cl : Client} (h : s.clients.lookup id = some cl) :
    s.tables.records id = some cl.record := by simp only [tables, h, Option.map_some]

/-- A subscription is entered in the index and in the record. -/
theorem agree_subscribeChannel {channel : Bytes} (hs : s.tables.Agree kinds)
    (h : s.subscribeChannel id channel = some t) : t.tables.Agree kinds := by
  obtain ⟨cl, hcl, rfl⟩ := Option.map_eq_some_iff.mp h
  split
  · exact hs
  · refine hs.update (records_of_lookup hcl) (congrArg Tables.records (tables_insert rfl)) rfl ?_ ?_
      hs.nodup (fun _ _ _ href => href) (fun _ hcover => hcover) hs.proper
    · -- what refers to others is as before
      intro i ref hi href
      cases ref with
      | channel ch =>
        simp only [Tables.Refers, tables, Index.valuesAt_push] at href ⊢
        split at href
        · next heq => simpa [heq, hi] using href
        · exact href
      | _ => exact href
    · -- the client itself has the channel now
      intro ref _ hown href
      cases ref with
      | channel ch =>
        simp only [Tables.Refers, tables, Index.valuesAt_push] at href
        show ch ∈ cl.pubsubChannels.insert channel ()
        rw [AList.mem_insert]
        split at href
        · next heq => exact .inl heq
        · exact .inr (hown href)
      | _ => exact hown href

/-- The same of a pattern, which the list of patterns has once. -/
theorem agree_psubscribePattern {pattern : Bytes} (hs : s.tables.Agree kinds)
    (h : s.psubscribePattern id pattern = some t) : t.tables.Agree kinds := by
  obtain ⟨cl, hcl, rfl⟩ := Option.map_eq_some_iff.mp h
  split
  · exact hs
  · refine hs.update (records_of_lookup hcl) (congrArg Tables.records (tables_insert rfl)) rfl ?_ ?_
      hs.nodup (fun _ _ _ href => href) (fun _ hcover => hcover) hs.proper
    · -- what refers to others is as before
      intro i ref hi href
      cases ref with
      | pattern p =>
        rcases List.mem_append.mp href with href | href
        · exact href
        · exact absurd (Prod.mk.inj (List.mem_singleton.mp href)).2 hi
      | _ => exact href
    · -- the client itself has the pattern now
      intro ref _ hown href
      cases ref with
      | pattern p =>
        show p ∈ cl.pubsubPatterns.insert pattern ()
        rw [AList.mem_insert]
        rcases List.mem_append.mp href with href | href
        · exact .inr (hown href)
        · exact .inl (Prod.mk.inj (List.mem_singleton.mp href)).1
      | _ => exact hown href

/-- It is taken out of both. -/
theorem agree_unsubscribeChannel {channel : Bytes} (hs : s.tables.Agree kinds)
    (h : s.unsubscribeChannel id channel = some t) : t.tables.Agree kinds := by
  obtain ⟨cl, hcl, rfl⟩ := Option.map_eq_some_iff.mp h
  split
  · -- one reference goes, that of the client to the channel, and no other
    have hsub (i : ClientId) (ch : Bytes)
        (href : i ∈ (s.pubsubChannels.remove channel id).valuesAt ch) :
        i ∈ s.pubsubChannels.valuesAt ch ∧ (ch = channel → i ≠ id) := by
      rw [Index.valuesAt_remove] at href
      split at href
      · next heq => simpa [heq] using href
      · next hne => exact ⟨href, fun heq => absurd heq hne⟩
    refine hs.update (records_of_lookup hcl) (congrArg Tables.records (tables_insert rfl)) rfl ?_ ?_
      hs.nodup (fun _ _ _ href => href) (fun _ hcover => hcover) hs.proper
    · intro i ref hi href
      cases ref with
      | channel ch => exact (hsub i ch href).1
      | _ => exact href
    · intro ref _ hown href
      cases ref with
      | channel ch =>
        obtain ⟨hmem, hne⟩ := hsub id ch href
        show ch ∈ cl.pubsubChannels.erase channel
        exact AList.mem_erase.mpr ⟨fun heq => hne heq rfl, hown hmem⟩
      | _ => exact hown href
  · exact hs

/-- The same of a pattern. -/
theorem agree_punsubscribePattern {pattern : Bytes} (hs : s.tables.Agree kinds)
    (h : s.punsubscribePattern id pattern = some t) : t.tables.Agree kinds := by
  obtain ⟨cl, hcl, rfl⟩ := Option.map_eq_some_iff.mp h
  split
  · refine hs.update (records_of_lookup hcl) (congrArg Tables.records (tables_insert rfl)) rfl ?_ ?_
      hs.nodup (fun _ _ _ href => href) (fun _ hcover => hcover) hs.proper
    · intro i ref hi href
      cases ref with
      | pattern p => exact List.mem_of_mem_filter href
      | _ => exact href
    · intro ref _ hown href
      cases ref with
      | pattern p =>
        -- the reference of the client to the pattern is gone
        obtain ⟨hmem, hne⟩ := List.mem_filter.mp href
        show p ∈ cl.pubsubPatterns.erase pattern
        refine AList.mem_erase.mpr ⟨fun heq => ?_, hown hmem⟩
        simp [heq] at hne
      | _ => exact hown href
  · exact hs

/-! ### Watching -/

/-- Only one database is changed, and only by one entry. -/
theorem watched_watch {i : ℕ} {key : Bytes} (h : s.watch id i key = some t) {j : ClientId} {k : Bytes}
    (href : Watched t.tables.watchedKeys j k) : Watched s.tables.watchedKeys j k ∨ j = id ∧ k = key := by
  obtain ⟨db, hdb, h⟩ := Option.bind_eq_some_iff.mp h
  obtain ⟨cl, hcl, rfl⟩ := Option.map_eq_some_iff.mp h
  have hmem : db.watchedKeys ∈ s.databases.map Database.watchedKeys :=
    List.mem_map_of_mem (List.mem_of_getElem? hdb)
  obtain ⟨watchers, hw, href⟩ := href
  replace hw : watchers ∈ (s.databases.set i
    ((s.dbState db).addWatchedKey key id).db).map Database.watchedKeys := hw
  rw [List.map_set] at hw
  rcases List.mem_or_eq_of_mem_set hw with hw | rfl
  · exact .inl ⟨watchers, hw, href⟩
  · -- only the table of the database of the key is other
    have hpush : ((s.dbState db).addWatchedKey key id).db.watchedKeys
        = Index.push db.watchedKeys key id := rfl
    rw [hpush, Index.valuesAt_push] at href
    split at href
    · next heq =>
      rcases List.mem_append.mp href with href | href
      · exact .inl ⟨_, hmem, heq ▸ href⟩
      · exact .inr ⟨List.mem_singleton.mp href, heq⟩
    · exact .inl ⟨_, hmem, href⟩

/-- A watch is entered in the database and in the record. -/
theorem agree_watch {i : ℕ} {key : Bytes} (hs : s.tables.Agree kinds)
    (h : s.watch id i key = some t) : t.tables.Agree kinds := by
  -- one reference is new, and the client has the key
  have hsub {j : ClientId} {k : Bytes} (href : Watched t.tables.watchedKeys j k) := watched_watch h href
  obtain ⟨db, hdb, h⟩ := Option.bind_eq_some_iff.mp h
  obtain ⟨cl, hcl, rfl⟩ := Option.map_eq_some_iff.mp h
  refine hs.update (records_of_lookup hcl) (congrArg Tables.records (tables_insert rfl)) rfl ?_ ?_
    hs.nodup (fun _ _ _ href => href) (fun _ hcover => hcover) hs.proper
  · intro j ref hj href
    cases ref with
    | watched k =>
      rcases hsub href with href | ⟨heq, -⟩
      · exact href
      · exact absurd heq hj
    | _ => exact href
  · intro ref _ hown href
    cases ref with
    | watched k =>
      show k ∈ cl.watchedKeys.insert key ()
      rw [AList.mem_insert]
      rcases hsub href with href | ⟨-, heq⟩
      · exact .inr (hown href)
      · exact .inl heq
    | _ => exact hown href

/-- One key is no longer watched by the client. -/
theorem watchedKeys_removeWatchedKey (ds : DbState S) (key : Bytes) (id : ClientId) :
    (ds.removeWatchedKey key id).db.watchedKeys = Index.remove ds.db.watchedKeys key id := by
  unfold DbState.removeWatchedKey
  split
  · next hk => exact (Index.remove_of_none hk id).symm
  · next clients hk =>
    rw [Index.remove_of_some hk]
    dsimp only
    split <;> rfl

/-- Nor are any of these. By induction on the keys. -/
theorem watchedKeys_forgetWatched (id : ClientId) (keys : List Bytes) : ∀ ds : DbState S,
    (forgetWatched id keys ds).db.watchedKeys = Index.removeAll ds.db.watchedKeys keys id := by
  induction keys with
  | nil => exact fun _ => rfl
  | cons key keys ih =>
    intro ds
    show (forgetWatched id keys (ds.removeWatchedKey key id)).db.watchedKeys
      = Index.removeAll (Index.remove ds.db.watchedKeys key id) keys id
    rw [ih, watchedKeys_removeWatchedKey]

/-- A client that does not watch any more is taken out of every database, at the keys of its own record. -/
theorem watched_unwatch (h : s.unwatch id = some t) {j : ClientId} {k : Bytes}
    (href : Watched t.tables.watchedKeys j k) : Watched s.tables.watchedKeys j k ∧
      ∀ cl, s.clients.lookup id = some cl → k ∈ cl.watchedKeys → j ≠ id := by
  obtain ⟨cl, hcl, rfl⟩ := Option.map_eq_some_iff.mp h
  obtain ⟨watchers, hw, href⟩ := href
  replace hw : watchers ∈ (s.databases.map fun db =>
    (forgetWatched id cl.watchedKeys.keys (s.dbState db)).db).map Database.watchedKeys := hw
  rw [List.map_map] at hw
  obtain ⟨db, hdb, rfl⟩ := List.mem_map.mp hw
  rw [Function.comp_apply, watchedKeys_forgetWatched, Index.valuesAt_removeAll] at href
  split at href
  · obtain ⟨hmem, hne⟩ := List.mem_filter.mp href
    exact ⟨⟨_, List.mem_map_of_mem hdb, hmem⟩, fun _ _ _ => of_decide_eq_true hne⟩
  · next hk =>
    refine ⟨⟨_, List.mem_map_of_mem hdb, href⟩, fun cl' hcl' hk' => absurd ?_ hk⟩
    exact Option.some.inj (hcl.symm.trans hcl') ▸ hk'

/-- All watches of the client are taken out. -/
theorem agree_unwatch (hs : s.tables.Agree kinds) (h : s.unwatch id = some t) :
    t.tables.Agree kinds := by
  have hsub {j : ClientId} {k : Bytes} (href : Watched t.tables.watchedKeys j k) := watched_unwatch h href
  obtain ⟨cl, hcl, rfl⟩ := Option.map_eq_some_iff.mp h
  refine hs.update (records_of_lookup hcl) (congrArg Tables.records (tables_insert rfl)) rfl ?_ ?_
    hs.nodup (fun _ _ _ href => href) (fun _ hcover => hcover) hs.proper
  · intro j ref hj href
    cases ref with
    | watched k => exact (hsub href).1
    | _ => exact href
  · intro ref _ hown href
    cases ref with
    | watched k =>
      obtain ⟨hmem, hne⟩ := hsub href
      exact absurd rfl (hne cl hcl (hown hmem))
    | _ => exact hown href

/-! ### Blocking -/

/-- A client blocks, and leaves no key on which it was waiting. -/
theorem agree_blockClient {keys : List Bytes} {timeout : ℤ} {cmd : RespValue} {target : Bytes}
    (hs : s.tables.Agree kinds) (h : s.blockClient id keys timeout cmd target = some t)
    (hleft : ∀ left, .blocked id cmd left ∈ t.trace → ∀ key ∈ left, ¬kinds (.blocked key)) :
    t.tables.Agree kinds := by
  obtain ⟨cl, deadline, env, hcl, rfl⟩ := blockClient_spec h
  refine hs.update (records_of_lookup hcl) (congrArg Tables.records (tables_insert rfl)) rfl
    ?_ ?_ hs.nodup ?_ ?_ (hs.proper.pushAll keys id)
  · -- the entries added are those of this client
    intro i ref hi href
    cases ref with
    | blocked key =>
      rcases Index.mem_valuesAt_pushAll.mp href with href | ⟨heq, -⟩
      · exact href
      · exact absurd heq hi
    | _ => exact href
  · intro ref hkind hown href
    cases ref with
    | blocked key =>
      refine ⟨by simp [Client.record, Client.hasFlag, Client.setFlag], ?_⟩
      rcases Index.mem_valuesAt_pushAll.mp href with href | ⟨-, hkey⟩
      · -- an entry of an earlier wait that the new list of keys leaves out would be left behind, and the
        -- trace says so
        have hold : key ∈ cl.blockedKeys := (hown href).2
        by_contra hne
        exact hleft (cl.blockedKeys.filter (· ∉ keys))
          (List.mem_append_right _ (List.mem_singleton_self _)) key
          (List.mem_filter.mpr ⟨hold, decide_eq_true hne⟩) hkind
      · exact hkey
    | replica =>
      -- waiting does not change whether the client is a replica
      show (cl.setFlag .blocked).hasFlag .slave = true
      rw [Client.hasFlag_setFlag, if_neg (by decide)]
      exact hown href
    | _ => exact hown href
  · exact fun i key _ href => Index.mem_valuesAt_pushAll.mpr (.inl href)
  · exact fun key _ howns => Index.mem_valuesAt_pushAll.mpr (.inr ⟨rfl, howns.2⟩)

/-- A client that waits no longer is taken out at all keys of its record. -/
theorem agree_unblockClient (hs : s.tables.Agree kinds) (h : s.unblockClient id = some t) :
    t.tables.Agree kinds := by
  obtain ⟨cl, hcl, rfl⟩ := Option.map_eq_some_iff.mp h
  split
  · refine hs.update (records_of_lookup hcl) (congrArg Tables.records (tables_insert rfl)) rfl
      ?_ ?_ hs.nodup ?_ ?_ (hs.proper.removeAll cl.blockedKeys id)
    · -- every key of the client goes, and the others stay where they are
      intro i ref hi href
      cases ref with
      | blocked key => exact (Index.mem_valuesAt_removeAll.mp href).1
      | _ => exact href
    · intro ref _ hown href
      cases ref with
      | blocked key =>
        obtain ⟨hmem, hne⟩ := Index.mem_valuesAt_removeAll.mp href
        exact absurd rfl (hne (hown hmem).2)
      | replica =>
        -- to be blocked and to be a replica are two flags
        show cl.clearBlockState.hasFlag .slave = true
        rw [Client.clearBlockState, Client.hasFlag_clearFlag, if_neg (by decide)]
        exact hown href
      | _ => exact hown href
    · exact fun i key hi href => Index.mem_valuesAt_removeAll.mpr ⟨href, fun _ => hi⟩
    · intro key _ howns
      exact absurd howns.2 (List.not_mem_nil)
  · exact hs

/-! ### Replicas -/

/-- A replica is entered once, unless it has been one before. -/
theorem agree_addReplica (hs : s.tables.Agree kinds) (h : s.addReplica id = some t)
    (hagain : ∀ again, .attached id again ∈ t.trace → kinds .replica → again = false) :
    t.tables.Agree kinds := by
  obtain ⟨u, hu, rfl⟩ := Option.map_eq_some_iff.mp h
  obtain ⟨cl, hcl, rfl⟩ := Option.map_eq_some_iff.mp hu
  refine hs.update (records_of_lookup hcl) (congrArg Tables.records (tables_insert rfl)) rfl
    ?_ ?_ ?_ (fun _ _ _ href => href) ?_ hs.proper
  · -- the one entry added is this client's
    intro i ref hi href
    cases ref with
    | replica =>
      rcases List.mem_append.mp href with href | href
      · exact href
      · exact absurd (List.mem_singleton.mp href) hi
    | _ => exact href
  · intro ref _ hown href
    cases ref with
    | replica =>
      show (cl.setFlag .slave).hasFlag .slave = true
      rw [Client.hasFlag_setFlag, if_pos rfl]
    | blocked key =>
      refine ⟨?_, (hown href).2⟩
      show (cl.setFlag .slave).hasFlag .blocked = true
      rw [Client.hasFlag_setFlag, if_neg (by decide)]
      exact (hown href).1
    | _ => exact hown href
  · -- the list has no repetition, as the trace says that this client was not on it
    intro hkind
    have hnew : id ∉ s.replicas :=
      of_decide_eq_false (hagain (id ∈ s.replicas)
        (List.mem_append_right _ (List.mem_singleton_self _)) hkind)
    exact List.Nodup.append (hs.nodup hkind) (List.nodup_singleton id)
      (by simpa [List.disjoint_singleton] using hnew)
  · intro key hcover howns
    refine hcover ⟨?_, howns.2⟩
    have hblocked : (cl.setFlag .slave).hasFlag .blocked = true := howns.1
    rwa [Client.hasFlag_setFlag, if_neg (by decide)] at hblocked

/-! ### Disconnecting -/

/-- The patterns of a client are filtered out. By induction on its record. -/
theorem mem_foldl_filter_patterns (keys : List Bytes) (p : Bytes × ClientId) :
    ∀ patterns : List (Bytes × ClientId),
    p ∈ keys.foldl (fun patterns pattern => patterns.filter (· ≠ (pattern, id))) patterns ↔
      p ∈ patterns ∧ (p.1 ∈ keys → p.2 ≠ id) := by
  induction keys with
  | nil => simp
  | cons key keys ih =>
    intro patterns
    obtain ⟨q, j⟩ := p
    rw [List.foldl_cons, ih, List.mem_filter, decide_eq_true_eq, List.mem_cons, and_assoc, ne_eq,
      Prod.mk.injEq]
    refine and_congr_right fun _ => ?_
    by_cases hq : q = key <;> by_cases hj : j = id <;> simp [hq, hj]

/-- The subscriptions of a client are taken out, both kinds. -/
theorem agree_closeSubscriptions {cl : Client} (hs : s.tables.Agree kinds)
    (hcl : s.clients.lookup id = some cl) : (s.closeSubscriptions id cl).tables.Agree kinds := by
  refine hs.update (records_of_lookup hcl) (congrArg Tables.records (tables_insert rfl)) rfl
    ?_ ?_ hs.nodup (fun _ _ _ href => href) (fun _ hcover => hcover) hs.proper
  · intro i ref hi href
    cases ref with
    | channel ch => exact (Index.mem_valuesAt_removeAll.mp href).1
    | pattern p => exact ((mem_foldl_filter_patterns _ _ _).mp href).1
    | _ => exact href
  · intro ref _ hown href
    cases ref with
    | channel ch =>
      obtain ⟨hmem, hne⟩ := Index.mem_valuesAt_removeAll.mp href
      exact absurd rfl (hne (AList.mem_keys.mpr (hown hmem)))
    | pattern p =>
      obtain ⟨hmem, hne⟩ := (mem_foldl_filter_patterns _ _ _).mp href
      exact absurd rfl (hne (AList.mem_keys.mpr (hown hmem)))
    | _ => exact hown href

/-- A replica is taken out of the list once, and the link is forgotten. -/
theorem tables_closeReplication (id : ClientId) (cl : Client) (s : Server S) :
    (s.closeReplication id cl).tables = { s.tables with
      replicas := if cl.hasFlag .slave then s.replicas.erase id else s.replicas
      masterClient := if s.masterClient = some id then none else s.masterClient } := by
  unfold closeReplication
  by_cases hslave : cl.hasFlag .slave <;> by_cases hmaster : s.masterClient = some id <;>
    simp [tables, hslave, hmaster, removeReplica]

/-- The record of a client says that a table refers to it. -/
def Owns (id : ClientId) (ref : Ref) (s : Server S) : Prop :=
  ∃ cl, s.clients.lookup id = some cl ∧ cl.record.Owns ref

/-- A reference is backed by a record. -/
theorem owns_of_refers (hs : s.tables.Agree kinds) {ref : Ref} (hkind : kinds ref)
    (h : s.tables.Refers id ref) : s.Owns id ref := by
  obtain ⟨r, hr, howns⟩ := hs.backed hkind h
  obtain ⟨cl, hcl, rfl⟩ := Option.map_eq_some_iff.mp hr
  exact ⟨cl, hcl, howns⟩

/-- The record of a client that has just been put back. -/
theorem owns_insert {cl : Client} {ref : Ref}
    (h : { s with clients := s.clients.insert id cl }.Owns id ref) : cl.record.Owns ref := by
  obtain ⟨cl', hcl', howns⟩ := h
  rw [UnorderedMap.lookup_insert_eq_ite, if_pos rfl] at hcl'
  exact Option.some.inj hcl' ▸ howns

/-- After the first loop it owns no subscription. -/
theorem owns_closeSubscriptions {cl : Client} {ref : Ref} (hcl : s.clients.lookup id = some cl)
    (h : (s.closeSubscriptions id cl).Owns id ref) :
    s.Owns id ref ∧ (∀ ch, ref ≠ .channel ch) ∧ ∀ p, ref ≠ .pattern p := by
  have howns := owns_insert (s := s) h
  cases ref with
  | channel ch | pattern p => exact absurd howns (List.not_mem_nil)
  | blocked key | watched key | replica | master => exact ⟨⟨cl, hcl, howns⟩, nofun, nofun⟩

/-- After the second it waits for no key. -/
theorem owns_unblockClient {ref : Ref} (hu : s.unblockClient id = some t) (h : t.Owns id ref) :
    s.Owns id ref ∧ ∀ key, ref ≠ .blocked key := by
  obtain ⟨cl, hcl, rfl⟩ := Option.map_eq_some_iff.mp hu
  split at h
  · -- the keys are cleared, and nothing else
    have howns := owns_insert (s := s) h
    cases ref with
    | blocked key => exact absurd howns.2 (List.not_mem_nil)
    | replica =>
      refine ⟨⟨cl, hcl, ?_⟩, nofun⟩
      have hslave : cl.clearBlockState.hasFlag .slave = true := howns
      rwa [Client.clearBlockState, Client.hasFlag_clearFlag, if_neg (by decide)] at hslave
    | channel ch | pattern p | watched key | master => exact ⟨⟨cl, hcl, howns⟩, nofun⟩
  · next hblocked =>
    refine ⟨h, fun key hkey => hblocked ?_⟩
    obtain ⟨cl', hcl', howns⟩ := h
    rw [hkey] at howns
    obtain rfl := Option.some.inj (hcl.symm.trans hcl')
    exact howns.1

/-- After the third it watches none. -/
theorem owns_unwatch {ref : Ref} (hu : s.unwatch id = some t) (h : t.Owns id ref) :
    s.Owns id ref ∧ ∀ key, ref ≠ .watched key := by
  obtain ⟨cl, hcl, rfl⟩ := Option.map_eq_some_iff.mp hu
  have howns := owns_insert (s := s) h
  cases ref with
  | watched key => exact absurd howns (List.not_mem_nil)
  | channel ch | pattern p | blocked key | replica | master => exact ⟨⟨cl, hcl, howns⟩, nofun⟩

/-- **A client that is closed leaves no reference behind**, of the kinds on which the tables and the
records agree. -/
theorem agree_closeClient (hs : s.tables.Agree kinds) (h : s.closeClient id = some t) :
    t.tables.Agree kinds ∧ ∀ ref, kinds ref → ¬t.tables.Refers id ref := by
  obtain ⟨cl, hcl, h⟩ := Option.bind_eq_some_iff.mp h
  obtain ⟨u, hu, h⟩ := Option.bind_eq_some_iff.mp h
  obtain ⟨v, hv, h⟩ := Option.bind_eq_some_iff.mp h
  obtain rfl := Option.some.inj h
  have hagree : v.tables.Agree kinds :=
    agree_unwatch (agree_unblockClient (agree_closeSubscriptions hs hcl) hu) hv
  -- the three loops leave only the references that concern replication
  have hleft {ref : Ref} (hkind : kinds ref) (href : v.tables.Refers id ref) :
      ref = .master ∨ ref = .replica ∧ cl.hasFlag .slave = true := by
    obtain ⟨howns, hwatched⟩ := owns_unwatch hv (owns_of_refers hagree hkind href)
    obtain ⟨howns, hblocked⟩ := owns_unblockClient hu howns
    obtain ⟨⟨cl', hcl', howns⟩, hchannel, hpattern⟩ := owns_closeSubscriptions hcl howns
    obtain rfl := Option.some.inj (hcl.symm.trans hcl')
    cases ref with
    -- what the loops have taken out
    | channel ch => exact absurd rfl (hchannel ch)
    | pattern p => exact absurd rfl (hpattern p)
    | blocked key => exact absurd rfl (hblocked key)
    | watched key => exact absurd rfl (hwatched key)
    | replica => exact .inr ⟨rfl, howns⟩
    | master => exact .inl rfl
  rw [tables_closeReplication]
  constructor
  · -- the tables shrink, so what they list is still backed
    refine hagree.mono rfl rfl ?_ ?_ rfl
    · intro i ref href
      cases ref with
      | replica =>
        have hmem : i ∈ (if cl.hasFlag .slave then v.replicas.erase id else v.replicas) := href
        split at hmem
        · exact List.mem_of_mem_erase hmem
        · exact hmem
      | master =>
        have hmaster : (if v.masterClient = some id then none else v.masterClient) = some i := href
        split at hmaster
        · cases hmaster
        · exact hmaster
      | channel ch | pattern p | blocked key | watched key => exact href
    · intro hkind
      dsimp only
      split
      · exact (hagree.nodup hkind).erase id
      · exact hagree.nodup hkind
  · -- and nothing refers to the client any more: one entry is erased, and there was only one
    intro ref hkind href
    cases ref with
    | channel ch | pattern p | blocked key | watched key => simpa using hleft hkind href
    | replica =>
      have hmem : id ∈ (if cl.hasFlag .slave then v.replicas.erase id else v.replicas) := href
      split at hmem
      · exact (hagree.nodup hkind).not_mem_erase hmem
      · next hslave => simpa [hslave] using hleft hkind hmem
    | master =>
      have hmaster : (if v.masterClient = some id then none else v.masterClient) = some id := href
      split at hmaster
      · cases hmaster
      · next hne => exact hne hmaster

/-- A client without references can be taken out. -/
theorem agree_erase (hs : s.tables.Agree kinds) (hno : ∀ ref, kinds ref → ¬s.tables.Refers id ref) :
    { s with clients := s.clients.erase id }.tables.Agree kinds where
  backed {i ref} hkind href := by
    -- who is removed is referred to by nothing
    have hi : i ≠ id := fun heq => hno ref hkind (heq ▸ href)
    obtain ⟨cl, hcl, howns⟩ := owns_of_refers hs hkind href
    refine ⟨cl.record, ?_, howns⟩
    simp only [tables, UnorderedMap.lookup_erase_eq_ite, if_neg hi, hcl, Option.map_some]
  fresh {i r} hr := by
    obtain ⟨cl, hcl, -⟩ := Option.map_eq_some_iff.mp hr
    rw [UnorderedMap.lookup_erase_eq_ite] at hcl
    split at hcl
    · cases hcl
    · exact hs.fresh (records_of_lookup hcl)
  nodup := hs.nodup
  covers {i r key} hr howns := by
    obtain ⟨cl, hcl, rfl⟩ := Option.map_eq_some_iff.mp hr
    rw [UnorderedMap.lookup_erase_eq_ite] at hcl
    split at hcl
    · cases hcl
    · exact hs.covers (records_of_lookup hcl) howns
  proper := hs.proper

/-! ### Runs -/

/-- The tables and the records agree on references of some kinds. Where that is on all kinds, a client
that was removed had no reference left behind. -/
structure Consistent (kinds : Ref → Prop) (s : Server S) : Prop where
  agree : s.tables.Agree kinds
  removed : (∀ ref, kinds ref) → ∀ id referred, .removed id referred ∈ s.trace → referred = false

end Server

/-- The events that keep references of some kinds consistent: a client that is a replica already is
not made one again, and a client does not stop waiting for a key by blocking on others. -/
def Event.Keeps (kinds : Ref → Prop) : Event → Prop
  | .attached _ again => kinds .replica → again = false
  | .blocked _ _ left => ∀ key ∈ left, ¬kinds (.blocked key)
  | _ => True

/-- The same, of all kinds, as a test. -/
def Event.leavesNone : Event → Bool
  | .attached _ again => !again
  | .blocked _ _ left => left.isEmpty
  | _ => true

namespace Server

variable {kinds : Ref → Prop} {s t : Server S} {id : ClientId}

/-- A step that leaves tables and records alone. -/
theorem Consistent.quiet (hs : s.Consistent kinds) (h : Quiet s t) : t.Consistent kinds where
  agree := h.tables ▸ hs.agree
  removed hall id referred hmem := by
    obtain ⟨es, hes, hquiet⟩ := h.trace
    rw [hes] at hmem
    rcases List.mem_append.mp hmem with hmem | hmem
    · exact hs.removed hall id referred hmem
    · exact (hquiet _ hmem).elim

/-- A step that adds nothing to the trace. -/
theorem Consistent.silent (hs : s.Consistent kinds) (ht : t.tables.Agree kinds)
    (htrace : t.trace = s.trace) : t.Consistent kinds where
  agree := ht
  removed := htrace ▸ hs.removed

/-- An event that does not say that a client has been removed. -/
theorem Consistent.note {e : Event} (he : ∀ id referred, e ≠ .removed id referred) (hs : s.Consistent kinds) :
    (s.note e).Consistent kinds where
  agree := hs.agree
  removed hall id referred hmem := by
    rcases List.mem_append.mp hmem with hmem | hmem
    · exact hs.removed hall id referred hmem
    · exact absurd (List.mem_singleton.mp hmem).symm (he id referred)

/-- **A client that is removed** leaves nothing behind, and the trace says so. -/
theorem Consistent.removeClient (hs : s.Consistent kinds) (h : s.removeClient id = some t) :
    t.Consistent kinds := by
  unfold Server.removeClient at h
  split at h
  · exact Option.some.inj h ▸ hs
  · obtain ⟨u, hu, rfl⟩ := Option.map_eq_some_iff.mp h
    obtain ⟨hagree, hno⟩ := agree_closeClient hs.agree hu
    refine ⟨agree_erase hagree hno, fun hall id' referred hmem => ?_⟩
    rcases List.mem_append.mp hmem with hmem | hmem
    · exact hs.removed hall id' referred ((silent_closeClient hu).trace ▸ hmem)
    · obtain ⟨-, rfl⟩ := Event.removed.inj (List.mem_singleton.mp hmem)
      refine Bool.eq_false_of_not_eq_true fun href => ?_
      obtain ⟨ref, href⟩ := refersTo_iff.mp href
      exact hno ref (hall ref) (by cases ref <;> exact href)

/-- A new client owns nothing, since its name is new. -/
theorem agree_makeClient {f : Client → Client} (hs : s.tables.Agree kinds)
    (hf : ∀ cl : Client, (f cl).hasFlag .blocked = cl.hasFlag .blocked) :
    (s.makeClient f).2.tables.Agree kinds := by
  -- the identifier is new, so the records that were there are found as before
  have hne {i : ClientId} {r : Record} (hr : s.tables.records i = some r) : i ≠ s.nextClient :=
    (hs.fresh hr).ne
  have hlookup (i : ClientId) (h : i ≠ s.nextClient) :
      (s.makeClient f).2.tables.records i = s.tables.records i := by
    simp only [tables, makeClient, steadyNow, UnorderedMap.lookup_insert_eq_ite, if_neg h]
  -- every record is an old one or the new client's, which does not wait
  have hcases {i : ClientId} {r : Record} (hr : (s.makeClient f).2.tables.records i = some r) :
      s.tables.records i = some r ∨ i = s.nextClient ∧ r.blocked = false := by
    by_cases hi : i = s.nextClient
    · refine .inr ⟨hi, ?_⟩
      rw [hi] at hr
      simp only [tables, makeClient, steadyNow, UnorderedMap.lookup_insert_eq_ite, if_true,
        Option.map_some, Option.some.injEq] at hr
      rw [← hr]
      exact hf _
    · exact .inl (hlookup i hi ▸ hr)
  exact
    { backed := fun {i ref} hkind href => by
        obtain ⟨r, hr, howns⟩ := @hs.backed i ref hkind (by cases ref <;> exact href)
        exact ⟨r, (hlookup i (hne hr)).trans hr, howns⟩
      fresh := fun {i r} hr => by
        show i < s.nextClient + 1
        rcases hcases hr with hr | ⟨rfl, -⟩
        · exact Nat.lt_succ_of_lt (hs.fresh hr)
        · exact Nat.lt_succ_self _
      nodup := hs.nodup
      covers := fun {i r key} hr howns => by
        rcases hcases hr with hr | ⟨-, hblocked⟩
        · exact hs.covers hr howns
        · exact absurd howns.1 (by simp [hblocked])
      proper := hs.proper }

/-- The link is closed as any client is. -/
theorem Consistent.disconnectFromMaster (hs : s.Consistent kinds)
    (h : s.disconnectFromMaster = some t) : t.Consistent kinds := by
  unfold Server.disconnectFromMaster at h
  split at h
  · exact Option.some.inj h ▸ hs.silent hs.agree rfl
  · split at h
    · cases h
    · obtain ⟨u, hu, rfl⟩ := Option.map_eq_some_iff.mp h
      have hforget : { s with masterClient := none }.Consistent kinds := by
        refine hs.silent (hs.agree.mono rfl rfl (fun i ref href => ?_) hs.agree.nodup rfl) rfl
        cases ref with
        | master => cases href
        | _ => exact href
      have hu := hforget.removeClient hu
      exact hu.silent hu.agree rfl

section Runs

variable [Platform]

/-- **What code does keeps the tables and the records consistent.** One case for each thing that code can do; that of
a command that is logged, and that of a client that is woken, are made of others. -/
theorem Does.consistent {k : Option RespValue} {c : Option ClientId} (h : Does k c s t)
    (hkeeps : ∀ e ∈ t.trace, e.Keeps kinds) (hs : s.Consistent kinds) : t.Consistent kinds := by
  induction h with
  | refl => exact hs
  | trans _ h' ih ih' =>
    exact ih' hkeeps (ih (fun e he => hkeeps e (h'.grows.trace.subset he)) hs)
  | handler _ ih => exact ih hkeeps hs
  | aside h => exact hs.quiet (.aside h)
  | own hcl hsame => exact hs.quiet (.own hcl hsame.record)
  | reply h => exact hs.quiet (.addReply h)
  | deliver h => exact hs.quiet (.deliver h)
  | database hdb hcalls h => exact hs.quiet (.putDatabase hdb hcalls h)
  | scanned hsame _ h => exact hs.quiet (.putDatabases hsame h)
  -- the commands that change a table, each with its lemma
  | watch h => exact hs.silent (agree_watch hs.agree h) (silent_watch h).trace
  | unwatch h => exact hs.silent (agree_unwatch hs.agree h) (silent_unwatch h).trace
  | subscribe h =>
    exact hs.silent (agree_subscribeChannel hs.agree h) (silent_subscribeChannel h).trace
  | unsubscribe h =>
    exact hs.silent (agree_unsubscribeChannel hs.agree h) (silent_unsubscribeChannel h).trace
  | psubscribe h =>
    exact hs.silent (agree_psubscribePattern hs.agree h) (silent_psubscribePattern h).trace
  | punsubscribe h =>
    exact hs.silent (agree_punsubscribePattern hs.agree h) (silent_punsubscribePattern h).trace
  | block _ h =>
    -- the two steps that can break the agreement, unless what the trace notes rules it out
    have hagree := agree_blockClient hs.agree h fun left hmem => hkeeps _ hmem
    obtain ⟨cl, deadline, env, -, rfl⟩ := blockClient_spec h
    exact ⟨hagree, fun hall id referred hmem => hs.removed hall id referred (by simpa [Server.note] using hmem)⟩
  | @unblock _ _ id cl _ _ _ h =>
    exact (hs.silent (agree_unblockClient hs.agree h) (silent_unblockClient h).trace).note
      (e := .woken id cl.blockCmd) fun _ _ heq => by cases heq
  | attach h =>
    have hagree := agree_addReplica hs.agree h fun again hmem => hkeeps _ hmem
    obtain ⟨u, hu, rfl⟩ := Option.map_eq_some_iff.mp h
    obtain ⟨cl, -, rfl⟩ := Option.map_eq_some_iff.mp hu
    exact ⟨hagree, fun hall id referred hmem => hs.removed hall id referred (by simpa [Server.note] using hmem)⟩
  | remove h => exact hs.removeClient h
  | disconnect h => exact hs.disconnectFromMaster h
  | replicate h => exact (hs.quiet (.setMaster _ _ _)).disconnectFromMaster h
  | completed _ h => exact hs.quiet (.complete h)
  | @wake _ _ id cl _ _ u _ h _ ih =>
    have hinstalled := Quiet.installWriteHandler id u
    have hmid := (hs.silent (agree_unblockClient hs.agree h) (silent_unblockClient h).trace).note
      (e := .woken id cl.blockCmd) fun _ _ heq => by cases heq
    exact (ih (fun e he => hkeeps e (hinstalled.grows.trace.subset he)) hmid).quiet hinstalled

/-- **So does a run.** By induction on the run; apart from code that runs, its steps change no table but in that a
client comes or goes. -/
theorem Moves.consistent (h : Moves s t) (hkeeps : ∀ e ∈ t.trace, e.Keeps kinds)
    (hs : s.Consistent kinds) : t.Consistent kinds := by
  induction h with
  | refl => exact hs
  | trans _ h' ih ih' => exact ih' hkeeps (ih (fun e he => hkeeps e (h'.trace_prefix.subset he)) hs)
  | does _ h => exact h.consistent hkeeps hs
  | accepted =>
    unfold addClient
    split
    · exact hs
    · exact hs.silent (agree_makeClient hs.agree fun _ => rfl) rfl
  | linked _ _ =>
    -- the link to the master is a new client, and `masterClient` is set to it
    unfold connectToMaster
    dsimp only
    split
    · exact hs.quiet (.aside {})
    · refine ⟨?_, fun hall id referred hmem => hs.removed hall id referred
        (by simpa [note, makeClient, steadyNow] using hmem)⟩
      have hagree := agree_makeClient (f := fun cl => (cl.setFlag .master).addReply
        (RespSerializer.bulkStringArray [str "PING"])) hs.agree fun cl => by
          rw [Client.hasFlag_addReply, Client.hasFlag_setFlag, if_neg (by decide)]
      exact hagree.linkMaster (records_of_lookup (AList.lookup_insert _)) rfl
  | flushed =>
    unfold flushAof
    split
    · split
      · exact hs.silent hs.agree rfl
      · exact hs.silent hs.agree rfl
    · exact hs.silent hs.agree rfl
  | @timedOut id _ _ h =>
    -- a client that times out is unblocked as by a wakeup
    rcases timeOut_spec h with rfl | ⟨u, scheduled, hquiet, h⟩
    · exact hs
    · have hmid := (hs.quiet hquiet).note (e := .timedOut id scheduled) fun _ _ heq => by cases heq
      exact hmid.silent (agree_unblockClient hmid.agree h) (silent_unblockClient h).trace
  | received _ hcl => exact hs.silent (hs.agree.of_eq (tables_insert_same hcl rfl)) rfl
  | @answered id _ s =>
    split
    · have hinstalled := hs.quiet (.installWriteHandler id s)
      exact hinstalled.silent hinstalled.agree rfl
    · exact hs.silent hs.agree rfl
  | hungUp => exact hs.silent hs.agree rfl
  | taken hcl hsame => exact hs.quiet (.own hcl hsame.record)
  | sent answer hcl => exact hs.quiet (.own hcl (answer.record_apply _))
  | sentAll => exact hs.silent hs.agree rfl

omit [Platform] in
/-- At the start there are neither clients nor references. -/
theorem Starts.consistent (h : s.Starts) : s.Consistent kinds := by
  have hrecords (id : ClientId) : s.tables.records id = none := by
    simp only [tables, h.clients, UnorderedMap.lookup_empty, Option.map_none]
  -- there are no clients and no references
  have hrefers (id : ClientId) (ref : Ref) : ¬s.tables.Refers id ref := by
    cases ref with
    | watched key =>
      rintro ⟨watchers, hw, hid⟩
      obtain ⟨db, hdb, rfl⟩ := List.mem_map.mp hw
      rw [h.watchedKeys db hdb] at hid
      cases hid
    | channel | pattern | blocked | replica | master =>
      simp [Tables.Refers, tables, h.pubsubChannels, h.pubsubPatterns, h.blockedClients, h.replicas,
        h.masterClient]
  constructor
  · exact
      { backed := fun _ href => absurd href (hrefers _ _)
        fresh := fun hr => by simp [hrecords] at hr
        nodup := fun _ => by simp [tables, h.replicas]
        covers := fun hr => by simp [hrecords] at hr
        proper := by
          show s.blockedClients.Proper
          rw [h.blockedClients]
          exact Index.proper_empty }
  · simp [h.trace]

/-- **The invariant of every state that is visited.** -/
theorem Visited.consistent [Double S] [Inhabited S] [LT S] [DecidableLT S] [BEq S]
    {reserve : Reserve} {depth : ℕ} (h : Visited reserve depth s)
    (hkeeps : ∀ e ∈ s.trace, e.Keeps kinds) : s.Consistent kinds := by
  obtain ⟨start, hstart, hmoves⟩ := h.moves
  exact hmoves.consistent hkeeps hstart.consistent

end Runs

/-! ### The table of blocked clients -/

section Blocked

variable [Platform] [Double S] [Inhabited S] [LT S] [DecidableLT S] [BEq S] {reserve : Reserve}
  {depth : ℕ}

/-- **The table of blocked clients is the clients' own lists of keys**, and has no empty entry, as long as no client
has blocked again and left out a key on which it was waiting. This is the invariant `Consistent` for the one table, in
both directions. -/
theorem blockedClients_iff (h : Visited reserve depth s)
    (hblocked : ∀ id cmd key left, .blocked id cmd (key :: left) ∉ s.trace) :
    (∀ id key, id ∈ s.blockedClients.valuesAt key ↔
      ∃ cl, s.clients.lookup id = some cl ∧ cl.hasFlag .blocked ∧ key ∈ cl.blockedKeys) ∧
    s.blockedClients.Proper := by
  have hs : s.Consistent fun ref => ∃ key, ref = .blocked key := by
    refine h.consistent fun e he => ?_
    cases e with
    | attached id again => exact fun ⟨key, heq⟩ => nomatch heq
    | blocked id cmd left =>
      cases left with
      | nil => exact fun key hkey => nomatch hkey
      | cons key left => exact absurd he (hblocked id cmd key left)
    | _ => trivial
  refine ⟨fun id key => ⟨fun hmem => ?_, ?_⟩, hs.agree.proper⟩
  · -- a reference is backed by the record, and a record is covered by the table
    have href : s.tables.Refers id (.blocked key) := hmem
    exact owns_of_refers hs.agree ⟨key, rfl⟩ href
  · rintro ⟨cl, hcl, howns⟩
    exact hs.agree.covers (records_of_lookup hcl) howns

end Blocked

section Sample

open Sample

/-- A client waits for a key. -/
def waiting : List Turn := [.accept, sends 0 ["BLPOP", "k", "0"]]

/-- A client blocks twice within a transaction. -/
def blockedTwice : List Turn :=
  [.accept, sends 0 ["MULTI"], sends 0 ["BLPOP", "a", "0"], sends 0 ["BLPOP", "b", "0"],
    sends 0 ["EXEC"]]

/-- A client that waits is in the table. -/
theorem blockedClients_iff_waiting : ∃ s, ran waiting = some s ∧ ∃ cl,
    s.clients.lookup 0 = some cl ∧ cl.hasFlag .blocked ∧ str "k" ∈ cl.blockedKeys := by
  have hran : (ran waiting).map (fun s => decide (0 ∈ s.blockedClients.valuesAt (str "k")) &&
      s.trace.all Event.leavesNone) = some true := by decide +kernel
  obtain ⟨s, hs, hsample⟩ := Option.map_eq_some_iff.mp hran
  obtain ⟨hmem, htrace⟩ := Bool.and_eq_true_iff.mp hsample
  have hiff := blockedClients_iff (.callback (reachable_ran hs)) fun id cmd key left he =>
    absurd (List.all_eq_true.mp htrace _ he) (by simp [Event.leavesNone])
  exact ⟨s, hs, (hiff.1 0 (str "k")).mp (of_decide_eq_true hmem)⟩

/-- The table still has the first key, and the client does not. -/
theorem blockedClients_drift : ¬∀ s : Server Score, Visited (fun _ => none) 2 s →
    (∀ id key, id ∈ s.blockedClients.valuesAt key ↔
      ∃ cl, s.clients.lookup id = some cl ∧ cl.hasFlag .blocked ∧ key ∈ cl.blockedKeys) ∧
    s.blockedClients.Proper := by
  intro hall
  have hran : (ran blockedTwice).map (fun s => decide (0 ∈ s.blockedClients.valuesAt (str "a")) &&
      ((s.clients.lookup 0).map Client.blockedKeys == some [str "b"])) = some true := by
    decide +kernel
  obtain ⟨s, hs, hsample⟩ := Option.map_eq_some_iff.mp hran
  obtain ⟨hmem, hkeys⟩ := Bool.and_eq_true_iff.mp hsample
  obtain ⟨cl, hcl, -, hkey⟩ :=
    ((hall s (.callback (reachable_ran hs))).1 0 (str "a")).mp (of_decide_eq_true hmem)
  rw [hcl, Option.map_some, beq_iff_eq, Option.some.injEq] at hkeys
  rw [hkeys] at hkey
  exact absurd hkey (by decide)

end Sample

/-! ### Dangling references -/

section Dangling

variable [Platform] [Double S] [Inhabited S] [LT S] [DecidableLT S] [BEq S] {reserve : Reserve}
  {depth : ℕ}

/-- **No table refers to a client that has been removed**, as long as no replica has been made one again, and no
client has blocked again and left out a key on which it was waiting. The invariant is `Consistent`: what the tables
refer to, the client's own record has, and each step of a run keeps this of every table at once. -/
theorem no_dangling_reference (h : Visited reserve depth s)
    (hattached : ∀ id, .attached id true ∉ s.trace)
    (hblocked : ∀ id cmd key left, .blocked id cmd (key :: left) ∉ s.trace) :
    (∀ id referred, .removed id referred ∈ s.trace → referred = false) ∧
    (∀ id t, s.removeClient id = some t → t.refersTo id = false) ∧
    ∀ id, s.clients.lookup id = none → s.refersTo id = false := by
  have hs : s.Consistent fun _ => True := by
    refine h.consistent fun e he => ?_
    cases e with
    | attached id again =>
      cases again with
      | false => exact fun _ => rfl
      | true => exact absurd he (hattached id)
    | blocked id cmd left =>
      cases left with
      | nil => exact fun key hkey => nomatch hkey
      | cons key left => exact absurd he (hblocked id cmd key left)
    | _ => trivial
  -- who has no record is referred to by no table
  have hgone {t : Server S} (ht : t.tables.Agree fun _ => True) {id : ClientId}
      (hnone : t.clients.lookup id = none) : t.refersTo id = false := by
    refine Bool.eq_false_of_not_eq_true fun href => ?_
    obtain ⟨ref, href⟩ := refersTo_iff.mp href
    obtain ⟨cl, hcl, -⟩ := owns_of_refers ht trivial href
    rw [hnone] at hcl
    cases hcl
  exact ⟨hs.removed fun _ => trivial,
    fun id t ht => hgone (hs.removeClient ht).agree (lookup_removeClient ht),
    fun id hnone => hgone hs.agree hnone⟩

end Dangling

section Sample

open Sample

/-- A client that waits, watches, subscribes and has become a replica. -/
def referredTo : List Turn :=
  [.accept, sends 0 ["SUBSCRIBE", "ch"], sends 0 ["PSUBSCRIBE", "c*"], sends 0 ["WATCH", "k"],
    sends 0 ["PSYNC", "?", "-1"], sends 0 ["BLPOP", "k", "0"]]

/-- It is in no table after it has been removed. -/
theorem no_dangling_reference_sample : ∃ s, ran referredTo = some s ∧ s.refersTo 0 = true ∧
    ∀ t, s.removeClient 0 = some t → t.refersTo 0 = false := by
  have hran : (ran referredTo).map (fun s => s.refersTo 0 && s.trace.all Event.leavesNone)
      = some true := by decide +kernel
  obtain ⟨s, hs, hsample⟩ := Option.map_eq_some_iff.mp hran
  obtain ⟨href, htrace⟩ := Bool.and_eq_true_iff.mp hsample
  have hno {e : Event} (he : e ∈ s.trace) : e.leavesNone = true := List.all_eq_true.mp htrace e he
  have hgone := no_dangling_reference (.callback (reachable_ran hs))
    (fun id he => absurd (hno he) (by simp [Event.leavesNone]))
    fun id cmd key left he => absurd (hno he) (by simp [Event.leavesNone])
  exact ⟨s, hs, href, hgone.2.1 0⟩

/-- A client that has sent `PSYNC` twice is in `replicas_` twice, and taken out once. -/
theorem dangling_replica : ¬∀ s : Server Score, Visited (fun _ => none) 2 s →
    ∀ id t, s.removeClient id = some t → t.refersTo id = false := by
  intro hall
  have hran : ((ran [.accept, sends 0 ["PSYNC", "?", "-1"], sends 0 ["PSYNC", "?", "-1"]]).bind fun s =>
      (s.removeClient 0).map fun t => t.refersTo 0) = some true := by decide +kernel
  obtain ⟨s, hs, hremove⟩ := Option.bind_eq_some_iff.mp hran
  obtain ⟨t, ht, href⟩ := Option.map_eq_some_iff.mp hremove
  rw [hall s (.callback (reachable_ran hs)) 0 t ht] at href
  cases href

end Sample

end Server

end RedisDb

import RedisDb.Server.Runs

/-!
# Subscriptions

The server keeps two indexes of subscriptions, and every client keeps its own sets of them. `Subscriptions.Exact` says
that they agree entry for entry: a client is in the list of a channel once if the channel is in its set and not at all
otherwise, and the same for patterns. It is an invariant of every run of the server (`Visited.exact`), whatever else
happens in the run.

The invariant counts entries, so an entry that is made twice would break it just as one that is missing. A step that
changes subscriptions changes the set of one client and entries of this client only, and `Exact.update` asks for no
more than the counts after it. Both methods that subscribe look into the client's own set first, and because the index
agrees with it an entry is not made twice.
-/

namespace RedisDb

variable {S : Type}

/-- The subscriptions, as the server and as the clients have them. -/
structure Subscriptions where
  /-- The channels and the patterns of the clients that are there. -/
  records : ClientId → Option (UnorderedSet Bytes × UnorderedSet Bytes)
  channels : Index Bytes ClientId
  patterns : List (Bytes × ClientId)
  nextClient : ClientId

/-- The subscriptions in the tables of clients. -/
def Tables.subscriptions (T : Tables) : Subscriptions where
  records id := (T.records id).map fun r => (r.pubsubChannels, r.pubsubPatterns)
  channels := T.pubsubChannels
  patterns := T.pubsubPatterns
  nextClient := T.nextClient

namespace Subscriptions

/-- The indexes of the server are exactly what the clients have. -/
structure Exact (u : Subscriptions) : Prop where
  channel : ∀ {id r}, u.records id = some r → ∀ channel,
    (u.channels.valuesAt channel).count id = if channel ∈ r.1 then 1 else 0
  pattern : ∀ {id r}, u.records id = some r → ∀ pattern,
    u.patterns.count (pattern, id) = if pattern ∈ r.2 then 1 else 0
  channel_there : ∀ {id channel}, id ∈ u.channels.valuesAt channel → (u.records id).isSome
  pattern_there : ∀ {id pattern}, (pattern, id) ∈ u.patterns → (u.records id).isSome
  proper : u.channels.Proper
  /-- A client that is still to come is not there. -/
  fresh : ∀ {id r}, u.records id = some r → id < u.nextClient

variable {u v : Subscriptions} {id : ClientId} {r r' : UnorderedSet Bytes × UnorderedSet Bytes}

/-- **One client at a time**: the entries of the other clients stay as they are. -/
theorem Exact.update (h : u.Exact) (hr : u.records id = some r)
    (hrecords : v.records = Function.update u.records id (some r'))
    (hnext : v.nextClient = u.nextClient) (hproper : v.channels.Proper)
    (hchannel : ∀ i channel, (v.channels.valuesAt channel).count i =
      if i = id then if channel ∈ r'.1 then 1 else 0 else (u.channels.valuesAt channel).count i)
    (hpattern : ∀ i pattern, v.patterns.count (pattern, i) =
      if i = id then if pattern ∈ r'.2 then 1 else 0 else u.patterns.count (pattern, i)) :
    v.Exact := by
  -- the clients that were there are there still, and this one is
  have hthere {i : ClientId} (hi : i ≠ id → (u.records i).isSome) : (v.records i).isSome := by
    rw [hrecords, Function.update_apply]
    by_cases heq : i = id
    · rw [if_pos heq]; rfl
    · rw [if_neg heq]; exact hi heq
  -- a record is the new one of this client or an old one of another
  have hcases {i : ClientId} {r₁ : UnorderedSet Bytes × UnorderedSet Bytes}
      (hi : v.records i = some r₁) : i = id ∧ r₁ = r' ∨ i ≠ id ∧ u.records i = some r₁ := by
    rw [hrecords, Function.update_apply] at hi
    split at hi
    · next heq => exact .inl ⟨heq, (Option.some.inj hi).symm⟩
    · next hne => exact .inr ⟨hne, hi⟩
  refine ⟨fun hi channel => ?_, fun hi pattern => ?_, fun {i channel} hmem => ?_,
    fun {i pattern} hmem => ?_, hproper, fun hi => ?_⟩
  · rw [hchannel]
    rcases hcases hi with ⟨heq, rfl⟩ | ⟨hne, hi⟩
    · rw [if_pos heq]
    · rw [if_neg hne, h.channel hi]
  · rw [hpattern]
    rcases hcases hi with ⟨heq, rfl⟩ | ⟨hne, hi⟩
    · rw [if_pos heq]
    · rw [if_neg hne, h.pattern hi]
  · refine hthere fun hne => ?_
    have hcount := hchannel i channel
    rw [if_neg hne] at hcount
    -- an entry of another client was in the table before
    have hold : i ∈ u.channels.valuesAt channel :=
      List.count_pos_iff.mp (hcount ▸ List.count_pos_iff.mpr hmem)
    exact h.channel_there hold
  · refine hthere fun hne => ?_
    have hcount := hpattern i pattern
    rw [if_neg hne] at hcount
    have hold : (pattern, i) ∈ u.patterns :=
      List.count_pos_iff.mp (hcount ▸ List.count_pos_iff.mpr hmem)
    exact h.pattern_there hold
  · rw [hnext]
    rcases hcases hi with ⟨rfl, -⟩ | ⟨-, hi⟩
    · exact h.fresh hr
    · exact h.fresh hi

end Subscriptions

namespace Server

variable {s t : Server S} {id : ClientId}

/-- The subscriptions of a client that is there. -/
theorem subscriptions_of_lookup {cl : Client} (h : s.clients.lookup id = some cl) :
    s.tables.subscriptions.records id = some (cl.pubsubChannels, cl.pubsubPatterns) := by
  simp only [Tables.subscriptions, tables, h, Option.map_some]; rfl

/-- A change of a client, as the subscriptions see it. -/
theorem subscriptions_insert {clients : UnorderedMap ClientId Client} {cl' : Client}
    (h : clients = s.clients.insert id cl') :
    (fun i => ((clients.lookup i).map Client.record).map fun r => (r.pubsubChannels, r.pubsubPatterns))
      = Function.update s.tables.subscriptions.records id
        (some (cl'.pubsubChannels, cl'.pubsubPatterns)) := by
  subst h
  funext i
  rw [UnorderedMap.lookup_insert_eq_ite, Function.update_apply]
  split <;> rfl

/-- The entries of other clients and kinds, which a step has left alone. -/
theorem count_same {p q n : ℕ} {i : ClientId} (h : i = id → q = n) (hq : p = q) :
    p = if i = id then n else q := by
  split
  · next heq => exact hq.trans (h heq)
  · exact hq

/-- A channel that is new to the client is entered on both sides. -/
theorem exact_subscribeChannel {channel : Bytes} (hs : s.tables.subscriptions.Exact)
    (h : s.subscribeChannel id channel = some t) : t.tables.subscriptions.Exact := by
  obtain ⟨cl, hcl, rfl⟩ := Option.map_eq_some_iff.mp h
  have hr := subscriptions_of_lookup hcl
  split
  · exact hs
  · next hnew =>
    refine hs.update hr (subscriptions_insert rfl) rfl (hs.proper.push channel id) ?_ ?_
    · intro i ch
      refine (Index.count_valuesAt_push s.pubsubChannels channel ch id i).trans ?_
      by_cases hi : i = id
      · subst hi
        -- the client did not have the channel, and is counted once more
        have hold : (s.pubsubChannels.valuesAt ch).count i = _ := hs.channel hr ch
        by_cases hch : ch = channel
        · subst hch
          simp [hold, hnew]
        · simp [hold, hch]
      · simp only [hi, and_false, if_false]
        rfl
    · exact fun i p => count_same (fun heq => heq ▸ hs.pattern hr p) rfl

/-- It is taken out on both sides. -/
theorem exact_unsubscribeChannel {channel : Bytes} (hs : s.tables.subscriptions.Exact)
    (h : s.unsubscribeChannel id channel = some t) : t.tables.subscriptions.Exact := by
  obtain ⟨cl, hcl, rfl⟩ := Option.map_eq_some_iff.mp h
  have hr := subscriptions_of_lookup hcl
  split
  · refine hs.update hr (subscriptions_insert rfl) rfl (hs.proper.remove channel id) ?_ ?_
    · intro i ch
      refine (Index.count_valuesAt_remove s.pubsubChannels channel ch id i).trans ?_
      by_cases hi : i = id
      · subst hi
        -- the client had the channel once, and then not at all
        have hold : (s.pubsubChannels.valuesAt ch).count i = _ := hs.channel hr ch
        by_cases hch : ch = channel
        · subst hch
          simp
        · simp [hold, hch]
      · simp only [hi, and_false, if_false]
        rfl
    · exact fun i p => count_same (fun heq => heq ▸ hs.pattern hr p) rfl
  · exact hs

/-- A pattern that is new to the client is entered on both sides. -/
theorem exact_psubscribePattern {pattern : Bytes} (hs : s.tables.subscriptions.Exact)
    (h : s.psubscribePattern id pattern = some t) : t.tables.subscriptions.Exact := by
  obtain ⟨cl, hcl, rfl⟩ := Option.map_eq_some_iff.mp h
  have hr := subscriptions_of_lookup hcl
  split
  · exact hs
  · next hnew =>
    refine hs.update hr (subscriptions_insert rfl) rfl hs.proper ?_ ?_
    · exact fun i ch => count_same (fun heq => heq ▸ hs.channel hr ch) rfl
    · intro i p
      show (s.pubsubPatterns ++ [(pattern, id)]).count (p, i) = _
      rw [List.count_append]
      by_cases hi : i = id
      · subst hi
        -- the client did not have the pattern, and is counted once more
        have hold : s.pubsubPatterns.count (p, i) = _ := hs.pattern hr p
        by_cases hp : p = pattern
        · subst hp
          simp [hold, hnew]
        · simp [hold, hp, Ne.symm hp]
      · simp [hi, Ne.symm hi]
        rfl

/-- It is taken out on both sides. -/
theorem exact_punsubscribePattern {pattern : Bytes} (hs : s.tables.subscriptions.Exact)
    (h : s.punsubscribePattern id pattern = some t) : t.tables.subscriptions.Exact := by
  obtain ⟨cl, hcl, rfl⟩ := Option.map_eq_some_iff.mp h
  have hr := subscriptions_of_lookup hcl
  split
  · refine hs.update hr (subscriptions_insert rfl) rfl hs.proper ?_ ?_
    · exact fun i ch => count_same (fun heq => heq ▸ hs.channel hr ch) rfl
    · intro i p
      refine (List.count_filter_ne s.pubsubPatterns (p, i) (pattern, id)).trans ?_
      by_cases hi : i = id
      · subst hi
        -- the client had the pattern once, and then not at all
        have hold : s.pubsubPatterns.count (p, i) = _ := hs.pattern hr p
        by_cases hp : p = pattern
        · subst hp
          simp
        · simp [hold, hp]
      · simp [hi]
        rfl
  · exact hs

/-- The entries after the patterns of a client have been filtered out. By induction on its patterns. -/
theorem count_foldl_filter_patterns (keys : List Bytes) (p : Bytes × ClientId) :
    ∀ patterns : List (Bytes × ClientId),
    (keys.foldl (fun patterns pattern => patterns.filter (· ≠ (pattern, id))) patterns).count p
      = if p.1 ∈ keys ∧ p.2 = id then 0 else patterns.count p := by
  induction keys with
  | nil => simp
  | cons key keys ih =>
    intro patterns
    obtain ⟨q, j⟩ := p
    rw [List.foldl_cons, ih, List.count_filter_ne]
    by_cases hq : q ∈ keys <;> by_cases hk : q = key <;> by_cases hj : j = id <;> simp [hq, hk, hj]

/-- **All subscriptions of a client are taken out.** -/
theorem exact_closeSubscriptions {cl : Client} (hs : s.tables.subscriptions.Exact)
    (hcl : s.clients.lookup id = some cl) :
    (s.closeSubscriptions id cl).tables.subscriptions.Exact := by
  have hr := subscriptions_of_lookup hcl
  refine hs.update hr (subscriptions_insert rfl) rfl (hs.proper.removeAll cl.pubsubChannels.keys id)
    ?_ ?_
  · intro i ch
    refine (Index.count_valuesAt_removeAll s.pubsubChannels cl.pubsubChannels.keys ch id i).trans ?_
    by_cases hi : i = id
    · subst hi
      have hold : (s.pubsubChannels.valuesAt ch).count i = if ch ∈ cl.pubsubChannels then 1 else 0 :=
        hs.channel hr ch
      have hkeys : ch ∈ cl.pubsubChannels.keys ↔ ch ∈ cl.pubsubChannels := AList.mem_keys.symm
      -- the channels that the client has are those removed
      by_cases hch : ch ∈ cl.pubsubChannels <;> simp [hold, hkeys, hch]
    · simp only [hi, and_false, if_false]
      rfl
  · intro i p
    refine (count_foldl_filter_patterns cl.pubsubPatterns.keys (p, i) s.pubsubPatterns).trans ?_
    by_cases hi : i = id
    · subst hi
      have hold : s.pubsubPatterns.count (p, i) = if p ∈ cl.pubsubPatterns then 1 else 0 :=
        hs.pattern hr p
      have hkeys : p ∈ cl.pubsubPatterns.keys ↔ p ∈ cl.pubsubPatterns := AList.mem_keys.symm
      by_cases hp : p ∈ cl.pubsubPatterns <;> simp [hold, hkeys, hp]
    · simp only [hi, and_false, if_false]
      rfl

/-! ### Steps that do not concern subscriptions -/

/-- A step that changes one client, and not its subscriptions. -/
theorem subscriptions_of_update {cl cl' : Client} (hcl : s.clients.lookup id = some cl)
    (hclients : t.clients = s.clients.insert id cl')
    (hown : cl'.pubsubChannels = cl.pubsubChannels ∧ cl'.pubsubPatterns = cl.pubsubPatterns)
    (hchannels : t.pubsubChannels = s.pubsubChannels) (hpatterns : t.pubsubPatterns = s.pubsubPatterns)
    (hnext : t.nextClient = s.nextClient) : t.tables.subscriptions = s.tables.subscriptions := by
  have hrecords := subscriptions_insert hclients
  rw [hown.1, hown.2, Function.update_eq_self_iff.mpr (subscriptions_of_lookup hcl).symm] at hrecords
  simp only [Tables.subscriptions, tables, Subscriptions.mk.injEq]
  exact ⟨hrecords, hchannels, hpatterns, hnext⟩

/-- A client that waits no longer keeps its subscriptions. -/
theorem subscriptions_unblockClient (h : s.unblockClient id = some t) :
    t.tables.subscriptions = s.tables.subscriptions := by
  obtain ⟨cl, hcl, rfl⟩ := Option.map_eq_some_iff.mp h
  split
  · exact subscriptions_of_update hcl rfl ⟨rfl, rfl⟩ rfl rfl rfl
  · rfl

/-- So does one that watches no more. -/
theorem subscriptions_unwatch (h : s.unwatch id = some t) :
    t.tables.subscriptions = s.tables.subscriptions := by
  obtain ⟨cl, hcl, rfl⟩ := Option.map_eq_some_iff.mp h
  exact subscriptions_of_update hcl rfl ⟨rfl, rfl⟩ rfl rfl rfl

/-- So does one that watches. -/
theorem subscriptions_watch {i : ℕ} {key : Bytes} (h : s.watch id i key = some t) :
    t.tables.subscriptions = s.tables.subscriptions := by
  obtain ⟨db, -, h⟩ := Option.bind_eq_some_iff.mp h
  obtain ⟨cl, hcl, rfl⟩ := Option.map_eq_some_iff.mp h
  exact subscriptions_of_update hcl rfl ⟨rfl, rfl⟩ rfl rfl rfl

/-- So does one that comes to wait. -/
theorem subscriptions_blockClient {keys : List Bytes} {timeout : ℤ} {cmd : RespValue}
    {target : Bytes} (h : s.blockClient id keys timeout cmd target = some t) :
    t.tables.subscriptions = s.tables.subscriptions := by
  obtain ⟨cl, deadline, env, hcl, rfl⟩ := blockClient_spec h
  exact subscriptions_of_update hcl rfl ⟨rfl, rfl⟩ rfl rfl rfl

/-- So does one that becomes a replica. -/
theorem subscriptions_addReplica (h : s.addReplica id = some t) :
    t.tables.subscriptions = s.tables.subscriptions := by
  obtain ⟨u, hu, rfl⟩ := Option.map_eq_some_iff.mp h
  obtain ⟨cl, hcl, rfl⟩ := Option.map_eq_some_iff.mp hu
  exact subscriptions_of_update hcl rfl ⟨rfl, rfl⟩ rfl rfl rfl

/-- So does one that is a replica no more. -/
theorem subscriptions_closeReplication (id : ClientId) (cl : Client) (s : Server S) :
    (s.closeReplication id cl).tables.subscriptions = s.tables.subscriptions := by
  unfold closeReplication
  dsimp only
  split <;> split <;> rfl

/-! ### Clients that come and go -/

/-- A client without subscriptions is in no index, and can go. -/
theorem exact_erase (hs : s.tables.subscriptions.Exact)
    (hid : s.tables.subscriptions.records id = some (∅, ∅)) :
    { s with clients := s.clients.erase id }.tables.subscriptions.Exact := by
  have hrecords (i : ClientId) : { s with clients := s.clients.erase id }.tables.subscriptions.records i
      = if i = id then none else s.tables.subscriptions.records i := by
    simp only [Tables.subscriptions, tables, UnorderedMap.lookup_erase_eq_ite]
    split <;> rfl
  -- other clients keep their records
  have hback {i : ClientId} {r : UnorderedSet Bytes × UnorderedSet Bytes}
      (hi : { s with clients := s.clients.erase id }.tables.subscriptions.records i = some r) :
      s.tables.subscriptions.records i = some r := by
    rw [hrecords] at hi
    split at hi
    · cases hi
    · exact hi
  refine ⟨fun hi => hs.channel (hback hi), fun hi => hs.pattern (hback hi), fun {i channel} hmem => ?_,
    fun {i pattern} hmem => ?_, hs.proper, fun hi => hs.fresh (hback hi)⟩
  · have hne : i ≠ id := by
      rintro rfl
      exact absurd hmem (List.count_eq_zero.mp (hs.channel hid channel))
    rw [hrecords, if_neg hne]
    exact hs.channel_there hmem
  · have hne : i ≠ id := by
      rintro rfl
      exact absurd hmem (List.count_eq_zero.mp (hs.pattern hid pattern))
    rw [hrecords, if_neg hne]
    exact hs.pattern_there hmem

/-- A client goes, after its subscriptions. -/
theorem exact_removeClient (hs : s.tables.subscriptions.Exact) (h : s.removeClient id = some t) :
    t.tables.subscriptions.Exact := by
  unfold removeClient at h
  split at h
  · exact Option.some.inj h ▸ hs
  · obtain ⟨u, hu, rfl⟩ := Option.map_eq_some_iff.mp h
    obtain ⟨cl, hcl, hu⟩ := Option.bind_eq_some_iff.mp hu
    obtain ⟨v, hv, hu⟩ := Option.bind_eq_some_iff.mp hu
    obtain ⟨w, hw, hu⟩ := Option.bind_eq_some_iff.mp hu
    obtain rfl := Option.some.inj hu
    have hsame : (w.closeReplication id cl).tables.subscriptions
        = (s.closeSubscriptions id cl).tables.subscriptions := by
      rw [subscriptions_closeReplication, subscriptions_unwatch hw, subscriptions_unblockClient hv]
    have hnone : (s.closeSubscriptions id cl).clients.lookup id
        = some { cl with pubsubChannels := ∅, pubsubPatterns := ∅ } := AList.lookup_insert _
    exact exact_erase (hsame ▸ exact_closeSubscriptions hs hcl)
      (hsame ▸ subscriptions_of_lookup hnone)

/-- So does the link. -/
theorem exact_disconnectFromMaster (hs : s.tables.subscriptions.Exact)
    (h : s.disconnectFromMaster = some t) : t.tables.subscriptions.Exact := by
  unfold disconnectFromMaster at h
  split at h
  · exact Option.some.inj h ▸ hs
  · split at h
    · cases h
    · obtain ⟨u, hu, rfl⟩ := Option.map_eq_some_iff.mp h
      have hexact : { s with masterClient := none }.tables.subscriptions.Exact := hs
      have hu := exact_removeClient hexact hu
      exact hu

/-- A new client has no subscriptions. -/
theorem exact_makeClient (hs : s.tables.subscriptions.Exact) {f : Client → Client}
    (hf : ∀ cl : Client, (f cl).pubsubChannels = cl.pubsubChannels ∧
      (f cl).pubsubPatterns = cl.pubsubPatterns) : (s.makeClient f).2.tables.subscriptions.Exact := by
  -- the new client has an identifier that nobody had, and no subscriptions
  have hrecords (i : ClientId) : (s.makeClient f).2.tables.subscriptions.records i
      = if i = s.nextClient then some (∅, ∅) else s.tables.subscriptions.records i := by
    simp only [Tables.subscriptions, tables, makeClient, steadyNow, UnorderedMap.lookup_insert_eq_ite]
    split
    · simp only [Option.map_some, Client.record, (hf _).1, (hf _).2]
    · rfl
  have hno {i : ClientId} (hi : (s.tables.subscriptions.records i).isSome) : i ≠ s.nextClient := by
    obtain ⟨r, hr⟩ := Option.isSome_iff_exists.mp hi
    exact (hs.fresh hr).ne
  have hkeep {i : ClientId} (hi : (s.tables.subscriptions.records i).isSome) :
      ((s.makeClient f).2.tables.subscriptions.records i).isSome := by
    rwa [hrecords, if_neg (hno hi)]
  refine ⟨fun {i r} hi channel => ?_, fun {i r} hi pattern => ?_, fun hmem => hkeep (hs.channel_there hmem),
    fun hmem => hkeep (hs.pattern_there hmem), hs.proper, fun {i r} hi => ?_⟩
  · rw [hrecords] at hi
    split at hi
    · next heq =>
      obtain rfl := Option.some.inj hi
      -- nobody of this identifier was listed
      exact List.count_eq_zero.mpr fun hmem => hno (hs.channel_there hmem) heq
    · exact hs.channel hi channel
  · rw [hrecords] at hi
    split at hi
    · next heq =>
      obtain rfl := Option.some.inj hi
      exact List.count_eq_zero.mpr fun hmem => hno (hs.pattern_there hmem) heq
    · exact hs.pattern hi pattern
  · show i < s.nextClient + 1
    rw [hrecords] at hi
    split at hi
    · next heq => exact heq ▸ Nat.lt_succ_self _
    · exact Nat.lt_succ_of_lt (hs.fresh hi)

/-! ### Runs -/

/-- A step that leaves the tables alone. -/
theorem exact_of_quiet (hs : s.tables.subscriptions.Exact) (h : Quiet s t) :
    t.tables.subscriptions.Exact := h.tables ▸ hs

section Runs

variable [Platform]

/-- **What code does keeps the indexes exact.** By cases on what code can do: the subscription commands change both
sides at once, and a client that goes is taken out of the indexes before. -/
theorem Does.exact {k : Option RespValue} {c : Option ClientId} (h : Does k c s t)
    (hs : s.tables.subscriptions.Exact) : t.tables.subscriptions.Exact := by
  induction h with
  | refl => exact hs
  | trans _ _ ih ih' => exact ih' (ih hs)
  | handler _ ih => exact ih hs
  | aside h => exact exact_of_quiet hs (.aside h)
  | own hcl hsame => exact exact_of_quiet hs (.own hcl hsame.record)
  | reply h => exact exact_of_quiet hs (.addReply h)
  | deliver h => exact exact_of_quiet hs (.deliver h)
  | database hdb hcalls h => exact exact_of_quiet hs (.putDatabase hdb hcalls h)
  | scanned hsame _ h => exact exact_of_quiet hs (.putDatabases hsame h)
  | watch h => exact subscriptions_watch h ▸ hs
  | unwatch h => exact subscriptions_unwatch h ▸ hs
  -- the steps that change a subscription, each with its lemma
  | subscribe h => exact exact_subscribeChannel hs h
  | unsubscribe h => exact exact_unsubscribeChannel hs h
  | psubscribe h => exact exact_psubscribePattern hs h
  | punsubscribe h => exact exact_punsubscribePattern hs h
  | block _ h => exact subscriptions_blockClient h ▸ hs
  | unblock _ h => exact subscriptions_unblockClient h ▸ hs
  | attach h => exact subscriptions_addReplica h ▸ hs
  | remove h => exact exact_removeClient hs h
  | disconnect h => exact exact_disconnectFromMaster hs h
  | replicate h =>
    exact exact_disconnectFromMaster (exact_of_quiet hs (.setMaster _ _ _)) h
  | completed _ h => exact exact_of_quiet hs (.complete h)
  | wake _ h _ ih =>
    have hwoken := subscriptions_unblockClient h ▸ hs
    exact exact_of_quiet (ih hwoken) (.installWriteHandler _ _)

/-- **So does a run.** By induction on the run; only a client that comes or goes matters besides. -/
theorem Moves.exact (h : Moves s t) (hs : s.tables.subscriptions.Exact) :
    t.tables.subscriptions.Exact := by
  induction h with
  | refl => exact hs
  | trans _ _ ih ih' => exact ih' (ih hs)
  | does _ h => exact h.exact hs
  | accepted =>
    -- the two callbacks that make a client
    unfold addClient
    split
    · exact hs
    · exact exact_makeClient hs fun _ => ⟨rfl, rfl⟩
  | @linked s _ _ =>
    unfold connectToMaster
    dsimp only
    split
    · exact hs
    · have hdrawn : { s with outside := { s.outside with
          connects := fun i => s.outside.connects (i + 1) } }.tables.subscriptions.Exact := hs
      have hmade := exact_makeClient (f := fun cl => (cl.setFlag .master).addReply
        (RespSerializer.bulkStringArray [str "PING"])) hdrawn fun _ => ⟨rfl, rfl⟩
      exact hmade
  | flushed =>
    unfold flushAof
    split
    · split <;> exact hs
    · exact hs
  | timedOut h =>
    -- a timeout answers and unblocks, neither of which is about subscriptions
    rcases timeOut_spec h with rfl | ⟨u, _, hquiet, h⟩
    · exact hs
    · have hnoted := exact_of_quiet hs hquiet
      exact subscriptions_unblockClient h ▸ hnoted
  | @received id cl bytes s _ hcl =>
    have hsame : (s.received id cl bytes).tables.subscriptions = s.tables.subscriptions :=
      subscriptions_of_update hcl rfl ⟨rfl, rfl⟩ rfl rfl rfl
    exact hsame ▸ hs
  | @answered id _ s =>
    split
    · have hinstalled := exact_of_quiet hs (.installWriteHandler id s)
      exact hinstalled
    · exact hs
  | hungUp | sentAll => exact hs
  | taken hcl hsame => exact exact_of_quiet hs (.own hcl hsame.record)
  | sent answer hcl => exact exact_of_quiet hs (.own hcl (answer.record_apply _))

omit [Platform] in
/-- At the start there are none. -/
theorem Starts.exact (h : s.Starts) : s.tables.subscriptions.Exact := by
  have hrecords (id : ClientId) : s.tables.subscriptions.records id = none := by
    simp only [Tables.subscriptions, tables, h.clients, UnorderedMap.lookup_empty, Option.map_none]
  constructor
  · exact fun hr => by simp [hrecords] at hr
  · exact fun hr => by simp [hrecords] at hr
  · exact fun hmem => by simp [Tables.subscriptions, tables, h.pubsubChannels] at hmem
  · exact fun hmem => by simp [Tables.subscriptions, tables, h.pubsubPatterns] at hmem
  · show s.pubsubChannels.Proper
    rw [h.pubsubChannels]
    exact Index.proper_empty
  · exact fun hr => by simp [hrecords] at hr

/-- **The indexes are exact in every state of every run.** -/
theorem Visited.exact [Double S] [Inhabited S] [LT S] [DecidableLT S] [BEq S] {reserve : Reserve}
    {depth : ℕ} (h : Visited reserve depth s) : s.tables.subscriptions.Exact := by
  obtain ⟨start, hstart, hmoves⟩ := h.moves
  exact hmoves.exact hstart.exact

end Runs

end Server

end RedisDb

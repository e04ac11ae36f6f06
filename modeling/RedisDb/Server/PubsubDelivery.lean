import RedisDb.Server.PubsubRuns

/-!
# Delivery of messages

The two indexes of subscriptions agree with what the clients have, in every state of every run of the subscription
commands and of connections and disconnections (`pubsub_index_and_delivery`). So `publishMessage`, which looks at the
indexes only, appends to every client the messages that the client's own subscriptions ask for, and counts them.

`publishMessage` has two loops, over the list of the channel and over all patterns. Each sends something to clients
that are there, and what a client is sent by a loop is the messages for its entries in the list, in order
(`run_forM_deliver`). Exactness of the indexes turns the entries into subscriptions: a client is in the list of a
channel at most once, and its patterns in the list of the server are its own patterns in some order
(`perm_patternsOf`).

The flag of a subscriber needs a condition, for `SUBSCRIBE` sets it before it reads the channels:
`flag_without_subscription` is a run in which it stays behind.
-/

namespace RedisDb

open RespSerializer EffectM

variable {S : Type}

/-- The messages that a client is sent for one message on a channel. -/
def Client.receives (channel : Bytes) (cl : Client) : ℕ :=
  (if channel ∈ cl.pubsubChannels then 1 else 0) +
    (cl.pubsubPatterns.keys.filter (patternMatches · channel)).length

namespace Server

/-- The messages that all clients are sent for one message on a channel. -/
def receivers (channel : Bytes) (s : Server S) : ℕ :=
  (s.clients.entries.map fun e : (_ : ClientId) × Client => e.2.receives channel).sum

/-! ### The subscriptions of the clients -/

/-- The indexes of the server, and the flags of the clients, are what the clients' subscriptions
say. -/
structure SubscriptionsAgree (s : Server S) : Prop where
  channel : ∀ {id cl}, s.clients.lookup id = some cl → ∀ channel,
    (s.pubsubChannels.valuesAt channel).count id = if channel ∈ cl.pubsubChannels then 1 else 0
  pattern : ∀ {id cl}, s.clients.lookup id = some cl → ∀ pattern,
    s.pubsubPatterns.count (pattern, id) = if pattern ∈ cl.pubsubPatterns then 1 else 0
  /-- No entry of a channel is empty. -/
  proper : s.pubsubChannels.Proper
  /-- No entry names a client that is not there. -/
  channel_there : ∀ {id channel}, id ∈ s.pubsubChannels.valuesAt channel →
    (s.clients.lookup id).isSome
  pattern_there : ∀ {id pattern}, (pattern, id) ∈ s.pubsubPatterns → (s.clients.lookup id).isSome
  flag : ∀ {id cl}, s.clients.lookup id = some cl →
    (cl.hasFlag .pubsub = true ↔ cl.pubsubChannels.keys ≠ [] ∨ cl.pubsubPatterns.keys ≠ [])

variable {s t u : Server S} {c : ClientId}

/-- A client with a record is there. -/
theorem lookup_of_records {id : ClientId} (h : (s.tables.subscriptions.records id).isSome) :
    (s.clients.lookup id).isSome := by
  simpa [Tables.subscriptions, tables] using h

/-- The indexes and the flags together. -/
theorem subscriptionsAgree (hexact : s.tables.subscriptions.Exact) (hflags : s.FlagsAgree) :
    s.SubscriptionsAgree where
  channel hcl := hexact.channel (subscriptions_of_lookup hcl)
  pattern hcl := hexact.pattern (subscriptions_of_lookup hcl)
  proper := hexact.proper
  channel_there hmem := lookup_of_records (hexact.channel_there hmem)
  pattern_there hmem := lookup_of_records (hexact.pattern_there hmem)
  flag hcl := hflags _ _ hcl

/-- The patterns of a client in the list of the server, in the order of the list. -/
def patternsOf (id : ClientId) (s : Server S) : List Bytes :=
  (s.pubsubPatterns.filter (·.2 = id)).map Prod.fst

/-- The entries of a client for a pattern. -/
theorem count_patternsOf (id : ClientId) (pattern : Bytes) (s : Server S) :
    (s.patternsOf id).count pattern = s.pubsubPatterns.count (pattern, id) := by
  unfold patternsOf
  induction s.pubsubPatterns with
  | nil => rfl
  | cons p patterns ih =>
    obtain ⟨q, j⟩ := p
    by_cases hj : j = id <;> by_cases hq : q = pattern <;> simp [hj, hq, ih]

/-- The patterns of a client in the list are its own. -/
theorem perm_patternsOf (hs : s.tables.subscriptions.Exact) {id : ClientId} {cl : Client}
    (hcl : s.clients.lookup id = some cl) : (s.patternsOf id).Perm cl.pubsubPatterns.keys := by
  refine List.perm_iff_count.mpr fun pattern => ?_
  have hcount : s.pubsubPatterns.count (pattern, id) = if pattern ∈ cl.pubsubPatterns then 1 else 0 :=
    hs.pattern (subscriptions_of_lookup hcl) pattern
  rw [count_patternsOf, hcount, List.Nodup.count cl.pubsubPatterns.keys_nodup]
  simp only [AList.mem_keys]

/-! ### Receivers -/

/-- What a client is sent: one message if it is subscribed to the channel, and one for each of some
patterns. -/
def messages (cl : Client) (channel message : Bytes) (patterns : List Bytes) : Bytes :=
  (if channel ∈ cl.pubsubChannels then bulkStringArray [str "message", channel, message] else []) ++
    patterns.flatMap fun pattern => bulkStringArray [str "pmessage", pattern, channel, message]

/-- A list of clients that are there, counted by client. -/
theorem sum_count_clients {ids : List ClientId} (h : ∀ id ∈ ids, (s.clients.lookup id).isSome) :
    (s.clients.entries.map fun e : (_ : ClientId) × Client => ids.count e.1).sum = ids.length := by
  have hkeys : s.clients.entries.map (fun e : (_ : ClientId) × Client => ids.count e.1)
      = s.clients.keys.map ids.count := by
    rw [AList.keys, List.keys, List.map_map]
    rfl
  have hmem : ∀ id ∈ (ids : Multiset ClientId), id ∈ s.clients.keys.toFinset := fun id hid => by
    rw [List.mem_toFinset, ← AList.mem_keys, ← AList.lookup_isSome]
    exact h id hid
  rw [hkeys, ← List.sum_toFinset _ s.clients.keys_nodup]
  simpa using Multiset.sum_count_eq_card hmem

/-- The receivers that the indexes list for a client are what its subscriptions ask for. -/
theorem count_receivers (hs : s.tables.subscriptions.Exact) {id : ClientId} {cl : Client}
    (hcl : s.clients.lookup id = some cl) (channel : Bytes) :
    (s.pubsubChannels.valuesAt channel ++
        (s.pubsubPatterns.filter fun p => patternMatches p.1 channel).map Prod.snd).count id
      = cl.receives channel := by
  have hchannel : (s.pubsubChannels.valuesAt channel).count id = if channel ∈ cl.pubsubChannels then 1 else 0 :=
    hs.channel (subscriptions_of_lookup hcl) channel
  rw [List.count_append, hchannel, Client.receives]
  congr 1
  rw [← ((perm_patternsOf hs hcl).filter _).length_eq, patternsOf, List.filter_map, List.length_map,
    List.filter_filter, List.count_eq_length_filter, List.filter_map, List.length_map,
    List.filter_filter]
  congr 1
  refine List.filter_congr fun p _ => ?_
  rw [Function.comp_apply, beq_eq_decide, Function.comp_apply, Bool.and_comm]

/-- How many clients are sent something is the number of the entries that match. -/
theorem receivers_eq (hs : s.tables.subscriptions.Exact) (channel : Bytes) :
    s.receivers channel = (s.pubsubChannels.valuesAt channel).length +
      (s.pubsubPatterns.filter fun p => patternMatches p.1 channel).length := by
  -- the tables name clients that are there
  have hthere : ∀ id ∈ s.pubsubChannels.valuesAt channel ++
      (s.pubsubPatterns.filter fun p => patternMatches p.1 channel).map Prod.snd,
      (s.clients.lookup id).isSome := by
    intro id hid
    rcases List.mem_append.mp hid with hmem | hmem
    · exact lookup_of_records (hs.channel_there hmem)
    · obtain ⟨⟨pattern, j⟩, hp, rfl⟩ := List.mem_map.mp hmem
      exact lookup_of_records (hs.pattern_there (List.mem_of_mem_filter hp))
  calc s.receivers channel
      = (s.clients.entries.map fun e : (_ : ClientId) × Client =>
          (s.pubsubChannels.valuesAt channel ++ (s.pubsubPatterns.filter fun p =>
            patternMatches p.1 channel).map Prod.snd).count e.1).sum := by
        unfold receivers
        congr 1
        exact List.map_congr_left fun e he =>
          (count_receivers hs (UnorderedMap.mem_entries_iff.mp he) channel).symm
    _ = _ := by rw [sum_count_clients hthere, List.length_append, List.length_map]

/-! ### One loop of `publishMessage` -/

/-- The one thing that has happened is that clients have been sent something. -/
structure Sent (out : ClientId → Bytes) (s t : Server S) : Prop where
  clients : ∀ id, t.clients.lookup id = (s.clients.lookup id).map (·.addReply (out id))
  patterns : t.pubsubPatterns = s.pubsubPatterns

/-- Nothing is sent. -/
theorem Sent.refl (s : Server S) : Sent (fun _ => []) s s where
  clients id := by simp [Client.addReply]
  patterns := rfl

/-- What is sent later comes behind. -/
theorem Sent.trans {out more : ClientId → Bytes} (h : Sent out s t) (h' : Sent more t u) :
    Sent (fun id => out id ++ more id) s u where
  clients id := by
    rw [h'.clients, h.clients, Option.map_map]
    congr 1
    funext cl
    simp [Client.addReply]
  patterns := h'.patterns.trans h.patterns

/-- One message to one client. -/
theorem deliver_sent (data : Bytes) (hthere : (s.clients.lookup c).isSome) :
    ∃ t, s.deliver c data = some t ∧ Sent (fun id => if c = id then data else []) s t := by
  obtain ⟨cl, hcl⟩ := Option.isSome_iff_exists.mp hthere
  refine ⟨_, by rw [Server.deliver, Server.addReply, Server.updateClient, hcl]; rfl, fun id => ?_, ?_⟩
  · have hlookup : (s.clients.insert c (cl.addReply data)).lookup id
        = (s.clients.lookup id).map (·.addReply (if c = id then data else [])) := by
      rw [UnorderedMap.lookup_insert_eq_ite]
      by_cases hid : id = c
      · rw [if_pos hid, hid, hcl, if_pos rfl, Option.map_some]
      · rw [if_neg hid, if_neg (Ne.symm hid)]
        simp [Client.addReply]
    unfold installWriteHandler
    split <;> exact hlookup
  · unfold installWriteHandler
    split <;> rfl

section Deliver

variable [Platform]

/-- A loop that sends something to clients that are there. By induction on the turns. -/
theorem run_forM_deliver {α : Type} (receiver : α → ClientId) (data : α → Bytes) (xs : List α) :
    ∀ {s : Server S}, (∀ x ∈ xs, (s.clients.lookup (receiver x)).isSome) →
    ∃ t, (forM xs fun x => RedisDb.deliver (receiver x) (data x) : ServerM S c PUnit).run s
        = some (.ok (), t) ∧
      Sent (fun id => (xs.filter (receiver · = id)).flatMap data) s t := by
  induction xs with
  | nil => exact fun {s} _ => ⟨s, rfl, .refl s⟩
  | cons x xs ih =>
    intro s hthere
    obtain ⟨t, ht, hsent⟩ := deliver_sent (data x) (hthere x List.mem_cons_self)
    -- the first delivery removes nobody
    have hrest : ∀ y ∈ xs, (t.clients.lookup (receiver y)).isSome := fun y hy => by
      rw [hsent.clients, Option.isSome_map]
      exact hthere y (List.mem_cons_of_mem _ hy)
    obtain ⟨u, hu, hsents⟩ := ih hrest
    refine ⟨u, ?_, ?_⟩
    · have hrun : (RedisDb.deliver (receiver x) (data x) : ServerM S c Unit).run s = some (.ok (), t) := by
        rw [RedisDb.deliver, EffectM.call, Program.run_step, ht]
        rfl
      rw [List.forM_cons, Program.run_bind_ok hrun]
      exact hu
    · have htrans := hsent.trans hsents
      convert htrans using 2 with id
      by_cases hid : receiver x = id <;> simp [hid]

/-! ### `publishMessage` -/

/-- `publishMessage` of any message sends every client one message for its subscription to the channel
and one for each of its patterns that match it, leaves everything else of all clients as it is, and
returns the number of messages. No pattern is empty, and the number is an `int`. -/
def Publishes (s : Server S) : Prop :=
  ∀ (c : ClientId) (channel message : Bytes), (∀ p ∈ s.pubsubPatterns, p.1 ≠ []) →
    s.receivers channel < 2 ^ 31 →
    ∃ t, (publishMessage channel message : ServerM S c ℤ).run s
        = some (.ok (s.receivers channel), t) ∧
      (∀ id, s.clients.lookup id = none → t.clients.lookup id = none) ∧
      ∀ id cl, s.clients.lookup id = some cl →
        ∃ patterns : List Bytes,
          patterns.Perm (cl.pubsubPatterns.keys.filter (patternMatches · channel)) ∧
          t.clients.lookup id = some (cl.addReply (messages cl channel message patterns))

/-- **The messages follow the clients' subscriptions**: `publishMessage` in a state with exact indexes. First the
subscribers of the channel get their message, then those of each pattern that matches; as the indexes are exact, these
are the clients that have subscribed. -/
theorem run_publishMessage (hs : s.tables.subscriptions.Exact) (c : ClientId) (channel message : Bytes)
    (hnonempty : ∀ p ∈ s.pubsubPatterns, p.1 ≠ []) :
    ∃ t, (publishMessage channel message : ServerM S c ℤ).run s
        = some (.ok (asInt (s.receivers channel)), t) ∧
      (∀ id, s.clients.lookup id = none → t.clients.lookup id = none) ∧
      ∀ id cl, s.clients.lookup id = some cl →
        ∃ patterns : List Bytes,
          patterns.Perm (cl.pubsubPatterns.keys.filter (patternMatches · channel)) ∧
          t.clients.lookup id = some (cl.addReply (messages cl channel message patterns)) := by
  -- first the subscribers of the channel
  obtain ⟨t, ht, hsent⟩ := run_forM_deliver (c := c) (fun id => id)
    (fun _ => bulkStringArray [str "message", channel, message]) (s.pubsubChannels.valuesAt channel)
    fun id hid => lookup_of_records (hs.channel_there hid)
  have hreceivers : ∀ p ∈ t.pubsubPatterns.filter fun p => patternMatches p.1 channel,
      (t.clients.lookup p.2).isSome := by
    intro p hp
    rw [hsent.patterns] at hp
    rw [hsent.clients, Option.isSome_map]
    exact lookup_of_records (hs.pattern_there (List.mem_of_mem_filter hp))
  -- then those of every pattern that matches
  obtain ⟨u, hu, hsents⟩ := run_forM_deliver (c := c) Prod.snd
    (fun p => bulkStringArray [str "pmessage", p.1, channel, message]) _ hreceivers
  -- an empty pattern would be read out of its bounds, and there is none
  have hany : ¬t.pubsubPatterns.any (·.1 = []) = true := by
    rw [hsent.patterns]
    simpa using fun id hp => hnonempty ([], id) hp rfl
  refine ⟨u, ?_, fun id hnone => ?_, fun id cl hcl => ?_⟩
  · rw [publishMessage, Program.run_bind_ok (a := s.pubsubChannels.valuesAt channel) (t := s) rfl,
      Program.run_bind_ok ht, Program.run_bind_ok (a := t.pubsubPatterns) (t := t) rfl, if_neg hany,
      Program.run_bind_ok hu, Program.run_pure, hsent.patterns, ← receivers_eq hs]
  · rw [hsents.clients, hsent.clients, hnone]
    rfl
  · refine ⟨(s.patternsOf id).filter (patternMatches · channel), (perm_patternsOf hs hcl).filter _, ?_⟩
    -- a client is among the subscribers once if it has the channel, and else not at all
    have hchannel : (s.pubsubChannels.valuesAt channel).count id
        = if channel ∈ cl.pubsubChannels then 1 else 0 := hs.channel (subscriptions_of_lookup hcl) channel
    have hmessage : ((s.pubsubChannels.valuesAt channel).filter (· = id)).flatMap
        (fun _ => bulkStringArray [str "message", channel, message])
        = if channel ∈ cl.pubsubChannels then bulkStringArray [str "message", channel, message]
          else [] := by
      rw [List.filter_eq, hchannel]
      split <;> simp
    -- its messages for patterns come in the order of the table
    have hpatterns : ((t.pubsubPatterns.filter fun p => patternMatches p.1 channel).filter
        (·.2 = id)).flatMap (fun p => bulkStringArray [str "pmessage", p.1, channel, message])
        = ((s.patternsOf id).filter (patternMatches · channel)).flatMap fun pattern =>
            bulkStringArray [str "pmessage", pattern, channel, message] := by
      rw [hsent.patterns, patternsOf, List.filter_map, List.flatMap_map, List.filter_filter,
        List.filter_filter]
      congr 1
      refine List.filter_congr fun p _ => ?_
      rw [Function.comp_apply, Bool.and_comm]
    rw [hsents.clients, hsent.clients, hcl, Option.map_some, Option.map_some, hmessage, hpatterns]
    simp [Client.addReply, messages]

/-- **A message in a state with exact indexes**, sent by any client. -/
theorem publishes (hs : s.tables.subscriptions.Exact) : s.Publishes := by
  intro c channel message hnonempty hfew
  obtain ⟨t, ht, hrest⟩ := run_publishMessage hs c channel message hnonempty
  rw [asInt_of_lt hfew] at ht
  exact ⟨t, ht, hrest⟩

end Deliver

/-! ### Runs -/

section Runs

variable [Platform] [Double S] [Inhabited S] [LT S] [DecidableLT S] [BEq S]

/-- The states that the four commands, with arguments that are allowed, and clients that come and go
lead to. -/
inductive PubsubRun (allowed : List RespValue → Prop) (depth : ℕ) : Server S → Prop
  | start {s : Server S} : s.Starts → PubsubRun allowed depth s
  | connect {s : Server S} : PubsubRun allowed depth s → PubsubRun allowed depth s.addClient
  | command {s t : Server S} {c : ClientId} {cmd : Command} {cmdName : Bytes} {name : RespValue}
      {args : List RespValue} {program : CommandM S c (.array (name :: args))} {r : Except Empty Unit} :
      PubsubRun allowed depth s → name.asString = .ok cmdName → Command.lookup cmdName = some cmd →
      cmd.IsSubscription → allowed args →
      executeCommand (callbacks depth) c (.array (name :: args)) = .ok program →
      program.run s = some (r, t) → PubsubRun allowed depth t
  | disconnect {s t : Server S} {c : ClientId} : PubsubRun allowed depth s →
      s.removeClient c = some t → PubsubRun allowed depth t

omit [Platform] [Double S] [Inhabited S] [LT S] [DecidableLT S] [BEq S] in
/-- A new client has neither flag nor subscriptions. -/
theorem FlagsAgree.addClient (hs : s.FlagsAgree) : s.addClient.FlagsAgree := by
  unfold Server.addClient
  split
  · exact hs
  · intro id cl hcl
    simp only [makeClient, steadyNow, UnorderedMap.lookup_insert_eq_ite] at hcl
    split at hcl
    · obtain rfl := Option.some.inj hcl
      exact iff_of_false (by simp [Client.hasFlag]) fun h => h.elim (· rfl) (· rfl)
    · exact hs id cl hcl

omit [Platform] [Double S] [Inhabited S] [LT S] [DecidableLT S] [BEq S] in
/-- The flags of the others stay. -/
theorem FlagsAgree.removeClient (hs : s.FlagsAgree) (h : s.removeClient c = some t) :
    t.FlagsAgree :=
  fun id cl hcl => hs id cl (lookup_of_removeClient h hcl)

/-- **The indexes, the flags, and the messages.** In every state that the subscription commands lead to, the indexes
of the server and the flags of the clients are what the clients' subscriptions say, and `publishMessage` sends every
client what they ask for. The arguments of the commands are strings. Both are invariants along the run, by induction
on it; what is sent is read off the indexes. -/
theorem pubsub_index_and_delivery {depth : ℕ}
    (h : PubsubRun (fun args => ∀ a ∈ args, a.IsString) depth s) :
    s.SubscriptionsAgree ∧ s.Publishes := by
  have hboth : s.tables.subscriptions.Exact ∧ s.FlagsAgree := by
    induction h with
    | start hs =>
      refine ⟨hs.exact, fun id cl hcl => ?_⟩
      rw [hs.clients] at hcl
      cases hcl
    | @connect s _ ih =>
      refine ⟨?_, ih.2.addClient⟩
      unfold addClient
      split
      · exact ih.1
      · exact exact_makeClient ih.1 fun _ => ⟨rfl, rfl⟩
    | @command s t c cmd cmdName name args program r _ hname hlookup hcmd hargs hprogram hrun ih =>
      obtain rfl := Except.ok.inj ((executeCommand_of_name hname).symm.trans hprogram)
      obtain ⟨-, -, hflags⟩ := returns_subscriptionCommand hname hlookup hcmd hargs ih.2 r t hrun
      exact ⟨(Program.within _ hrun).exact ih.1, hflags⟩
    | disconnect _ h ih => exact ⟨exact_removeClient ih.1 h, ih.2.removeClient h⟩
  exact ⟨subscriptionsAgree hboth.1 hboth.2, publishes hboth.1⟩

end Runs

/-! ### Two runs -/

section Sample

open Sample

/-- The name of `SUBSCRIBE`. -/
theorem asString_subscribe : (RespValue.bulkString (str "SUBSCRIBE")).asString = .ok (str "SUBSCRIBE") :=
  rfl

/-- It is found in the registry. -/
theorem lookup_subscribe : Command.lookup (str "SUBSCRIBE") = some .subscribe := by decide +kernel

/-- `SUBSCRIBE`. -/
def sampleSubscribe (args : List RespValue) :
    CommandM Score 0 (.array (.bulkString (str "SUBSCRIBE") :: args)) :=
  executeNamed (callbacks 0) asString_subscribe args

/-- A client connects and sends `SUBSCRIBE`. -/
theorem pubsubRun_subscribe {allowed : List RespValue → Prop} {args : List RespValue}
    {r : Except Empty Unit} {s : Server Score} (hargs : allowed args)
    (h : (sampleSubscribe args).run server.addClient = some (r, s)) : PubsubRun allowed 0 s :=
  .command (.connect (.start starts_server)) asString_subscribe lookup_subscribe (.inl rfl) hargs
    (executeCommand_of_name asString_subscribe) h

/-- A client that has subscribed to a channel is sent a message there. -/
theorem pubsub_index_and_delivery_subscribe :
    ∃ r s, (sampleSubscribe [.bulkString (str "ch")]).run server.addClient = some (r, s) ∧
      s.receivers (str "ch") = 1 ∧ s.SubscriptionsAgree ∧ s.Publishes := by
  have hran : ((sampleSubscribe [.bulkString (str "ch")]).run server.addClient).map
      (fun x => x.2.receivers (str "ch")) = some 1 := by decide +kernel
  obtain ⟨⟨r, s⟩, hs, hone⟩ := Option.map_eq_some_iff.mp hran
  exact ⟨r, s, hs, hone, pubsub_index_and_delivery (pubsubRun_subscribe
    (by simp [RespValue.IsString, RespValue.asString]) hs)⟩

/-- `SUBSCRIBE` with an integer: the exception comes after the flag has been set. -/
theorem flag_without_subscription : ¬∀ s : Server Score, PubsubRun (fun _ => True) 0 s →
    s.SubscriptionsAgree ∧ s.Publishes := by
  intro hall
  have hran : ((sampleSubscribe [.integer 5]).run server.addClient).map (fun x =>
      (x.2.clients.lookup 0).map fun cl =>
        (cl.hasFlag .pubsub, cl.pubsubChannels.keys, cl.pubsubPatterns.keys))
      = some (some (true, [], [])) := by decide +kernel
  obtain ⟨⟨r, s⟩, hs, hclient⟩ := Option.map_eq_some_iff.mp hran
  obtain ⟨cl, hcl, hfields⟩ := Option.map_eq_some_iff.mp hclient
  simp only [Prod.mk.injEq] at hfields
  have hagree := (hall s (pubsubRun_subscribe trivial hs)).1
  exact ((hagree.flag hcl).mp hfields.1).elim (· hfields.2.1) (· hfields.2.2)

end Sample

end Server

end RedisDb

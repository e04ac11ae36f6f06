import RedisDb.Server.Runs

/-!
# Promotion

`REPLICAOF NO ONE` calls `disconnectFromMaster`, which closes the link to the master and leaves `masterHost_` as it
is, with the link in `REPL_STATE_CONNECT`. That is where `replicationCron` connects from. So a server that had a
master is its replica again at the next tick, and the promotion is final only where there is no `masterHost_` to
connect to.

The proof follows the state of the link over a run. `Tied` is the invariant: only the client in `masterClient_` has
`CLIENT_MASTER`, there is none while the link is to be connected, and none while there is no `masterHost_`. Its second
part is what makes `connectToMaster` safe, which would forget an open link, and its third part is what is to be shown
of a promoted server. Most of what code does to the server leaves all of this alone (`SameLink`, with one lemma for
each operation). The rest are the steps that close the link, of which it has to be seen that they do not leave another
one, and the two that can begin one: `REPLICAOF` with a host, and the timer.

Only `REPLICAOF` with a host writes to `masterHost_` (`Does.masterHost`), and the trace tells when it does. So from a
promotion that has left no host on, there is none until the next such event, and by `Tied` there is no link in between
(`unlinked_of_promoted`).
-/

namespace RedisDb

variable {S : Type}

/-- There has been a promotion that left no `masterHost_`, and the server has been given no master
since. -/
def PromotedForGood (es : List Event) : Prop :=
  ∃ es₁ es₂, es = es₁ ++ .promoted [] :: es₂ ∧ .masterSet ∉ es₂

/-- The last such promotion is among the events that have been added, or none of these gives the server
a master. -/
theorem PromotedForGood.of_append {es es' : List Event} (h : PromotedForGood (es ++ es')) :
    .promoted [] ∈ es' ∨ PromotedForGood es ∧ .masterSet ∉ es' := by
  obtain ⟨es₁, es₂, heq, hset⟩ := h
  rcases List.append_eq_append_iff.mp heq with ⟨as, -, hes'⟩ | ⟨bs, hes, hbs⟩
  · exact .inl (hes' ▸ List.mem_append_right as List.mem_cons_self)
  · cases bs with
    | nil =>
      rw [List.nil_append] at hbs
      exact .inl (hbs ▸ List.mem_cons_self)
    | cons e bs =>
      obtain ⟨rfl, hes₂⟩ := List.cons.inj hbs
      replace hes₂ : es₂ = bs ++ es' := hes₂
      rw [hes₂, List.mem_append, not_or] at hset
      exact .inr ⟨⟨es₁, bs, hes, hset.1⟩, hset.2⟩

namespace Server

/-- There is no link to a master: no connection to one is open, the input of no client is taken for
what a master sends, and the timer opens no connection. -/
structure Unlinked (s : Server S) : Prop where
  masterClient : s.masterClient = none
  clients : ∀ id cl, s.clients.lookup id = some cl → cl.hasFlag .master = false
  timer : s.replicationCron = s

/-! ### Steps that leave the link alone -/

/-- The two states agree on the link to the master. -/
structure SameLink (s t : Server S) : Prop where
  masterHost : t.masterHost = s.masterHost
  masterClient : t.masterClient = s.masterClient
  replState : t.replState = .connect → s.replState = .connect
  clients : ∀ {i cl'}, t.clients.lookup i = some cl' → cl'.hasFlag .master = true →
    ∃ cl, s.clients.lookup i = some cl ∧ cl.hasFlag .master = true
  trace : ∃ es, t.trace = s.trace ++ es ∧ ∀ host, .promoted host ∈ es → host = s.masterHost

namespace SameLink

variable {s t u : Server S} {id : ClientId}

/-- Where neither the clients nor the link change. -/
theorem of_eq (hclients : t.clients = s.clients) (hhost : t.masterHost = s.masterHost)
    (hmaster : t.masterClient = s.masterClient) (hstate : t.replState = s.replState)
    (htrace : t.trace = s.trace) : SameLink s t where
  masterHost := hhost
  masterClient := hmaster
  replState h := hstate ▸ h
  clients {_ cl'} hcl' hflag := ⟨cl', hclients ▸ hcl', hflag⟩
  trace := ⟨[], by rw [htrace, List.append_nil], by simp⟩

/-- Where nothing happens. -/
theorem refl (s : Server S) : SameLink s s := of_eq rfl rfl rfl rfl rfl

/-- One step after another. -/
theorem trans (h : SameLink s t) (h' : SameLink t u) : SameLink s u where
  masterHost := h'.masterHost.trans h.masterHost
  masterClient := h'.masterClient.trans h.masterClient
  replState hu := h.replState (h'.replState hu)
  clients hcl'' hflag := by
    obtain ⟨cl', hcl', hflag'⟩ := h'.clients hcl'' hflag
    exact h.clients hcl' hflag'
  trace := by
    obtain ⟨es, hes, hhost⟩ := h.trace
    obtain ⟨es', hes', hhost'⟩ := h'.trace
    refine ⟨es ++ es', by rw [hes', hes, List.append_assoc], fun host hmem => ?_⟩
    rcases List.mem_append.mp hmem with hmem | hmem
    · exact hhost host hmem
    · exact (hhost' host hmem).trans h.masterHost

/-- An event that is no promotion. -/
theorem note {e : Event} (he : ∀ host, e ≠ .promoted host) (s : Server S) : SameLink s (s.note e) where
  masterHost := rfl
  masterClient := rfl
  replState h := h
  clients {_ cl'} hcl' hflag := ⟨cl', hcl', hflag⟩
  trace := ⟨[e], rfl, fun host hmem => absurd (List.mem_singleton.mp hmem).symm (he host)⟩

/-- What is aside of the link. -/
theorem aside (h : s.Aside t) : SameLink s t where
  masterHost := h.masterHost
  masterClient := h.masterClient
  replState := h.replState
  clients {_ cl'} hcl' hflag := ⟨cl', h.clients ▸ hcl', hflag⟩
  trace := by
    obtain ⟨es, hes, haside, -⟩ := h.trace
    exact ⟨es, hes, fun host hmem => haside _ hmem⟩

/-- A step that changes one client, and not whether it is the link. -/
theorem update {cl cl' : Client} (hcl : s.clients.lookup id = some cl)
    (hclients : t.clients = s.clients.insert id cl') (hflag : cl'.hasFlag .master = cl.hasFlag .master)
    (hhost : t.masterHost = s.masterHost) (hmaster : t.masterClient = s.masterClient)
    (hstate : t.replState = s.replState) (htrace : t.trace = s.trace) : SameLink s t where
  masterHost := hhost
  masterClient := hmaster
  replState h := hstate ▸ h
  clients {i cl₁} hcl₁ hflag₁ := by
    rw [hclients, UnorderedMap.lookup_insert_eq_ite] at hcl₁
    split at hcl₁
    · next heq =>
      obtain rfl := Option.some.inj hcl₁
      exact ⟨cl, heq ▸ hcl, hflag ▸ hflag₁⟩
    · exact ⟨cl₁, hcl₁, hflag₁⟩
  trace := ⟨[], by rw [htrace, List.append_nil], by simp⟩

/-- A change of a client that keeps the flag. -/
theorem updateClient {f : Client → Client}
    (hf : ∀ cl : Client, (f cl).hasFlag .master = cl.hasFlag .master)
    (h : s.updateClient id f = some t) : SameLink s t := by
  obtain ⟨cl, hcl, rfl⟩ := Option.map_eq_some_iff.mp h
  exact update hcl rfl (hf cl) rfl rfl rfl rfl

/-- A reply, also one to the master. -/
theorem addReply {data : Bytes} (h : s.addReply id data = some t) : SameLink s t := by
  obtain ⟨u, hu, rfl⟩ := Option.map_eq_some_iff.mp h
  exact (updateClient (fun cl => cl.hasFlag_addReply data _) hu).trans (note (by simp) u)

/-- A write handler. -/
theorem installWriteHandler (id : ClientId) (s : Server S) :
    SameLink s (s.installWriteHandler id) := by
  unfold Server.installWriteHandler
  split
  · exact of_eq rfl rfl rfl rfl rfl
  · exact refl s

/-- A published message. -/
theorem deliver {data : Bytes} (h : s.deliver id data = some t) : SameLink s t := by
  obtain ⟨u, hu, rfl⟩ := Option.map_eq_some_iff.mp h
  exact (addReply hu).trans (installWriteHandler id u)

/-- By induction on the clients. -/
theorem flagDirty (ids : List ClientId) : ∀ {s t : Server S}, s.flagDirty ids = some t →
    SameLink s t := by
  induction ids with
  | nil => exact fun h => Option.some.inj h ▸ refl _
  | cons id ids ih =>
    intro s t h
    obtain ⟨u, hu, ht⟩ := Option.bind_eq_some_iff.mp h
    have hflag (cl : Client) : (cl.setFlag .dirtyExec).hasFlag .master = cl.hasFlag .master := by
      rw [Client.hasFlag_setFlag, if_neg (by decide)]
    exact (updateClient hflag hu).trans (ih ht)

/-- The databases are no part of the link. -/
theorem putDatabases {databases : List (Database S)} {env : Env}
    (h : s.putDatabases databases env = some t) : SameLink s t := by
  have hput : SameLink s { s with databases := databases, env := env } := of_eq rfl rfl rfl rfl rfl
  exact hput.trans (flagDirty _ h)

/-- A watch. -/
theorem watch {i : ℕ} {key : Bytes} (h : s.watch id i key = some t) : SameLink s t := by
  obtain ⟨db, -, h⟩ := Option.bind_eq_some_iff.mp h
  obtain ⟨cl, hcl, rfl⟩ := Option.map_eq_some_iff.mp h
  exact update hcl rfl rfl rfl rfl rfl rfl

/-- The end of a watch. -/
theorem unwatch (h : s.unwatch id = some t) : SameLink s t := by
  obtain ⟨cl, hcl, rfl⟩ := Option.map_eq_some_iff.mp h
  exact update hcl rfl rfl rfl rfl rfl rfl

/-- A subscription. -/
theorem subscribeChannel {channel : Bytes} (h : s.subscribeChannel id channel = some t) :
    SameLink s t := by
  obtain ⟨cl, hcl, rfl⟩ := Option.map_eq_some_iff.mp h
  split
  · exact refl s
  · exact update hcl rfl rfl rfl rfl rfl rfl

/-- Its end. -/
theorem unsubscribeChannel {channel : Bytes} (h : s.unsubscribeChannel id channel = some t) :
    SameLink s t := by
  obtain ⟨cl, hcl, rfl⟩ := Option.map_eq_some_iff.mp h
  split
  · exact update hcl rfl rfl rfl rfl rfl rfl
  · exact refl s

/-- The same of a pattern. -/
theorem psubscribePattern {pattern : Bytes} (h : s.psubscribePattern id pattern = some t) :
    SameLink s t := by
  obtain ⟨cl, hcl, rfl⟩ := Option.map_eq_some_iff.mp h
  split
  · exact refl s
  · exact update hcl rfl rfl rfl rfl rfl rfl

/-- The same of a pattern. -/
theorem punsubscribePattern {pattern : Bytes} (h : s.punsubscribePattern id pattern = some t) :
    SameLink s t := by
  obtain ⟨cl, hcl, rfl⟩ := Option.map_eq_some_iff.mp h
  split
  · exact update hcl rfl rfl rfl rfl rfl rfl
  · exact refl s

/-- A client that comes to wait. -/
theorem blockClient {keys : List Bytes} {timeout : ℤ} {cmd : RespValue} {target : Bytes}
    (h : s.blockClient id keys timeout cmd target = some t) : SameLink s t := by
  obtain ⟨cl, deadline, env, hcl, rfl⟩ := blockClient_spec h
  have hflag : (cl.setFlag .blocked).hasFlag .master = cl.hasFlag .master := by
    rw [Client.hasFlag_setFlag, if_neg (by decide)]
  refine trans (t := { s with
    clients := s.clients.insert id { cl.setFlag .blocked with
      blockedKeys := keys, blockTimeout := deadline, blockTarget := target, blockCmd := cmd }
    env := env, blockedClients := s.blockedClients.pushAll keys id }) ?_ (note (by simp) _)
  exact update hcl rfl hflag rfl rfl rfl rfl

/-- A client that waits no longer. -/
theorem unblockClient (h : s.unblockClient id = some t) : SameLink s t := by
  obtain ⟨cl, hcl, rfl⟩ := Option.map_eq_some_iff.mp h
  have hflag : cl.clearBlockState.hasFlag .master = cl.hasFlag .master := by
    rw [Client.clearBlockState, Client.hasFlag_clearFlag, if_neg (by decide)]
    rfl
  split
  · exact update hcl rfl hflag rfl rfl rfl rfl
  · exact refl s

/-- A replica is the other end of another link. -/
theorem addReplica (h : s.addReplica id = some t) : SameLink s t := by
  obtain ⟨u, hu, rfl⟩ := Option.map_eq_some_iff.mp h
  have hflag (cl : Client) : (cl.setFlag .slave).hasFlag .master = cl.hasFlag .master := by
    rw [Client.hasFlag_setFlag, if_neg (by decide)]
  have hlisted : SameLink u { u with replicas := u.replicas ++ [id] } := of_eq rfl rfl rfl rfl rfl
  exact ((updateClient hflag hu).trans hlisted).trans (note (by simp) _)

/-- The log has nothing to do with the master. -/
theorem complete {writes : Bool} {cmd : List RespValue} {r : Except Exn Unit}
    (h : s.complete id writes cmd = some (r, t)) : SameLink s t :=
  complete_keeps (note (by simp) s) (fun _ => logWrite_keeps (I := SameLink s)
    (fun _ hs => hs.trans (of_eq rfl rfl rfl rfl rfl)) (fun _ _ hu => hu.trans (of_eq rfl rfl rfl rfl rfl))
    fun _ _ hv hu => (hu.trans (updateClient (fun cl => cl.hasFlag_addReply _ _) hv)).trans (note (by simp) _)) h

end SameLink

/-! ### Steps that close the link -/

section Close

variable {s t : Server S} {id : ClientId}

/-- Nothing is added to the trace about a promotion. -/
def Unpromoted (s t : Server S) : Prop :=
  ∃ es, t.trace = s.trace ++ es ∧ ∀ host, .promoted host ∉ es

/-- The link goes where the client is the link, and the host stays in any case. -/
theorem link_closeReplication (id : ClientId) (cl : Client) (s : Server S) :
    (s.closeReplication id cl).masterHost = s.masterHost ∧
      ((s.closeReplication id cl).masterClient = none ∨
        (s.closeReplication id cl).masterClient = s.masterClient ∧
          (s.closeReplication id cl).replState = s.replState) ∧
      (s.masterClient ≠ some id → (s.closeReplication id cl).masterClient = s.masterClient) := by
  unfold closeReplication
  dsimp only
  -- being a replica has nothing to do with it
  split
  all_goals
    split
    · next hmaster => exact ⟨rfl, .inl rfl, fun hne => absurd hmaster hne⟩
    · exact ⟨rfl, .inr ⟨rfl, rfl⟩, fun _ => rfl⟩

/-- Removing a client closes the link where the client is the link, and does nothing else about it. -/
theorem link_removeClient (h : s.removeClient id = some t) :
    t.masterHost = s.masterHost ∧ Unpromoted s t ∧
      (t.masterClient = none ∨
        t.masterClient = s.masterClient ∧ (t.replState = .connect → s.replState = .connect)) ∧
      (s.masterClient ≠ some id → t.masterClient = s.masterClient) := by
  unfold removeClient at h
  split at h
  · obtain rfl := Option.some.inj h
    exact ⟨rfl, ⟨[], (List.append_nil _).symm, by simp⟩, .inr ⟨rfl, fun h => h⟩, fun _ => rfl⟩
  · obtain ⟨u, hu, rfl⟩ := Option.map_eq_some_iff.mp h
    have htrace := (silent_closeClient hu).trace
    obtain ⟨cl, hcl, hu⟩ := Option.bind_eq_some_iff.mp hu
    obtain ⟨v, hv, hu⟩ := Option.bind_eq_some_iff.mp hu
    obtain ⟨w, hw, hu⟩ := Option.bind_eq_some_iff.mp hu
    obtain rfl := Option.some.inj hu
    have hclosed : SameLink s (s.closeSubscriptions id cl) := .update hcl rfl rfl rfl rfl rfl rfl
    -- what is closed before the link has to do with other tables
    have hsame := (hclosed.trans (.unblockClient hv)).trans (.unwatch hw)
    obtain ⟨hhost, hmaster, hother⟩ := link_closeReplication id cl w
    refine ⟨hhost.trans hsame.masterHost, ⟨[_], congrArg (· ++ [_]) htrace, by simp⟩, ?_,
      fun hne => ?_⟩
    · exact hmaster.imp_right fun ⟨hclient, hstate⟩ =>
        ⟨hclient.trans hsame.masterClient, fun h => hsame.replState (hstate.symm.trans h)⟩
    · exact (hother (hsame.masterClient.symm ▸ hne)).trans hsame.masterClient

/-- Where only the client in `masterClient_` can be the link, `disconnectFromMaster` leaves none. -/
theorem link_disconnectFromMaster
    (hs : ∀ i cl, s.clients.lookup i = some cl → cl.hasFlag .master = true → s.masterClient = some i)
    (h : s.disconnectFromMaster = some t) :
    t.masterHost = s.masterHost ∧ Unpromoted s t ∧ t.masterClient = none ∧
      ∀ i cl, t.clients.lookup i = some cl → cl.hasFlag .master = false := by
  unfold disconnectFromMaster at h
  split at h
  · next hnone =>
    obtain rfl := Option.some.inj h
    refine ⟨rfl, ⟨[], (List.append_nil _).symm, by simp⟩, hnone, fun i cl hcl => ?_⟩
    refine Bool.eq_false_of_not_eq_true fun hflag => ?_
    cases hnone.symm.trans (hs i cl hcl hflag)
  · next id hsome =>
    split at h
    · cases h
    · obtain ⟨u, hu, rfl⟩ := Option.map_eq_some_iff.mp h
      obtain ⟨hhost, hevents, hmaster, -⟩ := link_removeClient hu
      refine ⟨hhost, hevents, hmaster.elim (fun h => h) And.left, fun i cl hcl => ?_⟩
      refine Bool.eq_false_of_not_eq_true fun hflag => ?_
      -- a client that still has the flag had it before, so it is the one that has been removed
      have hcl : u.clients.lookup i = some cl := hcl
      have hbefore := lookup_of_removeClient hu hcl
      obtain rfl : id = i := Option.some.inj (hsome.symm.trans (hs i cl hbefore hflag))
      cases (lookup_removeClient hu).symm.trans hcl

/-- Closing the link leaves `masterHost_`. -/
theorem host_disconnectFromMaster (h : s.disconnectFromMaster = some t) :
    t.masterHost = s.masterHost ∧ s.trace <+: t.trace := by
  unfold disconnectFromMaster at h
  split at h
  · exact Option.some.inj h ▸ ⟨rfl, List.prefix_rfl⟩
  · split at h
    · cases h
    · obtain ⟨u, hu, rfl⟩ := Option.map_eq_some_iff.mp h
      obtain ⟨hhost, ⟨es, hes, -⟩, -⟩ := link_removeClient hu
      exact ⟨hhost, hes ▸ List.prefix_append _ _⟩

end Close

/-! ### The state of the link over a run -/

/-- Only the client in `masterClient_` can be the link to a master. There is none while it is to be
connected, and none without a `masterHost_`, which a promotion leaves as it is. -/
structure Tied (s : Server S) : Prop where
  clients : ∀ i cl, s.clients.lookup i = some cl → cl.hasFlag .master = true → s.masterClient = some i
  connect : s.replState = .connect → s.masterClient = none
  host : s.masterHost = [] → s.masterClient = none
  promoted : PromotedForGood s.trace → s.masterHost = []

namespace Tied

variable {s t : Server S} {id : ClientId}

/-- When the server starts there is no client, and no host. -/
theorem of_starts (h : s.Starts) : s.Tied where
  clients i cl hcl := by
    rw [h.clients, UnorderedMap.lookup_empty] at hcl
    cases hcl
  connect _ := h.masterClient
  host _ := h.masterClient
  promoted := by
    rintro ⟨es₁, es₂, heq, -⟩
    rw [h.trace] at heq
    cases es₁ <;> cases heq

/-- The promotions of a state that has been promoted no more since an earlier one. -/
theorem promoted_of (hs : s.Tied) (hevents : Unpromoted s t) (h : PromotedForGood t.trace) :
    s.masterHost = [] := by
  obtain ⟨es, hes, hhost⟩ := hevents
  rw [hes] at h
  exact h.of_append.elim (fun hmem => absurd hmem (hhost _)) fun h => hs.promoted h.1

/-- A step that leaves the link alone. -/
theorem sameLink (hs : s.Tied) (h : SameLink s t) : t.Tied where
  clients i cl hcl hflag := by
    obtain ⟨cl', hcl', hflag'⟩ := h.clients hcl hflag
    exact h.masterClient.trans (hs.clients i cl' hcl' hflag')
  connect hstate := h.masterClient.trans (hs.connect (h.replState hstate))
  host hhost := h.masterClient.trans (hs.host (h.masterHost ▸ hhost))
  promoted hpromoted := by
    obtain ⟨es, hes, hhost⟩ := h.trace
    rw [hes] at hpromoted
    rw [h.masterHost]
    rcases hpromoted.of_append with hmem | ⟨hpromoted, -⟩
    · exact (hhost _ hmem).symm
    · exact hs.promoted hpromoted

/-- A client that is removed, the link or another. -/
theorem removeClient (hs : s.Tied) (h : s.removeClient id = some t) : t.Tied := by
  obtain ⟨hhost, hevents, hmaster, hother⟩ := link_removeClient h
  constructor
  · intro i cl hcl hflag
    have hlink := hs.clients i cl (lookup_of_removeClient h hcl) hflag
    refine (hother fun hid => ?_).trans hlink
    obtain rfl : id = i := Option.some.inj (hid.symm.trans hlink)
    cases (lookup_removeClient h).symm.trans hcl
  · exact fun hstate => hmaster.elim (fun h => h) fun h => h.1.trans (hs.connect (h.2 hstate))
  · exact fun hnil => hmaster.elim (fun h => h) fun h => h.1.trans (hs.host (hhost ▸ hnil))
  · exact fun hpromoted => hhost.trans (hs.promoted_of hevents hpromoted)

/-- The link is closed, and is to be connected again. -/
theorem disconnectFromMaster (hs : s.Tied) (h : s.disconnectFromMaster = some t) : t.Tied := by
  obtain ⟨hhost, hevents, hnone, hflags⟩ := link_disconnectFromMaster hs.clients h
  exact
    { clients := fun i cl hcl hflag => by rw [hflags i cl hcl] at hflag; cases hflag
      connect := fun _ => hnone
      host := fun _ => hnone
      promoted := fun hpromoted => hhost.trans (hs.promoted_of hevents hpromoted) }

/-- `REPLICAOF` with a host closes the link to the one before. -/
theorem replicate {host : Bytes} {port : ℤ} (hs : s.Tied)
    (h : (s.setMaster host port).disconnectFromMaster = some t) : t.Tied := by
  obtain ⟨-, ⟨es, hes, hhost⟩, hnone, hflags⟩ := link_disconnectFromMaster
    (s := s.setMaster host port) hs.clients h
  refine
    { clients := fun i cl hcl hflag => by rw [hflags i cl hcl] at hflag; cases hflag
      connect := fun _ => hnone
      host := fun _ => hnone
      promoted := fun hpromoted => ?_ }
  -- the master that has just been set ends every promotion before it
  have htrace : t.trace = s.trace ++ (.masterSet :: es) := by
    rw [hes]
    show s.trace ++ [.masterSet] ++ es = _
    rw [List.append_assoc]
    rfl
  rw [htrace] at hpromoted
  rcases hpromoted.of_append with hmem | ⟨-, hset⟩
  · rcases List.mem_cons.mp hmem with heq | hmem
    · cases heq
    · exact absurd hmem (hhost _)
  · exact absurd List.mem_cons_self hset

/-- A client that is made without the flag is not the link. -/
theorem makeClient (hs : s.Tied) {f : Client → Client}
    (hf : ∀ cl, (f cl).hasFlag .master = cl.hasFlag .master) : (s.makeClient f).2.Tied := by
  refine ⟨fun i cl hcl hflag => ?_, hs.connect, hs.host, hs.promoted⟩
  simp only [Server.makeClient, steadyNow, UnorderedMap.lookup_insert_eq_ite] at hcl
  split at hcl
  · obtain rfl := Option.some.inj hcl
    rw [hf] at hflag
    cases hflag
  · exact hs.clients i cl hcl hflag

/-- **The link is made**, where there was none. -/
theorem connectToMaster (hs : s.Tied) (hhost : s.masterHost ≠ []) (hstate : s.replState = .connect) :
    s.connectToMaster.Tied := by
  unfold Server.connectToMaster
  dsimp only
  split
  · exact hs.sameLink (.of_eq rfl rfl rfl rfl rfl)
  · constructor
    · intro i cl hcl hflag
      simp only [note, Server.makeClient, steadyNow, UnorderedMap.lookup_insert_eq_ite] at hcl
      split at hcl
      · next heq => exact heq ▸ rfl
      · -- no other client is a link, for there was none to be connected
        have hlink := hs.clients i cl hcl hflag
        rw [hs.connect hstate] at hlink
        cases hlink
    · intro hconnect
      cases hconnect
    · exact fun hnil => absurd hnil hhost
    · intro hpromoted
      have hevents : Unpromoted s (s.note (.reply s.nextClient
          (RespSerializer.bulkStringArray [str "PING"]))) := ⟨[_], rfl, by simp⟩
      exact absurd (hs.promoted_of hevents hpromoted) hhost

/-- Without a `masterHost_` there is no link, and none is opened. -/
theorem unlinked (hs : s.Tied) (hhost : s.masterHost = []) : s.Unlinked where
  masterClient := hs.host hhost
  clients i cl hcl := Bool.eq_false_of_not_eq_true fun hflag => by
    cases (hs.host hhost).symm.trans (hs.clients i cl hcl hflag)
  timer := if_neg fun h => h.1 hhost

end Tied

/-! ### Runs -/

section Runs

variable [Platform] {s t : Server S} {id : ClientId}

/-- **What code does keeps the state of the link together.** By cases on what code can do: a link is closed by
removing its client or by `disconnectFromMaster`, and a host is set by `REPLICAOF` only. -/
theorem Does.tied {k : Option RespValue} {c : Option ClientId} (h : Does k c s t) (hs : s.Tied) :
    t.Tied := by
  induction h with
  | refl => exact hs
  | trans _ _ ih ih' => exact ih' (ih hs)
  | handler _ ih => exact ih hs
  | aside h => exact hs.sameLink (.aside h)
  | own hcl hsame => exact hs.sameLink (.update hcl rfl hsame.master rfl rfl rfl rfl)
  | reply h => exact hs.sameLink (.addReply h)
  | deliver h => exact hs.sameLink (.deliver h)
  | database _ _ h => exact hs.sameLink (.putDatabases h)
  | scanned _ _ h => exact hs.sameLink (.putDatabases h)
  | watch h => exact hs.sameLink (.watch h)
  | unwatch h => exact hs.sameLink (.unwatch h)
  | subscribe h => exact hs.sameLink (.subscribeChannel h)
  | unsubscribe h => exact hs.sameLink (.unsubscribeChannel h)
  | psubscribe h => exact hs.sameLink (.psubscribePattern h)
  | punsubscribe h => exact hs.sameLink (.punsubscribePattern h)
  | block _ h => exact hs.sameLink (.blockClient h)
  | @unblock _ _ id cl _ _ _ h =>
    exact (hs.sameLink (.unblockClient h)).sameLink (.note (e := .woken id cl.blockCmd) (by simp) _)
  | attach h => exact hs.sameLink (.addReplica h)
  -- the three steps that touch the link, each with its lemma
  | remove h => exact hs.removeClient h
  | disconnect h => exact hs.disconnectFromMaster h
  | replicate h => exact hs.replicate h
  | completed _ h => exact hs.sameLink (.complete h)
  | @wake _ _ id cl _ _ _ _ h _ ih =>
    have hwoken := (hs.sameLink (.unblockClient h)).sameLink (.note (e := .woken id cl.blockCmd) (by simp) _)
    exact (ih hwoken).sameLink (.installWriteHandler _ _)

/-- **So does a run.** By induction on the run: only the timer makes a link, and it does so where there is a host and
no link yet. -/
theorem Moves.tied (h : Moves s t) (hs : s.Tied) : t.Tied := by
  induction h with
  | refl => exact hs
  | trans _ _ ih ih' => exact ih' (ih hs)
  | does _ h => exact h.tied hs
  | accepted =>
    -- a new client is no link to a master
    unfold addClient
    split
    · exact hs
    · exact hs.makeClient fun _ => rfl
  | linked hhost hstate => exact hs.connectToMaster hhost hstate
  | @flushed seconds s =>
    refine hs.sameLink ?_
    unfold flushAof
    split
    · split <;> exact .of_eq rfl rfl rfl rfl rfl
    · exact .of_eq rfl rfl rfl rfl rfl
  | timedOut h =>
    -- a client that times out gets a reply and waits no longer; the link stays
    obtain ⟨cl, hcl, h⟩ := Option.bind_eq_some_iff.mp h
    split at h
    · obtain ⟨u, hu, h⟩ := Option.bind_eq_some_iff.mp h
      obtain ⟨v, hv, rfl⟩ := Option.map_eq_some_iff.mp hu
      have hreplied := SameLink.updateClient (fun cl => cl.hasFlag_addReply _ _) hv
      exact ((hs.sameLink hreplied).sameLink (.note (by simp) v)).sameLink (.unblockClient h)
    · exact Option.some.inj h ▸ hs
  | received _ hcl => exact hs.sameLink (.update hcl rfl rfl rfl rfl rfl rfl)
  | taken hcl hsame => exact hs.sameLink (.update hcl rfl hsame.master rfl rfl rfl rfl)
  | @answered id _ s =>
    refine hs.sameLink ?_
    split
    · exact (SameLink.installWriteHandler id s).trans (.of_eq rfl rfl rfl rfl rfl)
    · exact .of_eq rfl rfl rfl rfl rfl
  | hungUp | sentAll => exact hs.sameLink (.of_eq rfl rfl rfl rfl rfl)
  | sent answer hcl => exact hs.sameLink (.update hcl rfl (answer.hasFlag_apply _ _) rfl rfl rfl rfl)

/-- **Only `REPLICAOF` with a host writes to `masterHost_`.** -/
theorem Does.masterHost {k : Option RespValue} {c : Option ClientId} (h : Does k c s t)
    (hset : .masterSet ∉ t.trace) : t.masterHost = s.masterHost := by
  induction h with
  | refl => rfl
  | trans _ h' ih ih' => exact (ih' hset).trans (ih (mt (h'.grows.trace.subset ·) hset))
  | handler _ ih => exact ih hset
  | aside h => exact h.masterHost
  | own hcl hsame => rfl
  | reply h => exact (SameLink.addReply h).masterHost
  | deliver h => exact (SameLink.deliver h).masterHost
  | database _ _ h => exact (SameLink.putDatabases h).masterHost
  | scanned _ _ h => exact (SameLink.putDatabases h).masterHost
  | watch h => exact (SameLink.watch h).masterHost
  | unwatch h => exact (SameLink.unwatch h).masterHost
  | subscribe h => exact (SameLink.subscribeChannel h).masterHost
  | unsubscribe h => exact (SameLink.unsubscribeChannel h).masterHost
  | psubscribe h => exact (SameLink.psubscribePattern h).masterHost
  | punsubscribe h => exact (SameLink.punsubscribePattern h).masterHost
  | block _ h => exact (SameLink.blockClient h).masterHost
  | unblock _ h => exact (SameLink.unblockClient h).masterHost
  | attach h => exact (SameLink.addReplica h).masterHost
  | remove h => exact (link_removeClient h).1
  -- `disconnectFromMaster` keeps the host
  | disconnect h => exact (host_disconnectFromMaster h).1
  | @replicate _ _ host port s _ h =>
    -- this is where one is set
    have hmem : Event.masterSet ∈ (s.setMaster host port).trace :=
      List.mem_append_right _ List.mem_cons_self
    exact absurd ((host_disconnectFromMaster h).2.subset hmem) hset
  | completed _ h => exact (SameLink.complete h).masterHost
  | @wake _ _ id _ _ _ u _ h _ ih =>
    have hinstalled := SameLink.installWriteHandler id u
    obtain ⟨es, hes, -⟩ := hinstalled.trace
    rw [hes, List.mem_append, not_or] at hset
    exact hinstalled.masterHost.trans ((ih hset.1).trans (SameLink.unblockClient h).masterHost)

/-- Nor does a run without such a command. -/
theorem Moves.masterHost (h : Moves s t) (hset : .masterSet ∉ t.trace) : t.masterHost = s.masterHost := by
  induction h with
  | refl => rfl
  | trans _ h' ih ih' => exact (ih' hset).trans (ih (mt (h'.trace_prefix.subset ·) hset))
  | does _ h => exact h.masterHost hset
  | accepted =>
    unfold addClient
    split <;> rfl
  | linked =>
    unfold connectToMaster
    dsimp only
    split <;> rfl
  | @flushed _ s =>
    show s.flushAof.masterHost = _
    unfold flushAof
    split
    · split <;> rfl
    · rfl
  | timedOut h =>
    -- a client whose time is up is answered and unblocked
    obtain ⟨cl, hcl, h⟩ := Option.bind_eq_some_iff.mp h
    split at h
    · obtain ⟨u, hu, h⟩ := Option.bind_eq_some_iff.mp h
      obtain ⟨v, hv, rfl⟩ := Option.map_eq_some_iff.mp hu
      have hreplied := SameLink.updateClient (fun cl => cl.hasFlag_addReply _ _) hv
      exact (SameLink.unblockClient h).masterHost.trans hreplied.masterHost
    · exact Option.some.inj h ▸ rfl
  | received | taken | hungUp | sent | sentAll => rfl
  | @answered id _ s =>
    split
    · exact (SameLink.installWriteHandler id s).masterHost
    · rfl

omit [Platform] in
/-- A server that has been promoted and still has a `masterHost_` is linked again as soon as a
connection can be initiated. -/
theorem relinked_of_disconnectFromMaster (h : s.disconnectFromMaster = some t)
    (hhost : t.masterHost ≠ []) (hconnects : t.outside.connects 0 = true) :
    t.replicationCron.masterClient = some t.nextClient := by
  have hstate : t.replState = .connect := by
    unfold disconnectFromMaster at h
    split at h
    · exact Option.some.inj h ▸ rfl
    · split at h
      · cases h
      · obtain ⟨u, -, rfl⟩ := Option.map_eq_some_iff.mp h
        rfl
  rw [replicationCron, if_pos ⟨hhost, hstate⟩, connectToMaster, hconnects]
  rfl

variable [Double S] [Inhabited S] [LT S] [DecidableLT S] [BEq S]

/-- **Promotion is final where it leaves no `masterHost_`.** From then on and until the server is given a master there
is no link to a master: in every state between callbacks, and between the commands of one callback. The invariant is
`Tied`: a link belongs to a `masterHost_`, and once a promotion has left it empty, no step but one that sets a master
fills it again. -/
theorem unlinked_of_promoted {reserve : Reserve} {depth : ℕ} {es es' : List Event}
    (h : Visited reserve depth t) (htrace : t.trace = es ++ .promoted [] :: es')
    (hset : .masterSet ∉ es') : t.Unlinked := by
  obtain ⟨start, hstart, hmoves⟩ := h.moves
  have htied := hmoves.tied (.of_starts hstart)
  exact htied.unlinked (htied.promoted ⟨es, es', htrace, hset⟩)

end Runs

section Sample

open Sample

/-- What an event tells about a master: that there is one, or what a promotion has left of it. -/
def masterOf : Event → Option (Option Bytes)
  | .masterSet => some none
  | .promoted host => some (some host)
  | _ => none

/-- A promotion is in a trace where it is among these. -/
theorem promoted_of_masterOf {es : List Event} {host : Bytes} (before : List (Option (Option Bytes)))
    {after : List (Option (Option Bytes))} (h : es.map masterOf = before ++ some (some host) :: after)
    (hafter : some none ∉ after) :
    ∃ es₁ es₂, es = es₁ ++ .promoted host :: es₂ ∧ .masterSet ∉ es₂ := by
  obtain ⟨es₁, rest, rfl, -, hrest⟩ := List.map_eq_append_iff.mp h
  obtain ⟨e, es₂, rfl, he, hes₂⟩ := List.map_eq_cons_iff.mp hrest
  have hevent : e = .promoted host := by
    cases e <;> cases he
    rfl
  exact ⟨es₁, es₂, by rw [hevent], fun hmem => hafter (hes₂ ▸ List.mem_map_of_mem hmem)⟩

/-- A server that never had a master is promoted, and the timer runs. -/
def promotedAlone : List Turn :=
  [.accept, sends 0 ["REPLICAOF", "NO", "ONE"], .cron]

/-- A server is given a master, is promoted, and the timer runs. -/
def promotedAway : List Turn :=
  [.accept, sends 0 ["REPLICAOF", "127.0.0.1", "6380"], .cron, sends 0 ["REPLICAOF", "NO", "ONE"],
    .cron]

/-- The server that never had a master has none at the tick. -/
theorem unlinked_of_promoted_alone : ∃ s, ran promotedAlone = some s ∧ s.Unlinked := by
  have hran : (ran promotedAlone).map (fun s => s.trace.map masterOf)
      = some [some (some []), none, none] := by decide +kernel
  obtain ⟨s, hs, hevents⟩ := Option.map_eq_some_iff.mp hran
  obtain ⟨es, es', htrace, hset⟩ := promoted_of_masterOf [] hevents (by decide)
  exact ⟨s, hs, unlinked_of_promoted (.callback (reachable_ran hs)) htrace hset⟩

/-- The other one connects to its master again. -/
theorem promoted_relinks : ¬∀ (s : Server Score) (es es' : List Event) (host : Bytes),
    Visited (fun _ => none) 2 s → s.trace = es ++ .promoted host :: es' → .masterSet ∉ es' →
    s.Unlinked := by
  intro hall
  have hran : (ran promotedAway).map (fun s => (s.trace.map masterOf, s.masterClient))
      = some ([some none, none, none, none, none, some (some (str "127.0.0.1")), none, none, none], some 2) := by
    decide +kernel
  obtain ⟨s, hs, hsample⟩ := Option.map_eq_some_iff.mp hran
  obtain ⟨hevents, hmaster⟩ := Prod.mk.inj hsample
  obtain ⟨es, es', htrace, hset⟩ :=
    promoted_of_masterOf [some none, none, none, none, none] hevents (by decide)
  have hunlinked := hall s es es' _ (.callback (reachable_ran hs)) htrace hset
  cases hmaster.symm.trans hunlinked.masterClient

end Sample

end Server

end RedisDb

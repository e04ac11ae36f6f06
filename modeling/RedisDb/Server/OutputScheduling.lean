import RedisDb.Server.Runs

/-!
# Pending output is scheduled

A client with output that has not been sent is to have a handler for `EVENT_WRITABLE`, or nothing sends it. While a
callback runs there are two exceptions: the client whose socket is being read, which `onReadable` looks after at its
end, and a woken client whose command is running. `Scheduled X` is the invariant, where `X` are the clients that are
looked after by somebody else at the moment.

Steps that give nobody output, and take no handler away from a client with output, keep it (`Mute`). Steps that append
are of two kinds. Where the code installs the handler itself, or appends to the client that it runs for, the invariant
is kept whatever the state was. The others note in the trace whether the client had a handler, or was being looked
after, when the output was appended.

Every place that appends output to another client has to install the handler itself. Two do not: the loop of
`propagateToReplicas`, and the timeouts in `serverCron`. As long as the clients they append to have a handler anyway,
no output is left unscheduled (`pending_output_scheduled`).
-/

namespace RedisDb

variable {S : Type}

/-- Output that is appended to a client whose output is looked after. -/
def Event.IsScheduled : Event → Prop
  | .propagated _ _ scheduled | .timedOut _ scheduled => scheduled = true
  | _ => True

/-- Output to a client whose output nobody looks after, as a test. -/
def Event.unscheduled : Event → Bool
  | .propagated _ _ scheduled | .timedOut _ scheduled => !scheduled
  | _ => false

namespace Server

/-- A client has output that has not been sent. -/
def Pending (id : ClientId) (s : Server S) : Prop :=
  ∃ cl, s.clients.lookup id = some cl ∧ cl.hasPendingOutput = true

/-- Every client with pending output has a handler, but the one whose socket is being read, and those
of `X`. -/
structure Scheduled (X : ClientId → Prop) (s : Server S) : Prop where
  serving : s.serving = true
  output : ∀ {id}, s.Pending id → id ∈ s.writable ∨ s.reading = some id ∨ X id

/-! ### Steps that give nobody output -/

/-- No client has output that it did not have, and no client with output loses its handler. -/
structure Mute (s t : Server S) : Prop where
  serving : t.serving = s.serving
  reading : t.reading = s.reading
  pending : ∀ {id}, t.Pending id → s.Pending id
  writable : ∀ {id}, id ∈ s.writable → t.Pending id → id ∈ t.writable

namespace Mute

variable {s t u : Server S} {id : ClientId}

/-- Where nothing happens. -/
theorem refl (s : Server S) : Mute s s := ⟨rfl, rfl, fun h => h, fun h _ => h⟩

/-- One step after another. -/
theorem trans (h : Mute s t) (h' : Mute t u) : Mute s u where
  serving := h'.serving.trans h.serving
  reading := h'.reading.trans h.reading
  pending hid := h.pending (h'.pending hid)
  writable hid hpending := h'.writable (h.writable hid (h'.pending hpending)) hpending

/-- A step that leaves the clients and their handlers alone. -/
theorem of_eq (hclients : t.clients = s.clients) (hwritable : t.writable = s.writable)
    (hserving : t.serving = s.serving) (hreading : t.reading = s.reading) : Mute s t where
  serving := hserving
  reading := hreading
  pending h := by rwa [Pending, hclients] at h
  writable h _ := hwritable ▸ h

/-- A note is no output. -/
theorem note (e : Event) (s : Server S) : Mute s (s.note e) := of_eq rfl rfl rfl rfl

/-- A step that changes one client, and not by giving it output. -/
theorem update {cl cl' : Client} (hcl : s.clients.lookup id = some cl)
    (hclients : t.clients = s.clients.insert id cl')
    (hpending : cl'.hasPendingOutput = true → cl.hasPendingOutput = true)
    (hwritable : t.writable = s.writable) (hserving : t.serving = s.serving)
    (hreading : t.reading = s.reading) : Mute s t where
  serving := hserving
  reading := hreading
  pending h := by
    obtain ⟨cl₁, hcl₁, hpending₁⟩ := h
    rw [hclients, UnorderedMap.lookup_insert_eq_ite] at hcl₁
    split at hcl₁
    · next heq =>
      subst heq
      exact ⟨cl, hcl, hpending (Option.some.inj hcl₁ ▸ hpending₁)⟩
    · exact ⟨cl₁, hcl₁, hpending₁⟩
  writable h _ := hwritable ▸ h

/-- A change of a client that leaves its output alone. -/
theorem updateClient {f : Client → Client}
    (hf : ∀ cl : Client, (f cl).hasPendingOutput = cl.hasPendingOutput)
    (h : s.updateClient id f = some t) : Mute s t := by
  obtain ⟨cl, hcl, rfl⟩ := Option.map_eq_some_iff.mp h
  exact update hcl rfl (fun hpending => hf cl ▸ hpending) rfl rfl rfl

/-- By induction on the clients. -/
theorem flagDirty (ids : List ClientId) : ∀ {s t : Server S}, s.flagDirty ids = some t →
    Mute s t := by
  induction ids with
  | nil => exact fun h => Option.some.inj h ▸ refl _
  | cons id ids ih =>
    intro s t h
    obtain ⟨u, hu, ht⟩ := Option.bind_eq_some_iff.mp h
    have hsame (cl : Client) : (cl.setFlag .dirtyExec).hasPendingOutput = cl.hasPendingOutput := rfl
    exact (updateClient hsame hu).trans (ih ht)

/-- The databases are put back, and clients are flagged. -/
theorem putDatabases {databases : List (Database S)} {env : Env}
    (h : s.putDatabases databases env = some t) : Mute s t := by
  have hput : Mute s { s with databases := databases, env := env } := of_eq rfl rfl rfl rfl
  exact hput.trans (flagDirty _ h)

/-- What is aside of the clients. -/
theorem aside (h : s.Aside t) : Mute s t := of_eq h.clients h.writable h.serving h.reading

/-- A client's own state. -/
theorem own {cl cl' : Client} (hcl : s.clients.lookup id = some cl) (h : cl.SameTables cl') :
    Mute s { s with clients := s.clients.insert id cl' } := by
  refine update hcl rfl (fun hpending => ?_) rfl rfl rfl
  rwa [Client.hasPendingOutput, h.outputBuffer, h.outputPos] at hpending

/-- A watch. -/
theorem watch {i : ℕ} {key : Bytes} (h : s.watch id i key = some t) : Mute s t := by
  obtain ⟨db, -, h⟩ := Option.bind_eq_some_iff.mp h
  obtain ⟨cl, hcl, rfl⟩ := Option.map_eq_some_iff.mp h
  exact update hcl rfl (fun hpending => hpending) rfl rfl rfl

/-- The end of a watch. -/
theorem unwatch (h : s.unwatch id = some t) : Mute s t := by
  obtain ⟨cl, hcl, rfl⟩ := Option.map_eq_some_iff.mp h
  exact update hcl rfl (fun hpending => hpending) rfl rfl rfl

/-- A subscription, before it is replied to. -/
theorem subscribeChannel {channel : Bytes} (h : s.subscribeChannel id channel = some t) :
    Mute s t := by
  obtain ⟨cl, hcl, rfl⟩ := Option.map_eq_some_iff.mp h
  split
  · exact refl s
  · exact update hcl rfl (fun hpending => hpending) rfl rfl rfl

/-- Its end. -/
theorem unsubscribeChannel {channel : Bytes} (h : s.unsubscribeChannel id channel = some t) :
    Mute s t := by
  obtain ⟨cl, hcl, rfl⟩ := Option.map_eq_some_iff.mp h
  split
  · exact update hcl rfl (fun hpending => hpending) rfl rfl rfl
  · exact refl s

/-- The same of a pattern. -/
theorem psubscribePattern {pattern : Bytes} (h : s.psubscribePattern id pattern = some t) :
    Mute s t := by
  obtain ⟨cl, hcl, rfl⟩ := Option.map_eq_some_iff.mp h
  split
  · exact refl s
  · exact update hcl rfl (fun hpending => hpending) rfl rfl rfl

/-- The same of a pattern. -/
theorem punsubscribePattern {pattern : Bytes} (h : s.punsubscribePattern id pattern = some t) :
    Mute s t := by
  obtain ⟨cl, hcl, rfl⟩ := Option.map_eq_some_iff.mp h
  split
  · exact update hcl rfl (fun hpending => hpending) rfl rfl rfl
  · exact refl s

/-- A client that comes to wait is replied nothing. -/
theorem blockClient {keys : List Bytes} {timeout : ℤ} {cmd : RespValue} {target : Bytes}
    (h : s.blockClient id keys timeout cmd target = some t) : Mute s t := by
  obtain ⟨cl, deadline, env, hcl, rfl⟩ := blockClient_spec h
  exact update hcl rfl (fun hpending => hpending) rfl rfl rfl

/-- Nor is one that waits no longer. -/
theorem unblockClient (h : s.unblockClient id = some t) : Mute s t := by
  obtain ⟨cl, hcl, rfl⟩ := Option.map_eq_some_iff.mp h
  split
  · exact update hcl rfl (fun hpending => hpending) rfl rfl rfl
  · exact refl s

/-- A client becomes a replica. -/
theorem addReplica (h : s.addReplica id = some t) : Mute s t := by
  obtain ⟨u, hu, rfl⟩ := Option.map_eq_some_iff.mp h
  have hsame (cl : Client) : (cl.setFlag .slave).hasPendingOutput = cl.hasPendingOutput := rfl
  exact (updateClient hsame hu).trans (of_eq rfl rfl rfl rfl)

/-- A client that is closed is sent nothing more. -/
theorem closeClient (h : s.closeClient id = some t) : Mute s t := by
  obtain ⟨cl, hcl, h⟩ := Option.bind_eq_some_iff.mp h
  obtain ⟨u, hu, h⟩ := Option.bind_eq_some_iff.mp h
  obtain ⟨v, hv, h⟩ := Option.bind_eq_some_iff.mp h
  obtain rfl := Option.some.inj h
  have hsubscriptions : Mute s (s.closeSubscriptions id cl) :=
    update hcl rfl (fun hpending => hpending) rfl rfl rfl
  have hreplication : Mute v (v.closeReplication id cl) := by
    unfold closeReplication
    dsimp only
    split <;> split <;> exact of_eq rfl rfl rfl rfl
  exact ((hsubscriptions.trans (unblockClient hu)).trans (unwatch hv)).trans hreplication

/-- A handler goes where there is no output. -/
theorem removeWriteHandler (hid : ¬s.Pending id) : Mute s (s.removeWriteHandler id) where
  serving := rfl
  reading := rfl
  pending h := h
  writable hmem hpending :=
    List.mem_filter.mpr ⟨hmem, decide_eq_true fun heq => hid (heq ▸ hpending)⟩

/-- A client that is removed takes its output along. -/
theorem removeClient (h : s.removeClient id = some t) : Mute s t := by
  unfold Server.removeClient at h
  split at h
  · exact Option.some.inj h ▸ refl s
  · obtain ⟨u, hu, rfl⟩ := Option.map_eq_some_iff.mp h
    -- nobody else's output changes
    have herase : Mute u { u with clients := u.clients.erase id } :=
      { serving := rfl
        reading := rfl
        pending := fun ⟨cl, hcl, hpending⟩ => by
          rw [UnorderedMap.lookup_erase_eq_ite] at hcl
          split at hcl
          · cases hcl
          · exact ⟨cl, hcl, hpending⟩
        writable := fun hmem _ => hmem }
    have hgone : ¬Pending id { u with clients := u.clients.erase id } := fun ⟨cl, hcl, _⟩ => by
      rw [AList.lookup_erase] at hcl
      cases hcl
    exact (((closeClient hu).trans herase).trans (removeWriteHandler hgone)).trans
      (of_eq rfl rfl rfl rfl)

/-- So does the link. -/
theorem disconnectFromMaster (h : s.disconnectFromMaster = some t) : Mute s t := by
  unfold Server.disconnectFromMaster at h
  split at h
  · exact Option.some.inj h ▸ of_eq rfl rfl rfl rfl
  · split at h
    · cases h
    · obtain ⟨u, hu, rfl⟩ := Option.map_eq_some_iff.mp h
      have hforget : Mute s { s with masterClient := none } := of_eq rfl rfl rfl rfl
      exact (hforget.trans (removeClient hu)).trans (of_eq rfl rfl rfl rfl)

end Mute

/-- Writing to a socket leaves no output that was not there. -/
theorem WriteResult.pending_of_apply (answer : WriteResult) {cl : Client}
    (h : (answer.apply cl).hasPendingOutput = true) : cl.hasPendingOutput = true := by
  cases answer with
  | wrote n =>
    simp only [apply, Client.hasPendingOutput] at h ⊢
    split at h
    · simp at h
    · simp only [decide_eq_true_eq] at h ⊢
      omega
  | wouldBlock | failed => exact h

/-! ### Steps that give output -/

namespace Scheduled

variable {X Y : ClientId → Prop} {s t : Server S} {id : ClientId}

/-- A step that gives nobody output keeps the invariant. -/
theorem mute (hs : s.Scheduled X) (h : Mute s t) : t.Scheduled X where
  serving := h.serving.trans hs.serving
  output {i} hpending := by
    rcases hs.output (h.pending hpending) with hw | hr | hx
    · exact .inl (h.writable hw hpending)
    · exact .inr (.inl (h.reading.trans hr))
    · exact .inr (.inr hx)

/-- More clients are looked after by somebody else. -/
theorem mono (hs : s.Scheduled X) (hXY : ∀ id, X id → Y id) : s.Scheduled Y :=
  ⟨hs.serving, fun hpending => (hs.output hpending).imp_right (Or.imp_right (hXY _))⟩

/-- A client that is looked after gets output. -/
theorem addOutput {data : Bytes} (hs : s.Scheduled X)
    (hid : id ∈ s.writable ∨ s.reading = some id ∨ X id)
    (h : s.updateClient id (·.addReply data) = some t) : t.Scheduled X := by
  obtain ⟨cl, hcl, rfl⟩ := Option.map_eq_some_iff.mp h
  refine ⟨hs.serving, fun {i} ⟨cl₁, hcl₁, hpending⟩ => ?_⟩
  rw [UnorderedMap.lookup_insert_eq_ite] at hcl₁
  split at hcl₁
  · next heq => exact heq ▸ hid
  · exact hs.output ⟨cl₁, hcl₁, hpending⟩

/-- A client gets a handler. -/
theorem installWriteHandler (hs : s.Scheduled fun i => X i ∨ i = id) :
    (s.installWriteHandler id).Scheduled X := by
  rw [Server.installWriteHandler, if_pos hs.serving]
  refine ⟨hs.serving, fun {i} hpending => ?_⟩
  rcases hs.output hpending with hw | hr | hx | rfl
  · exact .inl (List.mem_cons_of_mem _ hw)
  · exact .inr (.inl hr)
  · exact .inr (.inr hx)
  · exact .inl List.mem_cons_self

/-- **A published message** comes with its handler. -/
theorem deliver {data : Bytes} (hs : s.Scheduled X) (h : s.deliver id data = some t) :
    t.Scheduled X := by
  obtain ⟨u, hu, rfl⟩ := Option.map_eq_some_iff.mp h
  obtain ⟨v, hv, rfl⟩ := Option.map_eq_some_iff.mp hu
  have hmore : s.Scheduled fun i => X i ∨ i = id := hs.mono fun _ hx => .inl hx
  have hv := hmore.addOutput (.inr (.inr (.inr rfl))) hv
  exact (hv.mute (.note _ v)).installWriteHandler

/-- What is logged goes to replicas, and each event tells that its replica is looked after. -/
theorem complete {writes : Bool} {args : List RespValue} {r : Except Exn Unit} (hs : s.Scheduled X) (hid : X id)
    (h : s.complete id writes args = some (r, t)) (hscheduled : ∀ e ∈ t.trace, e.IsScheduled) :
    t.Scheduled X := by
  let I (u : Server S) : Prop := (∀ e ∈ u.trace, e.IsScheduled) → u.Scheduled X
  refine complete_keeps (I := I) (fun _ => hs.mute (.note _ s)) (fun _ hlog => logWrite_keeps (I := I)
    (fun buffer hu hall => ?_) (fun u data hu hall => ?_) (fun {u v i args} _ _ hv hu hall => ?_) hlog) h hscheduled
  · exact (hu hall).mute (.of_eq rfl rfl rfl rfl)
  · exact (hu hall).mute (.of_eq rfl rfl rfl rfl)
  · have htrace : v.trace = u.trace := by
      obtain ⟨cl, -, rfl⟩ := Option.map_eq_some_iff.mp hv
      rfl
    -- the event says whether the replica had a handler
    have hnoted := hall _ (List.mem_append_right _ (List.mem_singleton_self _))
    have hi : i ∈ u.writable ∨ u.reading = some i ∨ X i := by
      rcases of_decide_eq_true hnoted with hw | rfl | hr
      · exact .inl hw
      · exact .inr (.inr hid)
      · exact .inr (.inl hr)
    exact ((hu fun e he => hall e (List.mem_append_left _ (htrace ▸ he))).addOutput hi hv).mute (.note _ v)

/-- A new client, which is looked after if it has output. -/
theorem makeClient (hs : s.Scheduled X) {f : Client → Client}
    (hf : ∀ cl : Client, cl.hasPendingOutput = false → (f cl).hasPendingOutput = true →
      X s.nextClient) : (s.makeClient f).2.Scheduled X := by
  refine ⟨hs.serving, fun {i} ⟨cl, hcl, hpending⟩ => ?_⟩
  simp only [Server.makeClient, steadyNow, UnorderedMap.lookup_insert_eq_ite] at hcl
  split at hcl
  · next heq =>
    obtain rfl := Option.some.inj hcl
    exact .inr (.inr (heq ▸ hf _ rfl hpending))
  · exact hs.output ⟨cl, hcl, hpending⟩

/-- So does the `PING` to a master. -/
theorem connectToMaster (hs : s.Scheduled X) : s.connectToMaster.Scheduled X := by
  unfold Server.connectToMaster
  dsimp only
  have hdrawn : Mute s { s with
      outside := { s.outside with connects := fun i => s.outside.connects (i + 1) } } :=
    .of_eq rfl rfl rfl rfl
  split
  · exact hs.mute hdrawn
  · have hmore : s.Scheduled fun i => X i ∨ i = s.nextClient := hs.mono fun _ hx => .inl hx
    have hmade := (hmore.mute hdrawn).makeClient (f := fun cl => (cl.setFlag .master).addReply
      (RespSerializer.bulkStringArray [str "PING"])) fun _ _ _ => .inr rfl
    refine ⟨hs.serving, fun {i} hpending => ?_⟩
    rcases @hmade.output i hpending with hw | hr | hx | rfl
    · exact .inl (List.mem_cons_of_mem _ hw)
    · exact .inr (.inl hr)
    · exact .inr (.inr hx)
    · exact .inl List.mem_cons_self

/-- A client gets output from a timeout. -/
theorem timeOut (hs : s.Scheduled X) (h : s.timeOut id = some t)
    (hscheduled : ∀ e ∈ t.trace, e.IsScheduled) : t.Scheduled X := by
  obtain ⟨cl, hcl, h⟩ := Option.bind_eq_some_iff.mp h
  split at h
  · obtain ⟨u, hu, h⟩ := Option.bind_eq_some_iff.mp h
    obtain ⟨v, hv, rfl⟩ := Option.map_eq_some_iff.mp hu
    -- the event tells that the client has a handler
    have hnoted : (Event.timedOut id (id ∈ s.writable)).IsScheduled :=
      hscheduled _ ((silent_unblockClient h).grows.trace.subset
        (List.mem_append_right _ (List.mem_singleton_self _)))
    have hv := hs.addOutput (.inl (of_decide_eq_true hnoted)) hv
    exact (hv.mute (.note _ v)).mute (.unblockClient h)
  · exact Option.some.inj h ▸ hs

end Scheduled

/-! ### Runs -/

section Runs

variable [Platform] {X : ClientId → Prop} {s t : Server S} {id : ClientId}

/-- **What code does leaves no output unscheduled**, apart from that of the client it runs for. By cases on what code
can do. Output is appended by replies to the client it runs for, by deliveries, which install the handler, and by
propagation, which the trace tells. -/
theorem Does.scheduled {k : Option RespValue} {c : Option ClientId} (h : Does k c s t) :
    ∀ {X : ClientId → Prop}, (∀ id ∈ c, X id) → (∀ e ∈ t.trace, e.IsScheduled) → s.Scheduled X →
    t.Scheduled X := by
  induction h with
  | refl => exact fun _ _ hs => hs
  | trans _ h' ih ih' =>
    intro X hX hscheduled hs
    exact ih' hX hscheduled (ih hX (fun e he => hscheduled e (h'.grows.trace.subset he)) hs)
  | handler _ ih => exact ih
  | aside h => exact fun _ _ hs => hs.mute (.aside h)
  | own hcl h => exact fun _ _ hs => hs.mute (.own hcl h)
  | reply h =>
    -- output for the client whose command runs waits for the end of the callback
    intro X hX _ hs
    obtain ⟨u, hu, rfl⟩ := Option.map_eq_some_iff.mp h
    exact (hs.addOutput (.inr (.inr (hX _ rfl))) hu).mute (.note _ u)
  -- a published message gets its handler at once
  | deliver h => exact fun _ _ hs => hs.deliver h
  | database _ _ h => exact fun _ _ hs => hs.mute (.putDatabases h)
  | scanned _ _ h => exact fun _ _ hs => hs.mute (.putDatabases h)
  | watch h => exact fun _ _ hs => hs.mute (.watch h)
  | unwatch h => exact fun _ _ hs => hs.mute (.unwatch h)
  | subscribe h => exact fun _ _ hs => hs.mute (.subscribeChannel h)
  | unsubscribe h => exact fun _ _ hs => hs.mute (.unsubscribeChannel h)
  | psubscribe h => exact fun _ _ hs => hs.mute (.psubscribePattern h)
  | punsubscribe h => exact fun _ _ hs => hs.mute (.punsubscribePattern h)
  | block _ h => exact fun _ _ hs => hs.mute (.blockClient h)
  | unblock _ h => exact fun _ _ hs => (hs.mute (.unblockClient h)).mute (.note _ _)
  | attach h => exact fun _ _ hs => hs.mute (.addReplica h)
  | remove h => exact fun _ _ hs => hs.mute (.removeClient h)
  | disconnect h => exact fun _ _ hs => hs.mute (.disconnectFromMaster h)
  | @replicate _ _ host port s _ h =>
    intro X _ _ hs
    have hset : Mute s (s.setMaster host port) := .of_eq rfl rfl rfl rfl
    exact hs.mute (hset.trans (.disconnectFromMaster h))
  -- logging may write to the replicas without a handler, unless the trace rules it out
  | completed _ h => exact fun hX hscheduled hs => hs.complete (hX _ rfl) h hscheduled
  | @wake _ _ id cl _ t u _ h _ ih =>
    intro X _ hscheduled hs
    have hmid : (t.note (.woken id cl.blockCmd)).Scheduled fun i => X i ∨ i = id :=
      ((hs.mute (.unblockClient h)).mute (.note _ _)).mono fun _ hx => .inl hx
    refine (ih (fun i hi => .inr (Option.some.inj hi).symm) (fun e he => hscheduled e ?_)
      hmid).installWriteHandler
    exact (Quiet.installWriteHandler id u).grows.trace.subset he

/-- **Nor does a run.** By induction on the run. The steps to look at are those at the end of a read, where the
handler is installed, and those that write to a socket, where it is removed once all has been sent. -/
theorem Moves.scheduled (h : Moves s t) (hscheduled : ∀ e ∈ t.trace, e.IsScheduled)
    (hs : s.Scheduled fun _ => False) : t.Scheduled fun _ => False := by
  induction h with
  | refl => exact hs
  | trans _ h' ih ih' =>
    exact ih' hscheduled (ih (fun e he => hscheduled e (h'.trace_prefix.subset he)) hs)
  | does hc h =>
    -- only the client that is read waits for the end of the callback
    have ht := h.scheduled (fun _ hid => hid) hscheduled (hs.mono fun _ => False.elim)
    refine ⟨ht.serving, fun hpending => ?_⟩
    rcases ht.output hpending with hw | hr | hid
    · exact .inl hw
    · exact .inr (.inl hr)
    · exact .inr (.inl (h.grows.reading.trans (hc _ hid)))
  | accepted =>
    unfold addClient
    split
    · exact hs
    · exact hs.makeClient fun cl hno hpending => by rw [id, hno] at hpending; cases hpending
  | linked _ _ => exact hs.connectToMaster
  | flushed =>
    refine hs.mute ?_
    unfold flushAof
    split
    · split
      · exact .of_eq rfl rfl rfl rfl
      · exact .of_eq rfl rfl rfl rfl
    · exact .of_eq rfl rfl rfl rfl
  | timedOut h => exact hs.timeOut h hscheduled
  | @received id cl bytes s hreading hcl =>
    -- the record of the client that is read gets the bytes; its output is as it was
    refine ⟨hs.serving, fun {i} houtput => ?_⟩
    obtain ⟨cl₁, hcl₁, hpending⟩ := houtput
    simp only [Server.received, steadyNow, UnorderedMap.lookup_insert_eq_ite] at hcl₁
    split at hcl₁
    · next heq => exact .inr (.inl (congrArg some heq.symm))
    · rcases hs.output ⟨cl₁, hcl₁, hpending⟩ with hw | hr | hx
      · exact .inl hw
      · rw [hreading] at hr; cases hr
      · exact hx.elim
  -- the end of `onReadable`: the client that was read gets its handler, if it has output
  | @answered id cl s hreading hcl =>
    have hown {i : ClientId} (hr : s.reading = some i) : i = id :=
      Option.some.inj (hr.symm.trans hreading)
    split
    · rw [Server.installWriteHandler, if_pos hs.serving]
      refine ⟨hs.serving, fun {i} hpending => ?_⟩
      rcases @hs.output i hpending with hw | hr | hx
      · exact .inl (List.mem_cons_of_mem _ hw)
      · exact .inl (hown hr ▸ List.mem_cons_self)
      · exact hx.elim
    · next hno =>
      refine ⟨hs.serving, fun {i} hpending => ?_⟩
      rcases hs.output hpending with hw | hr | hx
      · exact .inl hw
      · obtain ⟨cl₁, hcl₁, hpending⟩ := hpending
        obtain rfl := Option.some.inj (hcl.symm.trans (hown hr ▸ hcl₁))
        exact absurd hpending hno
      · exact hx.elim
  | @hungUp id s hreading hcl =>
    -- the client that was read is gone, and has no output
    refine ⟨hs.serving, fun {i} hpending => ?_⟩
    rcases hs.output hpending with hw | hr | hx
    · exact .inl hw
    · obtain ⟨cl₁, hcl₁, -⟩ := hpending
      obtain rfl := Option.some.inj (hr.symm.trans hreading)
      rw [hcl] at hcl₁
      cases hcl₁
    · exact hx.elim
  | taken hcl hsame => exact hs.mute (.own hcl hsame)
  | sent answer hcl =>
    exact hs.mute (.update hcl rfl answer.pending_of_apply rfl rfl rfl)
  | sentAll hcl hpending =>
    -- all has been sent, so the handler may go
    refine hs.mute (.removeWriteHandler fun houtput => ?_)
    obtain ⟨cl, hcl', hpending'⟩ := houtput
    obtain rfl := Option.some.inj (hcl.symm.trans hcl')
    rw [hpending] at hpending'
    cases hpending'

/-- **Pending output is always scheduled** after a callback, as long as no replica and no client whose time was up has
been without a handler when output was appended to it. The invariant is `Scheduled`: a client with pending output has
a write handler, or is the one being read, for which it is installed when its input has been carried out. -/
theorem pending_output_scheduled [Double S] [Inhabited S] [LT S] [DecidableLT S] [BEq S]
    {reserve : Reserve} {depth : ℕ} (h : Reachable reserve depth s)
    (hpropagated : ∀ id data, .propagated id data false ∉ s.trace)
    (htimedOut : ∀ id, .timedOut id false ∉ s.trace) (id : ClientId) (cl : Client)
    (hcl : s.clients.lookup id = some cl) (hpending : cl.hasPendingOutput = true) :
    id ∈ s.writable := by
  obtain ⟨start, hstart, hmoves, hreading⟩ := h.moves
  -- no event of the trace is one of the two that forget the handler
  have hscheduled : ∀ e ∈ s.trace, e.IsScheduled := by
    intro e he
    cases e with
    | propagated id data scheduled =>
      cases scheduled with
      | true => rfl
      | false => exact absurd he (hpropagated id data)
    | timedOut id scheduled =>
      cases scheduled with
      | true => rfl
      | false => exact absurd he (htimedOut id)
    | _ => trivial
  have hbegin : start.Scheduled fun _ => False := by
    refine ⟨hstart.serving, fun ⟨cl, hcl, _⟩ => ?_⟩
    rw [hstart.clients] at hcl
    cases hcl
  -- between two callbacks nobody is being read
  rcases (hmoves.scheduled hscheduled hbegin).output ⟨cl, hcl, hpending⟩ with hw | hr | hx
  · exact hw
  · rw [hreading] at hr
    cases hr
  · exact hx.elim

end Runs

section Sample

open Sample

/-- A subscriber has read everything, and a message is published to it. -/
def published : List Turn :=
  [.accept, .accept, sends 0 ["SUBSCRIBE", "ch"], .writable 0 (.wrote 1000),
    sends 1 ["PUBLISH", "ch", "hello"]]

/-- A replica has read everything, and another client writes. -/
def propagatedTo : List Turn :=
  [.accept, .accept, sends 0 ["PSYNC", "?", "-1"], .writable 0 (.wrote 1000),
    sends 1 ["SET", "k", "v"]]

/-- The message to the subscriber is scheduled. -/
theorem pending_output_scheduled_published : ∃ s, ran published = some s ∧ 0 ∈ s.writable := by
  have hran : (ran published).map (fun s => (s.clients.lookup 0).map Client.hasPendingOutput == some true &&
      s.trace.all fun e => !e.unscheduled) = some true := by decide +kernel
  obtain ⟨s, hs, hsample⟩ := Option.map_eq_some_iff.mp hran
  obtain ⟨hpending, htrace⟩ := Bool.and_eq_true_iff.mp hsample
  have hno {e : Event} (he : e ∈ s.trace) : e.unscheduled = false := by
    simpa using List.all_eq_true.mp htrace e he
  obtain ⟨cl, hcl, hpending⟩ := Option.map_eq_some_iff.mp (eq_of_beq hpending)
  exact ⟨s, hs, pending_output_scheduled (reachable_ran hs)
    (fun id data he => absurd (hno he) (by simp [Event.unscheduled]))
    (fun id he => absurd (hno he) (by simp [Event.unscheduled])) 0 cl hcl hpending⟩

/-- The bytes of a write wait at a replica without a handler. -/
theorem pending_output_unscheduled : ¬∀ s : Server Score, Reachable (fun _ => none) 2 s →
    ∀ id cl, s.clients.lookup id = some cl → cl.hasPendingOutput = true → id ∈ s.writable := by
  intro hall
  have hran : (ran propagatedTo).map (fun s => (s.clients.lookup 0).map Client.hasPendingOutput == some true &&
      !decide (0 ∈ s.writable)) = some true := by decide +kernel
  obtain ⟨s, hs, hsample⟩ := Option.map_eq_some_iff.mp hran
  obtain ⟨hpending, hno⟩ := Bool.and_eq_true_iff.mp hsample
  obtain ⟨cl, hcl, hpending⟩ := Option.map_eq_some_iff.mp (eq_of_beq hpending)
  have hwritable := hall s (reachable_ran hs) 0 cl hcl hpending
  simp [hwritable] at hno

end Sample

end Server

end RedisDb

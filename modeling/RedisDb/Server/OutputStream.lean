import RedisDb.Server.Runs

/-!
# The output of one client

What a client is sent is written in two steps: a reply is appended to its output buffer, and the callback for its
socket hands the buffer to `send`, which takes as much of it as it likes. `Server.written` is what has been appended
in a run, which the trace tells, and `Server.sent` what the calls of `send` have taken.

`Server.Outstanding` is the invariant: what has been taken, and behind it what the buffer still holds, is what has
been appended. It is about one client, and the proof goes through all that the server does with three kinds of steps.
Most steps leave the client and its events alone (`SameOutput`). A reply appends the same bytes to the buffer and to
what is written (`Outstanding.replied`). And a call of `send` moves bytes from what is pending to what is taken
(`WriteResult.sends_append_pending`): the buffer is kept until all of it has been sent, so what is pending is what
lies behind the position.

A client that is gone has been sent the beginning of what was written to it, and nothing after that: its name is not
given again. So the theorem speaks of all clients, also of those that were removed with bytes pending.
-/

namespace RedisDb

variable {S : Type}

/-- What an event has put into the output of a client. -/
def Event.outputFor (id : ClientId) : Event → Bytes
  | .reply i data | .propagated i data _ => if i = id then data else []
  | .timedOut i _ => if i = id then RespSerializer.nullArray else []
  | .completed _ _ | .attached _ _ | .blocked _ _ _ | .woken _ _ | .removed _ _ | .pushes _ _ _ | .zadd _ _
  | .appendOnlyOff | .masterSet | .promoted _ => []

/-- What is noted aside writes to no client. -/
theorem Event.IsAside.outputFor {e : Event} {host : Bytes} (h : e.IsAside host) (id : ClientId) :
    e.outputFor id = [] := by
  cases e <;> first | rfl | exact h.elim

/-- The part of the output buffer that is still to be sent. -/
def Client.pending (cl : Client) : Bytes := cl.outputBuffer.drop cl.outputPos

/-- A reply is pending behind the rest. -/
theorem Client.pending_addReply {cl : Client} (h : cl.outputPos ≤ cl.outputBuffer.length) (data : Bytes) :
    (cl.addReply data).pending = cl.pending ++ data :=
  List.drop_append_of_le_length h

/-- Nothing is pending where the position is at the end. -/
theorem Client.pending_eq_nil {cl : Client} (h : cl.hasPendingOutput = false) : cl.pending = [] :=
  List.drop_eq_nil_of_le (not_lt.mp (of_decide_eq_false h))

namespace Server

variable {s t u : Server S} {id i : ClientId} {taken data : Bytes}

/-- What has been put into the output of a client. -/
def written (id : ClientId) (s : Server S) : Bytes := s.trace.flatMap (·.outputFor id)

/-- What a part of a run has written. -/
theorem written_append {es : List Event} (h : t.trace = s.trace ++ es) :
    t.written id = s.written id ++ es.flatMap (·.outputFor id) := by
  rw [written, h, List.flatMap_append, written]

/-- What an event has written. -/
@[simp] theorem written_note (e : Event) (s : Server S) :
    (s.note e).written id = s.written id ++ e.outputFor id := by
  rw [@written_append _ s (s.note e) id [e] rfl, List.flatMap_singleton]

/-! ### Steps that write nothing to the client -/

/-- Nothing is written to a client, and its output buffer stays as it is while it is there. -/
structure SameOutput (id : ClientId) (s t : Server S) : Prop where
  written : t.written id = s.written id
  nextClient : t.nextClient = s.nextClient
  output : ∀ {cl'}, t.clients.lookup id = some cl' → ∃ cl, s.clients.lookup id = some cl ∧
    cl'.outputBuffer = cl.outputBuffer ∧ cl'.outputPos = cl.outputPos

namespace SameOutput

/-- Where no client changes. -/
theorem of_eq (hclients : t.clients = s.clients) (hnext : t.nextClient = s.nextClient)
    (hwritten : t.written id = s.written id) : SameOutput id s t where
  written := hwritten
  nextClient := hnext
  output {cl'} hcl' := ⟨cl', hclients ▸ hcl', rfl, rfl⟩

/-- Where nothing happens. -/
theorem refl (s : Server S) : SameOutput id s s := of_eq rfl rfl rfl

/-- One step after another. -/
theorem trans (h : SameOutput id s t) (h' : SameOutput id t u) : SameOutput id s u where
  written := h'.written.trans h.written
  nextClient := h'.nextClient.trans h.nextClient
  output hcl'' := by
    obtain ⟨cl', hcl', hbuffer', hpos'⟩ := h'.output hcl''
    obtain ⟨cl, hcl, hbuffer, hpos⟩ := h.output hcl'
    exact ⟨cl, hcl, hbuffer'.trans hbuffer, hpos'.trans hpos⟩

/-- An event that writes nothing to the client. -/
theorem note {e : Event} (he : e.outputFor id = []) (s : Server S) : SameOutput id s (s.note e) :=
  of_eq rfl rfl (by rw [written_note, he, List.append_nil])

/-- A step that changes one client, and not its output. -/
theorem update {cl cl' : Client} (hcl : s.clients.lookup i = some cl)
    (hclients : t.clients = s.clients.insert i cl') (hbuffer : cl'.outputBuffer = cl.outputBuffer)
    (hpos : cl'.outputPos = cl.outputPos) (hnext : t.nextClient = s.nextClient)
    (hwritten : t.written id = s.written id) : SameOutput id s t where
  written := hwritten
  nextClient := hnext
  output {cl₁} hcl₁ := by
    rw [hclients, UnorderedMap.lookup_insert_eq_ite] at hcl₁
    split at hcl₁
    · next heq => exact ⟨cl, heq ▸ hcl, Option.some.inj hcl₁ ▸ hbuffer, Option.some.inj hcl₁ ▸ hpos⟩
    · exact ⟨cl₁, hcl₁, rfl, rfl⟩

/-- A step that changes another client. -/
theorem other {cl : Client} (hne : i ≠ id) (s : Server S) :
    SameOutput id s { s with clients := s.clients.insert i cl } where
  written := rfl
  nextClient := rfl
  output {cl'} hcl' := ⟨cl', (AList.lookup_insert_ne (Ne.symm hne)).symm.trans hcl', rfl, rfl⟩

/-- A change that leaves the output of any client alone. -/
theorem updateClient {f : Client → Client} (h : s.updateClient i f = some t)
    (hbuffer : ∀ cl : Client, (f cl).outputBuffer = cl.outputBuffer)
    (hpos : ∀ cl : Client, (f cl).outputPos = cl.outputPos) : SameOutput id s t := by
  obtain ⟨cl, hcl, rfl⟩ := Option.map_eq_some_iff.mp h
  exact update hcl rfl (hbuffer cl) (hpos cl) rfl rfl

/-- By induction on the clients. -/
theorem flagDirty (ids : List ClientId) : ∀ {s t : Server S}, s.flagDirty ids = some t →
    SameOutput id s t := by
  induction ids with
  | nil => exact fun h => Option.some.inj h ▸ refl _
  | cons j ids ih =>
    intro s t h
    obtain ⟨u, hu, ht⟩ := Option.bind_eq_some_iff.mp h
    exact (updateClient hu (fun _ => rfl) fun _ => rfl).trans (ih ht)

/-- The databases are put back, and clients are flagged. -/
theorem putDatabases {databases : List (Database S)} {env : Env}
    (h : s.putDatabases databases env = some t) : SameOutput id s t := by
  have hput : SameOutput id s { s with databases := databases, env := env } := of_eq rfl rfl rfl
  exact hput.trans (flagDirty _ h)

/-- A write handler sends nothing yet. -/
theorem installWriteHandler (i : ClientId) (s : Server S) : SameOutput id s (s.installWriteHandler i) := by
  unfold Server.installWriteHandler
  split <;> exact of_eq rfl rfl rfl

/-- A watch. -/
theorem watch {j : ℕ} {key : Bytes} (h : s.watch i j key = some t) : SameOutput id s t := by
  obtain ⟨db, -, h⟩ := Option.bind_eq_some_iff.mp h
  obtain ⟨cl, hcl, rfl⟩ := Option.map_eq_some_iff.mp h
  exact update hcl rfl rfl rfl rfl rfl

/-- The end of a watch. -/
theorem unwatch (h : s.unwatch i = some t) : SameOutput id s t := by
  obtain ⟨cl, hcl, rfl⟩ := Option.map_eq_some_iff.mp h
  exact update hcl rfl rfl rfl rfl rfl

/-- A client that is woken has been sent nothing yet. -/
theorem unblockClient (h : s.unblockClient i = some t) : SameOutput id s t := by
  obtain ⟨cl, hcl, rfl⟩ := Option.map_eq_some_iff.mp h
  split
  · exact update hcl rfl rfl rfl rfl rfl
  · exact refl s

/-- A replica or a link that goes. -/
theorem closeReplication (cl : Client) (s : Server S) : SameOutput id s (s.closeReplication i cl) := by
  unfold Server.closeReplication
  dsimp only
  split <;> split <;> exact of_eq rfl rfl rfl

/-- A client that is removed, this one or another. -/
theorem removeClient (h : s.removeClient i = some t) : SameOutput id s t := by
  unfold Server.removeClient at h
  split at h
  · exact Option.some.inj h ▸ refl s
  · obtain ⟨u, hu, rfl⟩ := Option.map_eq_some_iff.mp h
    obtain ⟨cl, hcl, hu⟩ := Option.bind_eq_some_iff.mp hu
    obtain ⟨v, hv, hu⟩ := Option.bind_eq_some_iff.mp hu
    obtain ⟨w, hw, hu⟩ := Option.bind_eq_some_iff.mp hu
    obtain rfl := Option.some.inj hu
    -- the tables are settled first, and then the client is taken out
    have hsubscriptions : SameOutput id s (s.closeSubscriptions i cl) := update hcl rfl rfl rfl rfl rfl
    have hclosed := ((hsubscriptions.trans (unblockClient hv)).trans (unwatch hw)).trans
      (closeReplication (i := i) cl w)
    refine (hclosed.trans ?_).trans (note rfl _)
    refine ⟨rfl, rfl, fun {cl'} hcl' => ?_⟩
    have hcl' : ((w.closeReplication i cl).clients.erase i).lookup id = some cl' := hcl'
    rw [UnorderedMap.lookup_erase_eq_ite] at hcl'
    split at hcl'
    · cases hcl'
    · exact ⟨cl', hcl', rfl, rfl⟩

/-- The end of the link. -/
theorem disconnectFromMaster (h : s.disconnectFromMaster = some t) : SameOutput id s t := by
  unfold Server.disconnectFromMaster at h
  split at h
  · exact Option.some.inj h ▸ of_eq rfl rfl rfl
  · split at h
    · cases h
    · obtain ⟨u, hu, rfl⟩ := Option.map_eq_some_iff.mp h
      have hsettled : SameOutput id s { s with masterClient := none } := of_eq rfl rfl rfl
      exact (hsettled.trans (removeClient hu)).trans (of_eq rfl rfl rfl)

/-- By induction on the clients. -/
theorem closeClients (ids : List ClientId) : ∀ {s t : Server S}, s.closeClients ids = some t →
    SameOutput id s t := by
  induction ids with
  | nil => exact fun h => Option.some.inj h ▸ refl _
  | cons j ids ih =>
    intro s t h
    obtain ⟨u, hu, ht⟩ := Option.bind_eq_some_iff.mp h
    exact (removeClient hu).trans (ih ht)

/-- What is aside of the clients. -/
theorem aside (h : s.Aside t) : SameOutput id s t := by
  obtain ⟨es, hes, haside, -⟩ := h.trace
  refine of_eq h.clients h.nextClient ?_
  rw [written_append hes, List.append_right_eq_self, List.flatMap_eq_nil_iff]
  exact fun e he => (haside e he).outputFor id

/-- The flush of the append-only file. -/
theorem cronFlush (s : Server S) : SameOutput id s s.cronFlush := by
  have hflush (s : Server S) : SameOutput id s s.flushAof := by
    unfold flushAof
    split
    · split <;> exact of_eq rfl rfl rfl
    · exact refl s
  have hnow : SameOutput id s s.steadyNow.2 := of_eq rfl rfl rfl
  unfold Server.cronFlush
  split
  · dsimp only
    split
    · exact (hnow.trans (hflush _)).trans (of_eq rfl rfl rfl)
    · exact hnow
  · exact refl s

end SameOutput

/-! ### The invariant -/

/-- **What the calls of `send` have taken is what has been written, but for what is pending.** A client
that is gone has been sent the beginning of it. -/
structure Outstanding (id : ClientId) (taken : Bytes) (s : Server S) : Prop where
  made : ∀ {cl}, s.clients.lookup id = some cl → id < s.nextClient
  bounded : ∀ {cl}, s.clients.lookup id = some cl → cl.outputPos ≤ cl.outputBuffer.length
  output : ∀ {cl}, s.clients.lookup id = some cl → taken ++ cl.pending = s.written id
  isPrefix : taken <+: s.written id
  unmade : s.nextClient ≤ id → s.written id = []

namespace Outstanding

/-- A step that leaves the output alone keeps the invariant. -/
theorem same (h : Outstanding id taken s) (hsame : SameOutput id s t) : Outstanding id taken t where
  made hcl' := by
    obtain ⟨cl, hcl, -⟩ := hsame.output hcl'
    exact hsame.nextClient ▸ h.made hcl
  bounded hcl' := by
    obtain ⟨cl, hcl, hbuffer, hpos⟩ := hsame.output hcl'
    exact hbuffer ▸ hpos ▸ h.bounded hcl
  output hcl' := by
    obtain ⟨cl, hcl, hbuffer, hpos⟩ := hsame.output hcl'
    rw [hsame.written, ← h.output hcl, Client.pending, Client.pending, hbuffer, hpos]
  isPrefix := hsame.written ▸ h.isPrefix
  unmade hle := hsame.written.trans (h.unmade (hsame.nextClient ▸ hle))

/-- A reply to a client, and the event that tells it. -/
theorem replied {e : Event} (h : Outstanding id taken s) (hu : s.updateClient i (·.addReply data) = some u)
    (he : e.outputFor id = if i = id then data else []) : Outstanding id taken (u.note e) := by
  by_cases hi : i = id
  · subst hi
    rw [if_pos rfl] at he
    obtain ⟨cl, hcl, rfl⟩ := Option.map_eq_some_iff.mp hu
    -- what is appended to the buffer is what the event counts as written
    have hwritten : ({ s with clients := s.clients.insert i (cl.addReply data) }.note e).written i =
        s.written i ++ data := by
      rw [written_note, he]
      rfl
    have hreplied {cl'} (hcl' : (s.clients.insert i (cl.addReply data)).lookup i = some cl') :
        cl' = cl.addReply data :=
      Option.some.inj (hcl'.symm.trans (AList.lookup_insert _))
    refine ⟨fun _ => h.made hcl, fun hcl' => ?_, fun hcl' => ?_, ?_, fun hle => ?_⟩
    · rw [hreplied hcl', Client.addReply, List.length_append]
      exact (h.bounded hcl).trans (Nat.le_add_right _ _)
    · rw [hreplied hcl', Client.pending_addReply (h.bounded hcl), ← List.append_assoc, h.output hcl]
      exact hwritten.symm
    · rw [hwritten]
      exact h.isPrefix.trans (List.prefix_append _ _)
    · exact absurd (h.made hcl) (not_lt.mpr hle)
  · rw [if_neg hi] at he
    obtain ⟨cl, hcl, rfl⟩ := Option.map_eq_some_iff.mp hu
    exact h.same ((SameOutput.other hi s).trans (.note he _))

/-- A reply, to this client or another. -/
theorem addReply (h : Outstanding id taken s) (ht : s.addReply i data = some t) : Outstanding id taken t := by
  obtain ⟨u, hu, rfl⟩ := Option.map_eq_some_iff.mp ht
  exact h.replied hu rfl

/-- The log adds to the output of a client what the trace says that a replica is sent. -/
theorem complete {writes : Bool} {cmd : List RespValue} {r : Except Exn Unit} (h : Outstanding id taken s)
    (ht : s.complete i writes cmd = some (r, t)) : Outstanding id taken t := by
  have hnote (e : Event) (he : e.outputFor id = []) (s : Server S) : SameOutput id s (s.note e) := .note he s
  exact complete_keeps (h.same (hnote (.completed writes cmd) rfl s)) (fun _ => logWrite_keeps
    (fun _ hu => hu.same (.of_eq rfl rfl rfl)) (fun _ _ hu => hu.same (.of_eq rfl rfl rfl))
    fun _ _ hv hu => hu.replied hv rfl) ht

/-- A client that is made has the output that it is made with. -/
theorem makeClient {f : Client → Client} (h : Outstanding id taken s)
    (hf : ∀ now, (f { lastInteraction := now }).outputBuffer = data)
    (hpos : ∀ now, (f { lastInteraction := now }).outputPos = 0)
    (ht : t.clients = (s.makeClient f).2.clients) (hnext : t.nextClient = s.nextClient + 1)
    (hwritten : t.written id = s.written id ++ if s.nextClient = id then data else []) :
    Outstanding id taken t := by
  have hlookup : t.clients.lookup id = if id = s.nextClient
      then some (f { lastInteraction := s.steadyNow.1 }) else s.clients.lookup id := by
    rw [ht]
    exact UnorderedMap.lookup_insert_eq_ite ..
  by_cases hid : s.nextClient = id
  · -- nothing has been written to it so far
    have hnil := h.unmade hid.le
    have hnone : taken = [] := List.prefix_nil.mp (hnil ▸ h.isPrefix)
    rw [if_pos hid.symm] at hlookup
    rw [hnil, if_pos hid, List.nil_append] at hwritten
    have hmade {cl} (hcl : t.clients.lookup id = some cl) : cl.outputBuffer = data ∧ cl.outputPos = 0 := by
      obtain rfl := Option.some.inj (hlookup.symm.trans hcl)
      exact ⟨hf _, hpos _⟩
    refine ⟨fun _ => ?_, fun hcl => ?_, fun hcl => ?_, ?_, fun hle => ?_⟩
    · rw [hnext, hid]
      exact Nat.lt_succ_self id
    · rw [(hmade hcl).2]
      exact Nat.zero_le _
    · rw [Client.pending, (hmade hcl).1, (hmade hcl).2, List.drop_zero, hnone, List.nil_append, hwritten]
    · rw [hnone]
      exact List.nil_prefix
    · rw [hnext, hid] at hle
      exact absurd hle (Nat.not_succ_le_self id)
  · -- another client: nothing has changed for this one
    rw [if_neg (Ne.symm hid)] at hlookup
    rw [if_neg hid, List.append_nil] at hwritten
    refine ⟨fun hcl => ?_, fun hcl => ?_, fun hcl => ?_, ?_, fun hle => ?_⟩
    · rw [hnext]
      exact (h.made (hlookup ▸ hcl)).trans (Nat.lt_succ_self _)
    · exact h.bounded (hlookup ▸ hcl)
    · exact hwritten ▸ h.output (hlookup ▸ hcl)
    · exact hwritten ▸ h.isPrefix
    · rw [hnext] at hle
      exact hwritten.trans (h.unmade ((Nat.le_succ _).trans hle))

end Outstanding

/-! ### The callbacks keep it -/

section Callbacks

variable [Platform]

/-- **Code that runs keeps the invariant**: it writes to a client with replies only. By cases on what code can do; a
reply and the event that tells it belong together, and so do a propagated copy and its event. -/
theorem Does.outstanding {k : Option RespValue} {c : Option ClientId} (hdoes : Does k c s t) :
    Outstanding id taken s → Outstanding id taken t := by
  induction hdoes with
  | refl => exact fun h => h
  | trans _ _ ih ih' => exact fun h => ih' (ih h)
  | handler _ ih => exact ih
  | aside h => exact fun hs => hs.same (.aside h)
  | own hcl hsame _ => exact fun hs => hs.same (.update hcl rfl hsame.outputBuffer hsame.outputPos rfl rfl)
  -- the output buffer grows by what the trace notes as written
  | reply h => exact fun hs => hs.addReply h
  -- a published message is a reply that gets its write handler at once
  | deliver h =>
    intro hs
    obtain ⟨u, hu, rfl⟩ := Option.map_eq_some_iff.mp h
    exact (hs.addReply hu).same (.installWriteHandler _ _)
  | database _ _ h => exact fun hs => hs.same (.putDatabases h)
  | scanned _ _ h => exact fun hs => hs.same (.putDatabases h)
  | watch h => exact fun hs => hs.same (.watch h)
  | unwatch h => exact fun hs => hs.same (.unwatch h)
  | subscribe h | psubscribe h =>
    intro hs
    obtain ⟨cl, hcl, rfl⟩ := Option.map_eq_some_iff.mp h
    split
    · exact hs
    · exact hs.same (.update hcl rfl rfl rfl rfl rfl)
  | unsubscribe h | punsubscribe h =>
    intro hs
    obtain ⟨cl, hcl, rfl⟩ := Option.map_eq_some_iff.mp h
    split
    · exact hs.same (.update hcl rfl rfl rfl rfl rfl)
    · exact hs
  | block _ h =>
    intro hs
    obtain ⟨cl, deadline, env, hcl, rfl⟩ := blockClient_spec h
    refine hs.same (.update hcl rfl rfl rfl rfl ?_)
    rw [written_note]
    exact List.append_nil _
  | unblock _ h => exact fun hs => (hs.same (.unblockClient h)).same (.note rfl _)
  | attach h =>
    intro hs
    obtain ⟨u, hu, rfl⟩ := Option.map_eq_some_iff.mp h
    have hattached : SameOutput id _ u := .updateClient hu (fun _ => rfl) fun _ => rfl
    refine hs.same (hattached.trans (.of_eq rfl rfl ?_))
    rw [written_note]
    exact List.append_nil _
  | remove h => exact fun hs => hs.same (.removeClient h)
  | disconnect h => exact fun hs => hs.same (.disconnectFromMaster h)
  | @replicate _ _ host port s _ h =>
    intro hs
    have hset : SameOutput id s (s.setMaster host port) := .of_eq rfl rfl (by
      rw [setMaster, written_note]
      exact List.append_nil _)
    exact hs.same (hset.trans (.disconnectFromMaster h))
  | completed _ h => exact fun hs => hs.complete h
  | wake _ h _ ih =>
    exact fun hs => (ih ((hs.same (.unblockClient h)).same (.note rfl _))).same (.installWriteHandler _ _)

namespace Outstanding

/-! #### The timer -/

omit [Platform] in
/-- A new client has an empty buffer, or is refused. -/
theorem addClient (h : Outstanding id taken s) : Outstanding id taken s.addClient := by
  unfold Server.addClient
  split
  · exact h
  · refine h.makeClient (fun _ => rfl) (fun _ => rfl) rfl rfl ?_
    rw [ite_self, List.append_nil]
    rfl

omit [Platform] in
/-- The link is made with a `PING` in its buffer, and the trace tells it. -/
theorem connectToMaster (h : Outstanding id taken s) : Outstanding id taken s.connectToMaster := by
  unfold Server.connectToMaster
  dsimp only
  split
  · exact h.same (.of_eq rfl rfl rfl)
  · have hdrawn : SameOutput id s { s with outside := { s.outside with
        connects := fun i => s.outside.connects (i + 1) } } := .of_eq rfl rfl rfl
    refine (h.same hdrawn).makeClient (f := fun cl => (cl.setFlag .master).addReply
      (RespSerializer.bulkStringArray [str "PING"])) (fun _ => rfl) (fun _ => rfl) rfl rfl ?_
    rw [written_note]
    rfl

omit [Platform] in
/-- A client that has waited for too long is sent that it has got nothing. -/
theorem timeOut (h : Outstanding id taken s) (ht : s.timeOut i = some t) : Outstanding id taken t := by
  obtain ⟨cl, -, ht⟩ := Option.bind_eq_some_iff.mp ht
  split at ht
  · obtain ⟨u, hu, ht⟩ := Option.bind_eq_some_iff.mp ht
    obtain ⟨v, hv, rfl⟩ := Option.map_eq_some_iff.mp hu
    exact (h.replied hv rfl).same (.unblockClient ht)
  · exact Option.some.inj ht ▸ h

omit [Platform] in
/-- By induction on the clients. -/
theorem timeOutAll (ids : List ClientId) : ∀ {s t : Server S}, Outstanding id taken s →
    s.timeOutAll ids = some t → Outstanding id taken t := by
  induction ids with
  | nil => exact fun h ht => Option.some.inj ht ▸ h
  | cons j ids ih =>
    intro s t h ht
    obtain ⟨u, hu, ht⟩ := Option.bind_eq_some_iff.mp ht
    exact ih (h.timeOut hu) ht

/-- **The timer keeps it.** -/
theorem serverCron (h : Outstanding id taken s) (ht : s.serverCron = some t) : Outstanding id taken t := by
  obtain ⟨⟨r, u⟩, hu, ht⟩ := Option.bind_eq_some_iff.mp ht
  obtain ⟨v, hv, ht⟩ := Option.bind_eq_some_iff.mp ht
  obtain ⟨ids, -, ht⟩ := Option.bind_eq_some_iff.mp ht
  obtain ⟨w, hw, rfl⟩ := Option.map_eq_some_iff.mp ht
  have hclock : SameOutput id s { s.steadyNow.2 with env := { s.env with
      memory := { s.env.memory with lruClock := UInt32.ofNat (s.steadyNow.1 / 1000).toNat } } } :=
    .of_eq rfl rfl rfl
  -- the parts of the tick one after the other; only a client whose time is up is sent something
  have hexpired : Outstanding id taken u := (expireAll.within hu).outstanding (h.same hclock)
  have hidle : Outstanding id taken v := by
    split at hv
    · unfold closeIdleClients at hv
      split at hv
      · exact Option.some.inj hv ▸ hexpired
      · have hnow : SameOutput id u u.steadyNow.2 := .of_eq rfl rfl rfl
        exact (hexpired.same hnow).same (.closeClients _ hv)
    · exact Option.some.inj hv ▸ hexpired
  have htimed : Outstanding id taken w := (hidle.same (.cronFlush v)).timeOutAll ids hw
  unfold replicationCron
  split
  · exact htimed.connectToMaster
  · exact htimed

/-! #### Sockets -/

section Input

variable [Double S] [Inhabited S] [LT S] [DecidableLT S] [BEq S]

/-- The snapshot goes to the databases. -/
theorem receiveRdb {contents : Bytes} (h : Outstanding id taken s)
    (ht : s.receiveRdb contents = some t) : Outstanding id taken t := by
  unfold Server.receiveRdb at ht
  have hopen : SameOutput id s s.openFile.2 := .of_eq rfl rfl rfl
  dsimp only at ht
  split at ht
  · exact (h.same hopen).same (.disconnectFromMaster ht)
  · split at ht
    · cases ht
    · obtain ⟨u, hu, ht⟩ := Option.bind_eq_some_iff.mp ht
      have hloaded := (h.same hopen).same (.putDatabases hu)
      split at ht
      · exact Option.some.inj ht ▸ hloaded.same (.of_eq rfl rfl rfl)
      · exact hloaded.same (.disconnectFromMaster ht)

/-- The handshake is answered with replies. -/
theorem syncWithMaster {reply : RespValue} (h : Outstanding id taken s)
    (ht : s.syncWithMaster i reply = some t) : Outstanding id taken t := by
  -- the handshake writes to the link, or moves its state on, or gives it up
  have hreply {data : Bytes} {replState : ReplState}
      (ht : ((s.addReply i data).map fun s => { s with replState := replState }) = some t) :
      Outstanding id taken t := by
    obtain ⟨u, hu, rfl⟩ := Option.map_eq_some_iff.mp ht
    exact (h.addReply hu).same (.of_eq rfl rfl rfl)
  unfold Server.syncWithMaster at ht
  split at ht
  · cases ht
  · split at ht
    · split at ht
      · exact hreply ht
      · exact h.same (.disconnectFromMaster ht)
    · split at ht
      · exact hreply ht
      · exact h.same (.disconnectFromMaster ht)
    · split at ht
      · exact Option.some.inj ht ▸ h.same (.of_eq rfl rfl rfl)
      · split at ht
        · exact Option.some.inj ht ▸ h.same (.of_eq rfl rfl rfl)
        · exact h.same (.disconnectFromMaster ht)
    · split at ht
      · exact h.receiveRdb ht
      · exact h.receiveRdb ht
      · exact h.same (.disconnectFromMaster ht)
    · exact Option.some.inj ht ▸ h

/-- By induction on the commands. -/
theorem runCommands {depth : ℕ} (commands : List RespValue) : ∀ {s t : Server S},
    Outstanding id taken s → s.runCommands depth i commands = some t → Outstanding id taken t := by
  induction commands with
  | nil => exact fun h ht => Option.some.inj ht ▸ h
  | cons command commands ih =>
    intro s t h ht
    obtain ⟨cl, -, ht⟩ := Option.bind_eq_some_iff.mp ht
    split at ht
    · exact Option.some.inj ht ▸ h
    · obtain ⟨u, hu, ht⟩ := Option.bind_eq_some_iff.mp ht
      -- a line of the handshake, or a command
      have hran : Outstanding id taken u := by
        split at hu
        · exact h.syncWithMaster hu
        · split at hu
          · cases hu
          · next program _ =>
            obtain ⟨⟨r, u'⟩, hrun, rfl⟩ := Option.map_eq_some_iff.mp hu
            exact (program.within hrun).outstanding h
      obtain ⟨cl', -, ht⟩ := Option.bind_eq_some_iff.mp ht
      split at ht
      · exact Option.some.inj ht ▸ hran
      · exact ih hran ht

/-- **A socket that can be read from**: the replies to the commands are appended. -/
theorem onReadable {reserve : Reserve} {depth : ℕ} {answer : ReadResult} (h : Outstanding id taken s)
    (ht : s.onReadable reserve depth i answer = some t) : Outstanding id taken t := by
  unfold Server.onReadable at ht
  split at ht
  · exact Option.some.inj ht ▸ h
  · next cl hcl =>
    split at ht
    · exact Option.some.inj ht ▸ h
    · exact h.same (.removeClient ht)
    · next bytes =>
      obtain ⟨u, hu, rfl⟩ := Option.map_eq_some_iff.mp ht
      have hreceived : Outstanding id taken (s.received i cl bytes) :=
        h.same (.update hcl rfl rfl rfl rfl rfl)
      -- the write handler at the end writes nothing
      suffices hread : Outstanding id taken u from hread.same (.of_eq rfl rfl rfl)
      split at hu
      · exact hreceived.same (.removeClient hu)
      · obtain ⟨v, hv, hu⟩ := Option.bind_eq_some_iff.mp hu
        obtain ⟨⟨commands, w⟩, hw, hv⟩ := Option.bind_eq_some_iff.mp hv
        obtain ⟨cl', -, rfl⟩ := Option.map_eq_some_iff.mp hu
        -- taking the commands out of the query buffer leaves the output as it is
        have htaken : Outstanding id taken w := by
          obtain ⟨cl₁, -, hw⟩ := Option.bind_eq_some_iff.mp hw
          split at hw
          · cases hw
          · obtain ⟨x, hx, heq⟩ := Option.map_eq_some_iff.mp hw
            obtain ⟨-, rfl⟩ := Prod.mk.inj heq
            refine hreceived.same (.updateClient hx (fun _ => ?_) fun _ => ?_)
            all_goals split <;> rfl
        have hran := htaken.runCommands commands hv
        split
        · exact hran.same (.installWriteHandler i v)
        · exact hran

end Input

end Outstanding

/-- What the call of `send` in a callback takes from the output of a client. -/
def Turn.sends (id : ClientId) (s : Server S) : Turn → Bytes
  | .writable i (.wrote n) =>
    if i = id then
      match s.clients.lookup i with
      | none => []
      | some cl => cl.pending.take n
    else []
  | _ => []

omit [Platform] in
/-- What `send` takes is not pending any more. -/
theorem WriteResult.sends_append_pending (answer : WriteResult) {cl : Client}
    (hcl : s.clients.lookup id = some cl) (hbounded : cl.outputPos ≤ cl.outputBuffer.length) :
    (answer.apply cl).outputPos ≤ (answer.apply cl).outputBuffer.length ∧
      (Turn.writable id answer).sends id s ++ (answer.apply cl).pending = cl.pending := by
  cases answer with
  | wrote n =>
    have hsends : (Turn.writable id (.wrote n)).sends id s = cl.pending.take n := by
      rw [Turn.sends, if_pos rfl, hcl]
    rw [hsends]
    dsimp only [apply]
    split
    · next hall =>
      -- the socket has taken all that was pending
      have hlength : cl.pending.length ≤ n := by
        rw [Client.pending, List.length_drop]
        exact Nat.sub_le_iff_le_add'.mpr hall
      refine ⟨le_rfl, ?_⟩
      rw [List.take_of_length_le hlength]
      exact List.append_nil _
    · next hsome =>
      -- it has taken a part, and the position has moved behind it
      refine ⟨(not_le.mp hsome).le, ?_⟩
      calc cl.pending.take n ++ cl.outputBuffer.drop (cl.outputPos + n)
          = cl.pending.take n ++ cl.pending.drop n := by rw [Client.pending, List.drop_drop]
        _ = cl.pending := List.take_append_drop n _
  | wouldBlock => exact ⟨hbounded, rfl⟩
  | failed => exact ⟨hbounded, rfl⟩

omit [Platform] in
/-- `send` is called where there is something to send. -/
theorem Outstanding.took (h : Outstanding id taken s) {cl : Client} (hcl : s.clients.lookup id = some cl)
    (answer : WriteResult) : Outstanding id (taken ++ (Turn.writable id answer).sends id s)
      { s with clients := s.clients.insert id (if cl.hasPendingOutput then answer.apply cl else cl) } := by
  obtain ⟨cl', heq, hbounded, happend⟩ : ∃ cl', (if cl.hasPendingOutput then answer.apply cl else cl) = cl' ∧
      cl'.outputPos ≤ cl'.outputBuffer.length ∧
        (Turn.writable id answer).sends id s ++ cl'.pending = cl.pending := by
    obtain ⟨hbounded, happend⟩ := answer.sends_append_pending hcl (h.bounded hcl)
    by_cases hpending : cl.hasPendingOutput
    · exact ⟨_, if_pos hpending, hbounded, happend⟩
    · -- with nothing pending the socket is not written to
      have hnil := Client.pending_eq_nil (Bool.eq_false_of_not_eq_true hpending)
      rw [hnil] at happend
      refine ⟨_, if_neg hpending, h.bounded hcl, ?_⟩
      rw [(List.append_eq_nil_iff.mp happend).1, hnil]
      rfl
  rw [heq]
  have hlookup {cl₁} (hcl₁ : (s.clients.insert id cl').lookup id = some cl₁) : cl₁ = cl' :=
    Option.some.inj (hcl₁.symm.trans (AList.lookup_insert _))
  have hwritten : (taken ++ (Turn.writable id answer).sends id s) ++ cl'.pending = s.written id := by
    rw [List.append_assoc, happend, h.output hcl]
  refine ⟨fun _ => h.made hcl, fun hcl₁ => ?_, fun hcl₁ => ?_, ⟨_, hwritten⟩, h.unmade⟩
  · exact hlookup hcl₁ ▸ hbounded
  · exact hlookup hcl₁ ▸ hwritten

omit [Platform] in
/-- **A socket that can be written to**: what `send` takes moves from the buffer to what has been sent, and for other
clients nothing does. -/
theorem Outstanding.onWritable {answer : WriteResult} (h : Outstanding id taken s)
    (ht : s.onWritable i answer = some t) :
    Outstanding id (taken ++ (Turn.writable i answer).sends id s) t := by
  -- nothing is sent for a client that is not there
  have hnone (hcl : s.clients.lookup i = none) : (Turn.writable i answer).sends id s = [] := by
    unfold Turn.sends
    split
    · next heq =>
      cases heq
      rw [hcl, ite_self]
    · rfl
  unfold Server.onWritable at ht
  split at ht
  · next hcl =>
    rw [hnone hcl, List.append_nil]
    exact Option.some.inj ht ▸ h
  -- the call of `send` comes first, and is all that matters
  · next cl hcl =>
    have hwritten : ∃ cl', (if cl.hasPendingOutput then answer.apply cl else cl) = cl' ∧
        Outstanding id (taken ++ (Turn.writable i answer).sends id s)
          { s with clients := s.clients.insert i cl' } := by
      refine ⟨_, rfl, ?_⟩
      -- the call of `send` is about this client or about another one
      by_cases hi : i = id
      · subst hi
        exact h.took hcl answer
      · have hnothing : (Turn.writable i answer).sends id s = [] := by
          unfold Turn.sends
          split
          · next heq =>
            cases heq
            exact if_neg hi
          · rfl
        rw [hnothing, List.append_nil]
        exact h.same (.other hi s)
    obtain ⟨cl', heq, hwritten⟩ := hwritten
    dsimp only at ht
    rw [heq] at ht
    -- what remains is about the handler and the flag for closing
    split at ht
    · exact hwritten.same (.removeClient ht)
    · split at ht
      · exact Option.some.inj ht ▸ hwritten
      · have hhandler := hwritten.same
          (.of_eq (t := removeWriteHandler i { s with clients := s.clients.insert i cl' }) rfl rfl rfl)
        split at ht
        · exact hhandler.same (.removeClient ht)
        · exact Option.some.inj ht ▸ hhandler

/-! ### Runs -/

section Runs

variable [Double S] [Inhabited S] [LT S] [DecidableLT S] [BEq S] {reserve : Reserve} {depth : ℕ}

/-- What the calls of `send` in a run take from the output of a client. -/
def sent (reserve : Reserve) (depth : ℕ) (id : ClientId) : List Turn → Server S → Bytes
  | [], _ => []
  | label :: labels, s =>
    label.sends id s ++
      match s.turn reserve depth label with
      | none => []
      | some t => sent reserve depth id labels t

/-- **One callback.** -/
theorem Outstanding.turn {label : Turn} (h : Outstanding id taken s)
    (ht : s.turn reserve depth label = some t) : Outstanding id (taken ++ label.sends id s) t := by
  cases label with
  | accept => exact (List.append_nil taken).symm ▸ Option.some.inj ht ▸ h.addClient
  | readable i answer => exact (List.append_nil taken).symm ▸ h.onReadable ht
  | writable i answer => exact h.onWritable ht
  | cron => exact (List.append_nil taken).symm ▸ h.serverCron ht

/-- By induction on the callbacks. -/
theorem Outstanding.run (labels : List Turn) : ∀ {taken : Bytes} {s t : Server S}, Outstanding id taken s →
    s.run reserve depth labels = some t → Outstanding id (taken ++ s.sent reserve depth id labels) t := by
  induction labels with
  | nil =>
    intro taken s t h ht
    rw [Server.sent, List.append_nil]
    exact Option.some.inj ht ▸ h
  | cons label labels ih =>
    intro taken s t h ht
    obtain ⟨u, hu, ht⟩ := Option.bind_eq_some_iff.mp ht
    rw [Server.sent, hu, ← List.append_assoc]
    exact ih (h.turn hu) ht

omit [Platform] [Double S] [Inhabited S] [LT S] [DecidableLT S] [BEq S] in
/-- Nothing has been written when the server starts. -/
theorem outstanding_of_starts (hs : s.Starts) : Outstanding id [] s := by
  have hnobody {cl} (hcl : s.clients.lookup id = some cl) : False := by
    rw [hs.clients] at hcl
    cases hcl
  have hnothing : s.written id = [] := by rw [written, hs.trace, List.flatMap_nil]
  exact ⟨fun h => (hnobody h).elim, fun h => (hnobody h).elim, fun h => (hnobody h).elim,
    List.nil_prefix, fun _ => hnothing⟩

/-- **No byte of a reply is lost, repeated or sent out of order.** What the socket of a client has taken in a run is
the beginning of what has been written to the client, and the rest is pending while the client is there. The invariant
is `Outstanding`: what has been sent, followed by what is pending, is what has been written. -/
theorem sent_in_order (hs : s.Starts) {labels : List Turn} (hrun : s.run reserve depth labels = some t)
    (id : ClientId) : s.sent reserve depth id labels <+: t.written id ∧
      ∀ cl, t.clients.lookup id = some cl → s.sent reserve depth id labels ++ cl.pending = t.written id := by
  have houtstanding : Outstanding id _ t := (outstanding_of_starts hs).run labels hrun
  exact ⟨houtstanding.isPrefix, fun _ => houtstanding.output⟩

end Runs

end Callbacks

section Sample

open Sample

/-- A client sends two commands and reads the reply to them in two pieces. -/
private def pieces : List Turn :=
  [.accept, sends 0 ["PING"], .writable 0 (.wrote 3), sends 0 ["PING"], .writable 0 (.wrote 6)]

/-- The second piece is the beginning of the second reply. -/
theorem sent_in_order_pieces : ∃ t, ran pieces = some t ∧
    server.sent (fun _ => none) 2 0 pieces = str "+PONG\r\n+P" ∧
    server.sent (fun _ => none) 2 0 pieces <+: t.written 0 := by
  have hran : (ran pieces).isSome = true := by decide +kernel
  obtain ⟨t, ht⟩ := Option.isSome_iff_exists.mp hran
  exact ⟨t, ht, by decide +kernel, (sent_in_order starts_server ht 0).1⟩

end Sample

end Server

end RedisDb
